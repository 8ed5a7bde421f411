import TripleAlgebra.Proofs.Modes

/-! The chain of a join as nested loops over items, each of which ends with its first error. -/
namespace TripleAlgebra

namespace Items

/-- Items that are followed by others, unless they end with an error. -/
def andThen : List Item → List Item → List Item
  | [], js => js
  | .error e :: _, _ => [.error e]
  | .ok r :: is, js => .ok r :: andThen is js

/-- What each row gives rise to, one row after the other, up to the first error. -/
def forEach (f : Row → List Item) : List Item → List Item
  | [] => []
  | .error e :: _ => [.error e]
  | .ok r :: is => andThen (f r) (forEach f is)

theorem andThen_append (is js ks : List Item) :
    andThen (is ++ js) ks = andThen is (andThen js ks) := by
  induction is with
  | nil => rfl
  | cons i is ih =>
    cases i with
    | error e => rfl
    | ok r => exact congrArg (.ok r :: ·) ih

theorem andThen_assoc (is js ks : List Item) :
    andThen (andThen is js) ks = andThen is (andThen js ks) := by
  induction is with
  | nil => rfl
  | cons i is ih =>
    cases i with
    | error e => rfl
    | ok r => exact congrArg (.ok r :: ·) ih

theorem items_untilError (es : List Event) :
    Event.items (Event.untilError es).1 = andThen (Event.items es) [] := by
  induction es with
  | nil => rfl
  | cons e es ih =>
    rcases e with a | e | r
    · exact ih
    · rfl
    · exact congrArg (.ok r :: ·) ih

theorem hasRow_eq_any (es : List Event) : Event.hasRow es = (Event.items es).any (·.isOk) := by
  induction es with
  | nil => rfl
  | cons e es ih =>
    rcases e with a | e | r
    · exact ih
    · exact ih
    · rfl

/-- Events that are expanded row by row are a loop over the rows. -/
theorem andThen_items_expand {f : Row → List Event} {g : Row → List Item}
    (h : ∀ r, andThen (Event.items (f r)) [] = g r) (es : List Event) :
    andThen (Event.items (Event.expand f es)) [] = forEach g (Event.items es) := by
  induction es with
  | nil => rfl
  | cons e es ih =>
    rcases e with a | e | r
    · exact ih
    · rfl
    · rw [Event.expand_row, Event.items_append, Event.items_item, andThen_append, ih, forEach,
        ← h r, andThen_assoc]
      rfl

end Items

/-- The header and the items that the evaluation of a plan delivers, unless it fails. -/
def Plan.delivered (c : Context) (p : Plan) : Except Problem (List Variable × List Item) :=
  (p.dispatch c).outcome.map fun s => (s.header, Event.items s.run.events)

variable {limit : Nat}

/-- The operand of a step under a binding that is made for the row and used for nothing else. The
values of the row are substituted for its variables (`specialise_ofOperand`). -/
def JoinStep.boundAfresh (s : JoinStep limit) (row : Row) : Plan :=
  (s.binding.load row (s.bound.map (·.2))).apply s.operand

theorem JoinStep.boundAfresh_eq (s : JoinStep limit) (row : Row) :
    s.boundAfresh row = s.specialise row := s.fits_binding.apply_load row

namespace JoinPlan
variable (c : Context) (p : JoinPlan limit)

/-- The operand of the first step is evaluated for the row. Each of its rows extends the row and
goes through the remaining steps. An optional operand without a row leaves its columns unbound. -/
def loop : List (JoinStep limit) → Row → List Item
  | [], row => [.ok (p.finish row)]
  | s :: rest, row =>
    match (s.boundAfresh row).delivered c with
    | .error e => [.error e]
    | .ok (header, found) =>
      let layout := Layout.ofStep s row header
      Items.andThen (Items.forEach (fun r => loop rest (layout.combine row r)) found) <|
        if p.optional && rest.isEmpty && !found.any (·.isOk) then
          [.ok (p.finish (row.extendUnbound s.fresh.length))]
        else []

/-- The loops over the items of the first operand. -/
def loops (header : List Variable) : List Item → List Item :=
  Items.forEach fun r => p.loop c p.steps ((Layout.ofHead p.header header).combine [] r)

theorem items_nested (steps : List (JoinStep limit)) (row : Row) :
    Items.andThen (Event.items (p.nested (fun q _ => q.dispatch c) steps row)) [] =
      p.loop c steps row := by
  induction steps generalizing row with
  | nil => rfl
  | cons s rest ih =>
    rw [nested, loop, s.boundAfresh_eq, Plan.delivered]
    simp only [Event.items_append, Event.items_ofEffects, List.nil_append]
    cases ((s.specialise row).dispatch c).outcome with
    | error e => rfl
    | ok sols =>
      simp only [Except.map, Event.items_append, Items.andThen_append]
      have hloop := Items.andThen_items_expand
        (f := fun r => p.nested (fun q _ => q.dispatch c) rest
          ((Layout.ofStep s row sols.header).combine row r))
        (fun r => ih _) (Event.settle sols.run.started)
      rw [Event.items_settle, Event.items_started] at hloop
      have hlast (b : Bool) (r : Row) :
          Items.andThen (Event.items (if b then [.item (.ok r)] else [])) [] =
            if b then [.ok r] else [] := by
        cases b <;> rfl
      rw [← hloop, Items.andThen_assoc, hlast, Items.hasRow_eq_any, Event.items_settle,
        Event.items_started]
      rfl

/-- A chain delivers what the loops do. -/
theorem items_events (header : List Variable) (es : List Event) :
    Event.items (p.events (fun q _ => q.dispatch c) header es) =
      p.loops c header (Event.items es) := by
  rw [events_eq, Items.items_untilError]
  exact Items.andThen_items_expand (fun r => p.items_nested c p.steps _) es

/-- The buffers and the frames after so many steps of the chain. -/
def after (run : (q : Plan) → q.rank < limit → Attempt Solutions) (start : List Frame) :
    Nat → List Binding × List Frame
  | 0 => (p.steps.map JoinStep.binding, start)
  | n + 1 =>
    match after run start n with
    | (bindings, []) => (bindings, [])
    | (bindings, f :: below) =>
      let next := p.advance run bindings f below
      (next.bindings, next.frames)

theorem buffersFit_after (run : (q : Plan) → q.rank < limit → Attempt Solutions)
    (start : List Frame) (n : Nat) : p.BuffersFit (p.after run start n).1 := by
  induction n with
  | zero => exact p.buffersFit_binding
  | succ n ih =>
    rw [after]
    split
    · rename_i h
      rwa [h] at ih
    · rename_i f below h
      rw [h] at ih
      exact (p.stackEvents_advance run ih f below).2

end JoinPlan

namespace Plan
variable {c : Context} {p : Plan}

/-- A plan whose evaluator delivers under the header of the plan passes the check of the header. -/
theorem items_of_deliver (hr : c.registry = .builtin) {m : Mode} {hot : Bool} {r : Run}
    (h : (evaluate c (.builtin p.kind.family (c.config.mode p.kind)) p
      fun q _ => dispatch c q).outcome = (Solutions.deliver m p.vars hot r).outcome) :
    p.items c = .ok (p.vars, Event.items r.events) := by
  obtain ⟨s, hs, hregular, hevents⟩ := Solutions.exists_deliver m p.vars hot r
  have hdispatch : (dispatch c p).outcome = .ok s := by
    rw [dispatch]
    simp only [hr, Registry.find?_builtin]
    rw [Attempt.outcome_bind (h.trans hs), checkHeader, if_neg fun hne => hne.2 hregular.header_eq]
    rfl
  rw [items, execute_eq hr, hdispatch]
  simp only [Except.map, Solutions.take_none hregular.memo_eq, hregular.header_eq, hevents]

theorem items_of_fail (hr : c.registry = .builtin) {e : Problem}
    (h : (evaluate c (.builtin p.kind.family (c.config.mode p.kind)) p
      fun q _ => dispatch c q).outcome = .error e) : p.items c = .error e := by
  have hdispatch : (dispatch c p).outcome = .error e := by
    rw [dispatch]
    simp only [hr, Registry.find?_builtin]
    exact Attempt.outcome_bind_error h
  rw [items, execute_eq hr, hdispatch]
  rfl

/-- A plan whose evaluator makes items of those of one operand. -/
theorem items_of_operand (hr : c.registry = .builtin) {q : Plan}
    {f : Solutions → Attempt Solutions} {g : List Item → List Item}
    (heval : evaluate c (.builtin p.kind.family (c.config.mode p.kind)) p
      (fun q _ => dispatch c q) = dispatch c q >>= f)
    (hmemo : ∀ s, (dispatch c q).outcome = .ok s → s.memo = none)
    (hf : ∀ s, ∃ m hot r, f s = Solutions.deliver m p.vars hot r ∧
      Event.items r.events = g (Event.items s.run.events)) :
    p.items c = (q.items c).map fun d => (p.vars, g d.2) := by
  cases hs : (dispatch c q).outcome with
  | error e =>
    rw [items_of_fail hr (by rw [heval, Attempt.outcome_bind_error hs]), items, execute_eq hr, hs]
    rfl
  | ok s =>
    obtain ⟨m, hot, r, hdeliver, hitems⟩ := hf s
    rw [items_of_deliver hr (by rw [heval, Attempt.outcome_bind hs, hdeliver]), hitems, items,
      execute_eq hr, hs]
    simp only [Except.map, Solutions.take_none (hmemo s hs)]

theorem items_of_runJoin (hr : c.registry = .builtin) {m : Mode}
    {head : { q : Plan // q.rank < p.rank }} {plan : JoinPlan p.rank}
    (h : evaluate c (.builtin p.kind.family (c.config.mode p.kind)) p (fun q _ => dispatch c q) =
      runJoin m p.vars (fun q _ => dispatch c q) head plan) :
    p.items c = (head.1.delivered c).map fun d => (p.vars, plan.loops c d.1 d.2) := by
  rw [delivered]
  cases hs : (dispatch c head.1).outcome with
  | error e => exact items_of_fail hr (by rw [h]; exact Attempt.outcome_bind_error hs)
  | ok s =>
    rw [items_of_deliver hr (by rw [h]; exact Attempt.outcome_bind hs)]
    exact congrArg (fun is => Except.ok (p.vars, is)) (plan.items_events c s.header s.run.events)

/-- The first operand of a join and the chain of the others. -/
def joinChain (c : Context) (ps : List Plan) : Plan × JoinPlan (join ps).rank :=
  match operandsOf c ps with
  | [] => (identity, joinPlan identity [] (arranged c ps).2)
  | head :: rest => (head.1, joinPlan head.1 rest (arranged c ps).2)

/-- Over every store and in every mode, joins, optional joins and tables deliver what nested loops
deliver in which each operand is bound afresh for each row. No buffer of the chain ever holds
anything that would make a difference to this. Which value reaches which variable is said by
`JoinStep.boundAfresh_eq` with `specialise_ofOperand` for the operand that is bound for a row, by
`assignment_combine_specialise` for a row that is combined with one of its rows, and by
`assignment_finish` for the row that leaves the chain. -/
theorem chains_are_nested_loops (store : TripleStore) (config : Config) :
    let c : Context := ⟨store, config, .builtin⟩
    (∀ ps, (join ps).items c = ((joinChain c ps).1.delivered c).map fun d =>
      ((join ps).vars, (joinChain c ps).2.loops c d.1 d.2)) ∧
    (∀ l r e, (leftJoin l r e).items c = (l.delivered c).map fun d =>
      ((leftJoin l r e).vars, (leftJoinPlan l r e).loops c d.1 d.2)) ∧
    (∀ p vs table, (values p vs table).items c =
      .ok ((values p vs table).vars, (tablePlan p vs table).loops c vs (table.map .ok))) ∧
    ∀ {limit : Nat} (plan : JoinPlan limit) (run) (start : List Frame) (n : Nat)
      (i : Fin plan.steps.length) (row : Row),
      let s := plan.steps[i]
      let buffer := (plan.after run start n).1[i.val]?.getD s.binding
      (buffer.load row (s.bound.map (·.2))).apply s.operand = s.boundAfresh row := by
  intro c
  refine ⟨fun ps => ?_, fun l r e => ?_, fun p vs table => ?_, fun plan run start n i row => ?_⟩
  · unfold joinChain
    have heval := evaluateJoin_eq c (c.config.mode .join) ps fun q _ => dispatch c q
    split
    · rename_i hops
      rw [hops] at heval
      exact items_of_runJoin (c := c) (p := join ps) rfl heval
    · rename_i head rest hops
      rw [hops] at heval
      exact items_of_runJoin (c := c) (p := join ps) rfl heval
  · have heval :
        evaluateJoin c (c.config.mode .leftJoin) (.leftJoin l r e) (fun q _ => dispatch c q) =
          runJoin (c.config.mode .leftJoin) (leftJoin l r e).vars (fun q _ => dispatch c q)
            ⟨l, by simp only [rank]; omega⟩ (leftJoinPlan l r e) := rfl
    exact items_of_runJoin (c := c) (p := leftJoin l r e) rfl heval
  · have heval := evaluateValues_eq (c.config.mode .values) p vs table fun q _ => dispatch c q
    rw [items_of_deliver (c := c) (p := values p vs table) rfl (congrArg Attempt.outcome heval),
      JoinPlan.items_events, Event.items_ofRows]
  · intro s buffer
    have hfit : s.Fits buffer := plan.buffersFit_after run start n i s (by simp [s])
    exact (hfit.apply_load row).trans (s.boundAfresh_eq row).symm

end Plan

end TripleAlgebra

import TripleAlgebra.Proofs.Delivery

/-! The stack of frames of a join computes nested loops: each row of an operand is followed by all
that the operands after it make of it, and the first error ends everything. -/
namespace TripleAlgebra

namespace Event

/-- Whether a row is among the events. -/
def hasRow (es : List Event) : Bool := es.any fun
  | .item (.ok _) => true
  | _ => false

/-- No error is among the events. -/
def Clean (es : List Event) : Prop := ∀ e, .item (.error e) ∉ es

theorem untilError_append_clean {es : List Event} (h : Clean es) (fs : List Event) :
    (untilError (es ++ fs)).1 = es ++ (untilError fs).1 := by
  induction es with
  | nil => rfl
  | cons e es ih =>
    have ht : Clean es := fun x hx => h x (by simp [hx])
    rcases e with a | e | r
    · exact congrArg (Event.act a :: ·) (ih ht)
    · exact absurd (by simp) (h e)
    · exact congrArg (Event.item (.ok r) :: ·) (ih ht)

@[simp] theorem expand_nil (f : Row → List Event) : expand f [] = [] := rfl

@[simp] theorem expand_act (f : Row → List Event) (a : Act) (es : List Event) :
    expand f (.act a :: es) = .act a :: expand f es := rfl

@[simp] theorem expand_row (f : Row → List Event) (r : Row) (es : List Event) :
    expand f (.item (.ok r) :: es) = f r ++ expand f es := rfl

@[simp] theorem hasRow_nil : hasRow [] = false := rfl

@[simp] theorem hasRow_act (a : Act) (es : List Event) : hasRow (.act a :: es) = hasRow es := rfl

@[simp] theorem hasRow_row (r : Row) (es : List Event) :
    hasRow (.item (.ok r) :: es) = true := rfl

theorem clean_ofEffects (es : List Effect) : Clean (ofEffects es) := by
  intro e h
  simp [ofEffects] at h

theorem Deliver.hasRow {es : List Event} {rows : List Row} (h : Deliver es rows) :
    hasRow es = !rows.isEmpty := by
  induction h with
  | nil => rfl
  | act a _ ih => simpa [Event.hasRow] using ih
  | row r _ _ => simp [Event.hasRow]

end Event

variable {limit : Nat}

namespace JoinStep

/-- The operand with the values of a row in place of the variables that it shares with the row. -/
def specialise (s : JoinStep limit) (row : Row) : Plan :=
  s.operand.bind (s.bound.map (·.1)) (s.bound.map fun (_, i) => row.value i)

theorem rank_specialise_lt (s : JoinStep limit) (row : Row) : (s.specialise row).rank < limit :=
  Nat.lt_of_le_of_lt (Plan.rank_bind_le ..) s.operand_lt

/-- A buffer for the values that the step substitutes. -/
structure Fits (s : JoinStep limit) (b : Binding) : Prop where
  header_eq : b.header = s.bound.map (·.1)
  length_eq : b.values.length = s.bound.length

theorem fits_binding (s : JoinStep limit) : s.Fits s.binding :=
  ⟨rfl, by simp [binding, Binding.ofHeader]⟩

/-- Loading a row leaves nothing of an earlier row in the buffer. -/
theorem Fits.apply_load {s : JoinStep limit} {b : Binding} (h : s.Fits b) (row : Row) :
    (b.load row (s.bound.map (·.2))).apply s.operand = s.specialise row := by
  have hl : b.values.length = (s.bound.map (·.2)).length := by simpa using h.length_eq
  have hh : (b.load row (s.bound.map (·.2))).header = b.header := rfl
  unfold Binding.apply
  rw [hh, Binding.load_values hl, h.header_eq, List.map_map]
  rfl

theorem Fits.load {s : JoinStep limit} {b : Binding} (h : s.Fits b) (row : Row) :
    s.Fits (b.load row (s.bound.map (·.2))) := by
  have hl : b.values.length = (s.bound.map (·.2)).length := by simpa using h.length_eq
  exact ⟨h.header_eq, by simp [Binding.load_values hl]⟩

end JoinStep

namespace JoinPlan
variable (p : JoinPlan limit) (run : (q : Plan) → q.rank < limit → Attempt Solutions)

/-- What the remaining steps make of a row: the operand of the next step is specialised for the row
and evaluated, and each of its rows is joined to the row and goes on. An optional operand without a
row leaves its columns unbound. -/
def nested : List (JoinStep limit) → Row → List Event
  | [], row => [.item (.ok (p.finish row))]
  | s :: rest, row =>
    let attempt := run (s.specialise row) (s.rank_specialise_lt row)
    Event.ofEffects attempt.effects ++
      match attempt.outcome with
      | .error e => [.item (.error e)]
      | .ok sols =>
        let events := Event.settle sols.run.started
        let layout := Layout.ofStep s row sols.header
        Event.expand (fun r => nested rest (layout.combine row r)) events ++
          if p.optional && rest.isEmpty && !Event.hasRow events then
            [.item (.ok (p.finish (row.extendUnbound s.fresh.length)))]
          else []

/-- What is still to come from a frame with so many frames below it. -/
def frameEvents (depth : Nat) (f : Frame) : List Event :=
  Event.expand (fun r => p.nested run (p.steps.drop depth) (f.layout.combine f.outer r)) f.events ++
    p.unmatched depth { f with matched := f.matched || Event.hasRow f.events }

/-- What is still to come from a stack of frames, the deepest one first. -/
def stackEvents : List Frame → List Event
  | [] => []
  | f :: below => p.frameEvents run below.length f ++ stackEvents below

/-- Every step has a buffer of its size. -/
def BuffersFit (bindings : List Binding) : Prop :=
  ∀ (i : Nat) (s : JoinStep limit), p.steps[i]? = some s → s.Fits (bindings[i]?.getD s.binding)

theorem clean_unmatched (depth : Nat) (f : Frame) : Event.Clean (p.unmatched depth f) := by
  intro e h
  unfold unmatched at h
  split at h
  · split at h <;> simp at h
  · simp at h

theorem unmatched_congr {f g : Frame} (ho : f.outer = g.outer) (hm : f.matched = g.matched)
    (depth : Nat) : p.unmatched depth f = p.unmatched depth g := by
  unfold unmatched
  rw [ho, hm]

theorem frameEvents_row {r : Row} {es : List Event} {f : Frame} (h : f.events = .item (.ok r) :: es)
    (depth : Nat) :
    p.frameEvents run depth f =
      p.nested run (p.steps.drop depth) (f.layout.combine f.outer r) ++
        p.frameEvents run depth { f with events := es, matched := true } := by
  simp only [frameEvents, h, Event.expand_row, List.append_assoc]
  congr 2
  apply unmatched_congr
  · rfl
  · simp

theorem frameEvents_act {a : Act} {es : List Event} {f : Frame} (h : f.events = .act a :: es)
    (depth : Nat) :
    p.frameEvents run depth f = .act a :: p.frameEvents run depth { f with events := es } := by
  simp only [frameEvents, h, Event.expand_act, List.cons_append]
  congr 2

/-- A step opens the frame of its operand with all that is to come from it. -/
theorem nested_eq_frameEvents {s : JoinStep limit} {depth : Nat} (hs : p.steps[depth]? = some s)
    {row : Row} {sols : Solutions}
    (ho : (run (s.specialise row) (s.rank_specialise_lt row)).outcome = .ok sols) :
    p.nested run (p.steps.drop depth) row =
      Event.ofEffects (run (s.specialise row) (s.rank_specialise_lt row)).effects ++
        p.frameEvents run (depth + 1)
          ⟨row, .ofStep s row sols.header, Event.settle sols.run.started, false⟩ := by
  obtain ⟨hlt, rfl⟩ := List.getElem?_eq_some_iff.mp hs
  rw [List.drop_eq_getElem_cons hlt, nested]
  simp only [ho, frameEvents, unmatched, Bool.false_or]
  congr 2
  by_cases hd : depth + 1 < p.steps.length
  · have hn : p.steps.drop (depth + 1) ≠ [] := by simpa using hd
    cases hb : p.optional && !Event.hasRow (Event.settle sols.run.started) <;>
      simp [hs, List.getElem?_eq_getElem hd, hn]
  · have hn : p.steps.drop (depth + 1) = [] := by simpa using hd
    have hg : p.steps[depth + 1]? = none := List.getElem?_eq_none (by omega)
    cases hb : p.optional && !Event.hasRow (Event.settle sols.run.started) <;>
      simp_all

theorem BuffersFit.set {p : JoinPlan limit} {bindings : List Binding} (h : p.BuffersFit bindings)
    {depth : Nat} {s : JoinStep limit} (hs : p.steps[depth]? = some s) {b : Binding}
    (hb : s.Fits b) : p.BuffersFit (bindings.set depth b) := by
  intro i t ht
  rw [List.getElem?_set]
  split
  · rename_i hi
    subst hi
    cases Option.some.inj (hs.symm.trans ht)
    split
    · exact hb
    · exact s.fits_binding
  · exact h i t ht

/-- The operand that a frame is opened for is the one specialised for the row. -/
theorem enter_eq {bindings : List Binding} {f : Frame} {below : List Frame} {s : JoinStep limit}
    (h : s.Fits (bindings[below.length]?.getD s.binding)) (row : Row) :
    enter run bindings (f :: below) s row =
      let attempt := run (s.specialise row) (s.rank_specialise_lt row)
      let effects := Event.ofEffects attempt.effects
      let bindings := bindings.set below.length
        ((bindings[below.length]?.getD s.binding).load row (s.bound.map (·.2)))
      match attempt.outcome with
      | .error e => ⟨effects ++ [.item (.error e)], bindings, []⟩
      | .ok sols =>
        let layout := Layout.ofStep s row sols.header
        ⟨effects, bindings, ⟨row, layout, Event.settle sols.run.started, false⟩ :: f :: below⟩ := by
  have hrun (q : Plan) (hq : q = s.specialise row) (hlt : q.rank < limit) :
      run q hlt = run (s.specialise row) (s.rank_specialise_lt row) := by
    subst hq
    rfl
  unfold enter
  simp only [List.length_cons, Nat.add_sub_cancel]
  cases hout : (run (s.specialise row) (s.rank_specialise_lt row)).outcome <;>
    simp only [hrun _ (h.apply_load row), hout]

/-- One step of the chain emits the next events that are to come from its stack. -/
theorem stackEvents_advance {bindings : List Binding} (hb : p.BuffersFit bindings) (f : Frame)
    (below : List Frame) :
    let next := p.advance run bindings f below
    (Event.untilError (p.stackEvents run (f :: below))).1 =
        next.emitted ++ (Event.untilError (p.stackEvents run next.frames)).1 ∧
      p.BuffersFit next.bindings := by
  simp only [advance]
  split
  · rename_i he
    have hf : p.frameEvents run below.length f = p.unmatched below.length f := by
      simp only [frameEvents, he, Event.expand_nil, List.nil_append]
      apply unmatched_congr
      · rfl
      · simp
    exact ⟨by rw [stackEvents, hf, Event.untilError_append_clean (p.clean_unmatched _ f)], hb⟩
  · rename_i a es he
    exact ⟨by rw [stackEvents, p.frameEvents_act run he]; rfl, hb⟩
  · rename_i e es he
    refine ⟨?_, hb⟩
    simp [stackEvents, frameEvents, he, Event.expand, Event.untilError]
  · rename_i r es he
    rw [stackEvents, p.frameEvents_row run he, List.append_assoc]
    split
    · rename_i hs
      have hd : p.steps.drop below.length = [] := by
        simpa using List.getElem?_eq_none_iff.mp hs
      exact ⟨by rw [hd]; rfl, hb⟩
    · rename_i s hs
      have hfit := hb _ _ hs
      have hset := hb.set hs (hfit.load (f.layout.combine f.outer r))
      rw [enter_eq run hfit]
      dsimp only
      split
      · rename_i e ho
        refine ⟨?_, hset⟩
        obtain ⟨hlt, hs'⟩ := List.getElem?_eq_some_iff.mp hs
        rw [List.drop_eq_getElem_cons hlt, hs', nested]
        simp only [ho, List.append_assoc]
        rw [Event.untilError_append_clean (Event.clean_ofEffects _)]
        simp [Event.untilError, stackEvents]
      · rename_i sols ho
        refine ⟨?_, hset⟩
        rw [p.nested_eq_frameEvents run hs ho, List.append_assoc,
          Event.untilError_append_clean (Event.clean_ofEffects _)]
        simp [stackEvents]

/-- The chain runs through all that is to come from its stack, up to the first error. -/
theorem drain_eq (bindings : List Binding) (frames : List Frame)
    (h : frames.length ≤ p.steps.length + 1) (hb : p.BuffersFit bindings) :
    p.drain run bindings frames h = (Event.untilError (p.stackEvents run frames)).1 := by
  induction bindings, frames, h using JoinPlan.drain.induct p run with
  | case1 bindings h => rw [drain]; rfl
  | case2 bindings f below h' h next ih =>
    obtain ⟨he, hnext⟩ := p.stackEvents_advance run hb f below
    rw [drain, he, ih hnext]

theorem buffersFit_binding : p.BuffersFit (p.steps.map JoinStep.binding) := by
  intro i s hs
  simpa [List.getElem?_map, hs] using s.fits_binding

/-- A join produces the nested loops over the rows of its first operand, up to the first error. -/
theorem events_eq (header : List Variable) (es : List Event) :
    p.events run header es =
      (Event.untilError (Event.expand
        (fun r => p.nested run p.steps ((Layout.ofHead p.header header).combine [] r)) es)).1 := by
  rw [events, drain_eq p run _ _ _ p.buffersFit_binding]
  simp [stackEvents, frameEvents, unmatched]

/-- The rows of the nested loops when each specialised operand has the given rows. -/
def nestedRows (answer : Plan → List Row) : List (JoinStep limit) → Row → List Row
  | [], row => [p.finish row]
  | s :: rest, row =>
    let found := answer (s.specialise row)
    let layout := Layout.ofStep s row (s.specialise row).vars
    found.flatMap (fun r => nestedRows answer rest (layout.combine row r)) ++
      if p.optional && rest.isEmpty && found.isEmpty then
        [p.finish (row.extendUnbound s.fresh.length)]
      else []

variable {answer : Plan → List Row}
  (hrun : ∀ (q : Plan) (h : q.rank < limit), (run q h).Yields q.vars (answer q))
include hrun

theorem deliver_nested (steps : List (JoinStep limit)) (row : Row) :
    Event.Deliver (p.nested run steps row) (p.nestedRows answer steps row) := by
  induction steps generalizing row with
  | nil => exact .row _ .nil
  | cons s rest ih =>
    obtain ⟨sols, ho, hy⟩ := hrun _ (s.rank_specialise_lt row)
    have hfound := hy.started.settle
    have hloop := hfound.expand
      (f := fun r => p.nested run rest ((Layout.ofStep s row sols.header).combine row r))
      fun r _ => ih _
    have hnone (b : Bool) (r : Row) :
        Event.Deliver (if b then [.item (.ok r)] else []) (if b then [r] else []) := by
      cases b
      · exact .nil
      · exact .row r .nil
    rw [nested, nestedRows]
    simp only [ho]
    rw [hfound.hasRow, Bool.not_not, ← hy.header_eq]
    exact (Event.deliver_ofEffects _).append (hloop.append (hnone _ _))

/-- A join whose operands have rows delivers the rows of its nested loops. -/
theorem deliver_events {header : List Variable} {es : List Event} {rows : List Row}
    (h : Event.Deliver es rows) :
    Event.Deliver (p.events run header es) (rows.flatMap fun r =>
      p.nestedRows answer p.steps ((Layout.ofHead p.header header).combine [] r)) := by
  rw [events_eq]
  exact (h.expand fun r _ => p.deliver_nested run hrun p.steps _).untilError

end JoinPlan
end TripleAlgebra

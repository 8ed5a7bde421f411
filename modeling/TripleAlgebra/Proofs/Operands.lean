import TripleAlgebra.Proofs.Answers

/-! What becomes of operands that are evaluated for the rows of other operands. Every plan has rows
as long as the store answers. -/
namespace TripleAlgebra

theorem Binding.apply_load {vs : List Variable} {columns : List Nat}
    (h : vs.length = columns.length) (r : Row) (p : Plan) :
    ((Binding.ofHeader vs).load r columns).apply p = p.bind vs (columns.map r.value) := by
  have hl : (Binding.ofHeader vs).values.length = columns.length := by simpa [ofHeader] using h
  unfold apply
  rw [load_values hl]
  rfl

namespace Event
variable {outer : List Variable} {inner : Plan} {answer : Plan → List Row}
  {run : (q : Plan) → q.rank ≤ inner.rank → Attempt Solutions}

/-- Outer rows are kept by whether the inner plan has a row for them. -/
theorem Deliver.correlate (hrun : ∀ q h, (run q h).Yields q.vars (answer q)) (wanted : Bool)
    {es : List Event} {rows : List Row} (h : Deliver es rows) :
    Deliver (correlate outer inner wanted run es) (rows.filter fun r =>
      (!(answer (inner.bind outer ((List.range outer.length).map r.value))).isEmpty) ==
        wanted) := by
  refine Deliver.fuse (h.expandFilter fun r _ => ?_)
  have hbind : ((Binding.ofHeader outer).load r (List.range outer.length)).apply inner =
      inner.bind outer ((List.range outer.length).map r.value) :=
    Binding.apply_load List.length_range.symm r inner
  obtain ⟨s, hs, hy⟩ := hrun (((Binding.ofHeader outer).load r (List.range outer.length)).apply
    inner) (Plan.rank_bind_le ..)
  obtain ⟨hfound, hdone⟩ := hy.firstRow
  rw [hbind] at hfound
  simp only [hs, hfound]
  refine ((deliver_ofEffects _).append hdone).append ?_
  cases (answer (inner.bind outer ((List.range outer.length).map r.value))).isEmpty <;>
    cases wanted
  · exact .nil
  · exact .row r .nil
  · exact .row r .nil
  · exact .nil

end Event

namespace MinusPlan
variable {p : MinusPlan} {answer : Plan → List Row}
  {run : (q : Plan) → q.rank ≤ p.right.rank → Attempt Solutions}

/-- Whether a row of the specialised right side removes a left row. -/
def removedBy (p : MinusPlan) (answer : Plan → List Row) (row : Row) : Bool :=
  let values := p.substitutedColumns.map row.value
  let right := p.right.bind p.substituted values
  let leftKey := row.project p.comparedKey
  let overlapRequired := !p.boundOverlap && values.all Option.isNone
  if overlapRequired && leftKey.all Option.isNone then false
  else if p.compared.isEmpty then !(answer right).isEmpty
  else (answer right).any fun r =>
    compatible leftKey (r.project (Variable.columns right.vars p.compared)) overlapRequired

theorem search_eq (keyColumns : List (Option Nat)) (leftKey : Row) (overlapRequired : Bool)
    {es : List Event} {rows : List Row} (h : Event.Deliver es rows) :
    let found := search keyColumns leftKey overlapRequired es
    found.2 = .ok (rows.any fun r => compatible leftKey (r.project keyColumns) overlapRequired) ∧
      Event.Deliver found.1 [] := by
  induction h with
  | nil => exact ⟨rfl, .nil⟩
  | act a _ ih => exact ⟨ih.1, .act a ih.2⟩
  | row r _ ih =>
    rw [search]
    split
    · rename_i hc
      exact ⟨by simp [hc], .nil⟩
    · rename_i hc
      exact ⟨by simpa [hc] using ih.1, ih.2⟩

theorem removesBound_eq (hrun : ∀ q h, (run q h).Yields q.vars (answer q))
    (hlen : p.substituted.length = p.substitutedColumns.length) (row : Row) :
    (p.removesBound run row).2 = .ok (p.removedBy answer row) ∧
      Event.Deliver (p.removesBound run row).1 [] := by
  have hbind := Binding.apply_load hlen row p.right
  have hvalues : ((Binding.ofHeader p.substituted).load row p.substitutedColumns).values =
      p.substitutedColumns.map row.value :=
    Binding.load_values (by simpa [Binding.ofHeader] using hlen) row
  obtain ⟨s, hs, hy⟩ := hrun (((Binding.ofHeader p.substituted).load row
    p.substitutedColumns).apply p.right) (Plan.rank_bind_le ..)
  unfold removesBound removedBy
  dsimp only
  rw [hvalues]
  split
  · exact ⟨rfl, .nil⟩
  · rw [hs]
    dsimp only
    split
    · obtain ⟨hfound, hdone⟩ := hy.firstRow
      rw [← hbind]
      exact ⟨hfound, (Event.deliver_ofEffects _).append hdone⟩
    · obtain ⟨hfound, hdone⟩ := search_eq (Variable.columns s.header p.compared)
        (row.project p.comparedKey)
        (!p.boundOverlap && (p.substitutedColumns.map row.value).all Option.isNone)
        hy.started.settle
      rw [← hbind, ← hy.header_eq]
      exact ⟨hfound, (Event.deliver_ofEffects _).append hdone⟩

theorem length_substituted (l r : Plan) (b : Bool) :
    (ofSides l r b).substituted.length = (ofSides l r b).substitutedColumns.length := by
  have hsome (vs : List Variable) (h : vs ⊆ l.vars) :
      (vs.filterMap (Variable.column? l.vars)).length = vs.length := by
    induction vs with
    | nil => rfl
    | cons v vs ih =>
      have hv : v ∈ l.vars := h (by simp)
      obtain ⟨i, hi⟩ := Option.isSome_iff_exists.mp (Variable.column?_isSome.mpr hv)
      simp [hi, ih fun w hw => h (by simp [hw])]
  symm
  apply hsome _
  intro v hv
  exact (List.mem_filter.mp (List.mem_filter.mp hv).1).1

theorem deliver_boundEvents (hrun : ∀ q h, (run q h).Yields q.vars (answer q))
    (hlen : p.substituted.length = p.substitutedColumns.length) {es : List Event}
    {rows : List Row} (h : Event.Deliver es rows) :
    Event.Deliver (p.boundEvents run es) (rows.filter fun r => !p.removedBy answer r) := by
  refine Event.Deliver.fuse (h.expandFilter fun r _ => ?_)
  obtain ⟨hfound, hdone⟩ := removesBound_eq hrun hlen r
  dsimp only
  rw [hfound]
  refine hdone.append ?_
  cases p.removedBy answer r
  · exact .row r .nil
  · exact .nil

theorem deliver_setEvents (p : MinusPlan) {right : Solutions} {header : List Variable}
    {found rows : List Row} {es : List Event} (hr : right.Yields header found)
    (h : Event.Deliver es rows) :
    let table := MinusTable.ofKeys (found.map (·.project p.rightKey))
    Event.Deliver (p.setEvents right es)
      (rows.filter fun r => !table.removes (r.project p.leftKey) (!p.boundOverlap)) := by
  refine Event.Deliver.fuse ((h.beforeFirstRow _).expandFilter fun r _ => ?_)
  rw [hr.gather]
  dsimp only
  cases (MinusTable.ofKeys (found.map (·.project p.rightKey))).removes (r.project p.leftKey)
    (!p.boundOverlap)
  · exact .row r .nil
  · exact .nil

end MinusPlan

namespace Plan
variable {c : Context} {stored : Pattern → List Row} {p q l r : Plan} {rows : List Row}
  {answer : Plan → List Row}

theorem Answers.semijoin (hc : c.Reliable stored) (h : Answers c p rows)
    (hq : ∀ q' : Plan, q'.rank ≤ q.rank → Answers c q' (answer q')) :
    Answers c (.semijoin p q) (rows.filter fun r =>
      (!(answer (q.bind p.vars ((List.range p.vars.length).map r.value))).isEmpty) == true) := by
  apply answers_of_evaluate hc
  exact Attempt.Yields.bind h fun s hs =>
    Solutions.yields_deliver _ _ _ (hs.deliver.correlate (fun q' hq' => hq q' hq') true)

theorem Answers.antijoin (hc : c.Reliable stored) (h : Answers c p rows)
    (hq : ∀ q' : Plan, q'.rank ≤ q.rank → Answers c q' (answer q')) :
    Answers c (.antijoin p q) (rows.filter fun r =>
      (!(answer (q.bind p.vars ((List.range p.vars.length).map r.value))).isEmpty) == false) := by
  apply answers_of_evaluate hc
  exact Attempt.Yields.bind h fun s hs =>
    Solutions.yields_deliver _ _ _ (hs.deliver.correlate (fun q' hq' => hq q' hq') false)

/-- What a difference keeps, by either rule. -/
theorem Answers.minus (hc : c.Reliable stored) (h : Answers c l rows) (b : Bool)
    (hr : ∀ q : Plan, q.rank ≤ r.rank → Answers c q (answer q)) :
    let plan := MinusPlan.ofSides l r b
    Answers c (.minus l r b) (rows.filter fun row => !
      match c.config.minus with
      | .bind => plan.removedBy answer row
      | .set => (MinusTable.ofKeys ((answer r).map (·.project plan.rightKey))).removes
          (row.project plan.leftKey) (!plan.boundOverlap)) := by
  intro plan
  apply answers_of_evaluate hc
  apply Attempt.Yields.bind h
  intro s hs
  dsimp only
  cases c.config.minus with
  | bind =>
    exact Solutions.yields_deliver _ _ _ (MinusPlan.deliver_boundEvents (fun q hq => hr q hq)
      (MinusPlan.length_substituted l r b) hs.deliver)
  | set =>
    apply Attempt.Yields.bind (hr r (Nat.le_refl _))
    intro s' hs'
    exact Solutions.yields_deliver _ _ _ (plan.deliver_setEvents hs' hs.deliver)

/-- The rows of a chain of operands whose first one has the given rows. -/
def chained {limit : Nat} (plan : JoinPlan limit) (answer : Plan → List Row)
    (header : List Variable) (rows : List Row) : List Row :=
  rows.flatMap fun r =>
    plan.nestedRows answer plan.steps ((Layout.ofHead plan.header header).combine [] r)

theorem yields_runJoin {m : Mode} {header : List Variable}
    (head : { q : Plan // q.rank < p.rank }) {plan : JoinPlan p.rank}
    (h : ∀ q : Plan, q.rank < p.rank → Answers c q (answer q)) :
    (runJoin m header (fun q (_ : q.Below p) => dispatch c q) head plan).Yields header
      (chained plan answer head.1.vars (answer head.1)) := by
  apply Attempt.Yields.bind (h head.1 head.2)
  intro s hs
  rw [hs.header_eq]
  exact Solutions.yields_deliver _ _ _ (plan.deliver_events _ (fun q hq => h q hq) hs.deliver)

/-- The rows of a join of operands in the order of their evaluation. -/
def joinRows (answer : Plan → List Row) {limit : Nat} (projection : Option (List Nat)) :
    List { q : Plan // q.rank < limit } → List Row
  | [] =>
    chained (joinPlan .identity [] projection : JoinPlan limit) answer [] (answer .identity)
  | head :: rest =>
    chained (joinPlan head.1 rest projection) answer head.1.vars (answer head.1)

theorem rank_lt_leftJoin (l r : Plan) (condition : Option Expression) :
    r.rank < (leftJoin l r condition).rank := by
  simp only [rank]
  omega

theorem rank_lt_values (p : Plan) (vs : List Variable) (table : List Row) :
    p.rank < (values p vs table).rank := by
  simp only [rank]
  omega

theorem rank_identity_lt_join (ps : List Plan) : identity.rank < (join ps).rank := by
  simp only [rank]
  omega

/-- The operands of a join in the order of their evaluation. -/
def operandsOf (c : Context) (ps : List Plan) : List { q : Plan // q.rank < (join ps).rank } :=
  (arranged c ps).1.map (Subtype.map id fun _ => rank_lt_join)

/-- The first operand is evaluated and the others are chained to it. -/
theorem evaluateJoin_eq (c : Context) (m : Mode) (ps : List Plan) (run : Dispatcher (join ps)) :
    evaluateJoin c m (.join ps) run =
      match operandsOf c ps with
      | [] =>
        runJoin m (join ps).vars run ⟨.identity, rank_identity_lt_join ps⟩
          (joinPlan .identity [] (arranged c ps).2)
      | head :: rest =>
        runJoin m (join ps).vars run head (joinPlan head.1 rest (arranged c ps).2) := rfl

theorem answers_join (hc : c.Reliable stored) {ps : List Plan}
    (h : ∀ q : Plan, q.rank < (join ps).rank → Answers c q (answer q)) :
    Answers c (.join ps) (joinRows answer (arranged c ps).2 (operandsOf c ps)) := by
  apply answers_of_evaluate hc
  show (evaluateJoin c (c.config.mode .join) (.join ps) fun q _ => dispatch c q).Yields _ _
  rw [evaluateJoin_eq]
  cases operandsOf c ps with
  | nil => exact yields_runJoin _ h
  | cons head rest => exact yields_runJoin _ h

/-- The chain of a left join. -/
def leftJoinPlan (l r : Plan) (condition : Option Expression) :
    JoinPlan (leftJoin l r condition).rank where
  header := l.vars
  steps := [.ofOperand l.vars r (rank_lt_leftJoin l r condition) condition]
  optional := true

theorem answers_leftJoin (hc : c.Reliable stored) {condition : Option Expression}
    (h : ∀ q : Plan, q.rank < (leftJoin l r condition).rank → Answers c q (answer q)) :
    Answers c (.leftJoin l r condition)
      (chained (leftJoinPlan l r condition) answer l.vars (answer l)) := by
  apply answers_of_evaluate hc
  exact yields_runJoin ⟨l, by simp only [rank]; omega⟩ h

/-- The operand that follows a table, unless it is the empty solution. -/
def tableOperands (p : Plan) (vs : List Variable) (table : List Row) :
    List { q : Plan // q.rank < (values p vs table).rank } :=
  match p with
  | .identity => []
  | p => [⟨p, rank_lt_values p vs table⟩]

def tablePlan (p : Plan) (vs : List Variable) (table : List Row) :
    JoinPlan (values p vs table).rank where
  header := vs
  steps := JoinStep.ofOperands vs (tableOperands p vs table)

theorem evaluateValues_eq (m : Mode) (p : Plan) (vs : List Variable) (table : List Row)
    (run : Dispatcher (values p vs table)) :
    evaluateValues m (.values p vs table) run =
      Solutions.deliver m (values p vs table).vars false
        ⟨[], (tablePlan p vs table).events (fun q h => run q (.inl h)) vs (Event.ofRows table)⟩ := by
  cases p <;> rfl

theorem answers_values (hc : c.Reliable stored) {vs : List Variable} {table : List Row}
    (h : ∀ q : Plan, q.rank < (values p vs table).rank → Answers c q (answer q)) :
    Answers c (.values p vs table) (chained (tablePlan p vs table) answer vs table) := by
  apply answers_of_evaluate hc
  show (evaluateValues (c.config.mode .values) (.values p vs table) fun q _ => dispatch c q).Yields
    _ _
  rw [evaluateValues_eq]
  exact Solutions.yields_deliver _ _ _ ((tablePlan p vs table).deliver_events _ (fun q hq => h q hq)
    (Event.deliver_ofRows table))

/-- Induction over the plans that may be evaluated on the way. -/
@[elab_as_elim]
theorem inductBelow {motive : Plan → Prop}
    (step : ∀ p : Plan, (∀ q : Plan, q.Below p → motive q) → motive p) (p : Plan) : motive p :=
  step p fun q _ => inductBelow step q
termination_by (p.rank, sizeOf p)
decreasing_by
  rename_i h
  rcases h with h | ⟨h, h'⟩
  · exact .left _ _ h
  · rw [h]
    exact .right _ h'

theorem below_of_mem_children (h : q ∈ p.children) : q.Below p := by
  cases p with
  | triple t | identity => cases h
  | join ps | union ps => exact .inl (rank_lt_union h)
  | leftJoin l r condition | semijoin l r | antijoin l r | minus l r b =>
    rcases List.mem_pair.mp h with rfl | rfl <;> exact .inl (by simp only [rank]; omega)
  | filter p cs | project p vs =>
    obtain rfl := List.mem_singleton.mp h
    exact .inr (by simp [rank]; omega)
  | distinct p | weakDistinct p | limit p n | offset p n | slice p n count | values p vs table
  | assign p v e | ask p =>
    obtain rfl := List.mem_singleton.mp h
    exact .inl (by simp [rank])

/-- Every plan has rows. -/
theorem exists_answers (hc : c.Reliable stored) (p : Plan) : ∃ rows, Answers c p rows := by
  induction p using inductBelow with
  | _ p ih =>
    have hex : ∀ q : Plan, ∃ rows, q.Below p → Answers c q rows := fun q => by
      by_cases h : q.Below p
      · obtain ⟨rows, hr⟩ := ih q h
        exact ⟨rows, fun _ => hr⟩
      · exact ⟨[], fun h' => absurd h' h⟩
    choose answer h using hex
    have hlt (q : Plan) (hq : q.rank < p.rank) : Answers c q (answer q) := h q (.inl hq)
    have hown (q : Plan) (hq : q ∈ p.children) : Answers c q (answer q) :=
      h q (below_of_mem_children hq)
    cases p with
    | triple t => exact ⟨_, answers_triple hc t⟩
    | identity => exact ⟨_, answers_identity hc⟩
    | join ps => exact ⟨_, answers_join hc hlt⟩
    | leftJoin l r condition => exact ⟨_, answers_leftJoin hc hlt⟩
    | union ps => exact ⟨_, answers_union hc hown⟩
    | filter p cs => exact ⟨_, (hown p List.mem_cons_self).filter hc cs⟩
    | project p vs => exact ⟨_, (hown p List.mem_cons_self).project hc vs⟩
    | distinct p => exact ⟨_, (hown p List.mem_cons_self).distinct hc⟩
    | weakDistinct p => exact ⟨_, (hown p List.mem_cons_self).weakDistinct hc⟩
    | limit p n => exact ⟨_, (hown p List.mem_cons_self).limit hc n⟩
    | offset p n => exact ⟨_, (hown p List.mem_cons_self).offset hc n⟩
    | slice p n count => exact ⟨_, (hown p List.mem_cons_self).slice hc n count⟩
    | values p vs table => exact ⟨_, answers_values hc hlt⟩
    | assign p v e => exact ⟨_, (hown p List.mem_cons_self).assign hc v e⟩
    | semijoin p q =>
      exact ⟨_, (hown p List.mem_cons_self).semijoin hc
        fun q' hq => hlt q' (by simp only [rank]; omega)⟩
    | antijoin p q =>
      exact ⟨_, (hown p List.mem_cons_self).antijoin hc
        fun q' hq => hlt q' (by simp only [rank]; omega)⟩
    | minus l r b =>
      exact ⟨_, (hown l List.mem_cons_self).minus hc b
        fun q hq => hlt q (by simp only [rank]; omega)⟩
    | ask p => exact ⟨_, (hown p List.mem_cons_self).ask hc⟩

end Plan
end TripleAlgebra

import TripleAlgebra.Proofs.Chain
import TripleAlgebra.Proofs.Header
import TripleAlgebra.Proofs.PreparedExpression

/-! What the evaluators make of the rows of the operands, as long as the store answers. -/
namespace TripleAlgebra

/-- Every node has its own evaluator, and the store has an answer for every pattern. -/
structure Context.Reliable (c : Context) (stored : Pattern → List Row) : Prop where
  registry_eq : c.registry = .builtin
  lookup : ∀ t, ∃ s, c.store.lookup t = .ok s ∧ s.Yields t.vars (stored t)

theorem Registry.find?_builtin (k : NodeKind) (m : Mode) :
    builtin.find? k m = some (.builtin k.family m) := by
  cases k <;> cases m <;> rfl

theorem Registry.validate_builtin (c : Config) : builtin.validate c = .ok () := by
  have hnone : NodeKind.all.find? (fun k => (builtin.find? k (c.mode k)).isNone) = none := by
    rw [List.find?_eq_none]
    intro k _
    simp [find?_builtin]
  unfold validate
  rw [hnone]

namespace Plan
variable {c : Context} {stored : Pattern → List Row} {p q : Plan} {rows : List Row}

/-- The evaluation of the plan yields the rows, under the header of the plan. -/
def Answers (c : Context) (p : Plan) (rows : List Row) : Prop := (dispatch c p).Yields p.vars rows

theorem Answers.unique {rows' : List Row} (h : Answers c p rows) (h' : Answers c p rows') :
    rows = rows' := Attempt.Yields.unique h h'

/-- The rows of a plan, unless its evaluation fails. -/
def collect (c : Context) (p : Plan) : Except Problem (List Row) :=
  (p.execute c).outcome.bind fun s => s.gather.value

/-- With every evaluator in its place, a plan is dispatched. -/
theorem execute_eq (h : c.registry = .builtin) (p : Plan) : p.execute c = dispatch c p := by
  unfold execute
  rw [h, Registry.validate_builtin]

theorem Answers.collect_eq (hc : c.Reliable stored) (h : Answers c p rows) :
    p.collect c = .ok rows := by
  obtain ⟨s, hs, hy⟩ := h
  unfold collect
  rw [execute_eq hc.registry_eq, hs]
  exact hy.gather

theorem answers_of_evaluate (hc : c.Reliable stored)
    (h : (evaluate c (.builtin p.kind.family (c.config.mode p.kind)) p
      fun q _ => dispatch c q).Yields p.vars rows) : Answers c p rows := by
  unfold Answers
  rw [dispatch]
  rw [hc.registry_eq, Registry.find?_builtin]
  apply h.bind
  intro s hs
  unfold checkHeader
  rw [if_neg fun hne => hne.2 hs.header_eq]
  exact Attempt.yields_pure hs

theorem answers_triple (hc : c.Reliable stored) (t : Pattern) :
    Answers c (.triple t) (stored t) := by
  apply answers_of_evaluate hc
  obtain ⟨s, hs, hy⟩ := hc.lookup t
  have hlookup : (⟨[.lookup t], (c.store.lookup t).mapError .storage⟩ :
      Attempt Solutions).Yields t.vars (stored t) := ⟨s, by rw [hs]; rfl, hy⟩
  apply hlookup.bind
  intro s hs
  cases c.config.mode (kind (.triple t)) with
  | pull => exact Attempt.yields_pure hs
  | push => exact hs.header_eq ▸ Solutions.yields_deliver _ _ _ hs.deliver

theorem answers_identity (hc : c.Reliable stored) : Answers c .identity [[]] := by
  apply answers_of_evaluate hc
  generalize c.config.mode (kind .identity) = m
  cases m with
  | pull => exact Attempt.yields_pure (Solutions.yields_ofRows [] [[]])
  | push => exact Solutions.yields_deliver _ _ _ (Event.deliver_ofRows [[]])

theorem Answers.filter (hc : c.Reliable stored) (h : Answers c p rows) (cs : List Expression) :
    Answers c (.filter p cs)
      (rows.filter fun r => cs.all (Expression.holds (r.assignment p.vars))) := by
  apply answers_of_evaluate hc
  apply Attempt.Yields.bind h
  intro s hs
  unfold Solutions.filter
  rw [hs.header_eq]
  simp only [PreparedExpression.all_isTrue_ofHeader p.nodup_vars]
  exact Solutions.yields_deliver _ _ _ (hs.deliver.filterRows _)

theorem Answers.assign (hc : c.Reliable stored) (h : Answers c p rows) (v : Variable)
    (e : Expression) :
    Answers c (.assign p v e) (rows.map fun r =>
      r.withValue ((Variable.column? p.vars v).getD p.vars.length)
        (e.eval (r.assignment p.vars)).toOption) := by
  apply answers_of_evaluate hc
  apply Attempt.Yields.bind h
  intro s hs
  unfold Solutions.assign
  rw [hs.header_eq]
  simp only [PreparedExpression.evaluate_ofHeader p.nodup_vars]
  exact Solutions.yields_deliver _ _ _ (hs.deliver.mapRows _)

/-- Columns that are all in place are not selected again when rows are pulled. -/
theorem Answers.project (hc : c.Reliable stored) (h : Answers c p rows) (vs : List Variable) :
    let columns := Variable.columns p.vars (Plan.project p vs).vars
    Answers c (.project p vs)
      (if c.config.mode .project = .pull ∧ Variable.isIdentity columns p.vars.length then rows
      else rows.map (·.project columns)) := by
  intro columns
  apply answers_of_evaluate hc
  apply Attempt.Yields.bind h
  intro s hs
  have hproject : s.project (c.config.mode .project) (Plan.project p vs).vars =
      if c.config.mode .project = .pull ∧ Variable.isIdentity columns p.vars.length then pure s
      else Solutions.deliver (c.config.mode .project) (Plan.project p vs).vars s.isHot
        { s.run with events := Event.mapRows (·.project columns) s.run.events } := by
    rw [Solutions.project, hs.header_eq]
  show (s.project (c.config.mode .project) (Plan.project p vs).vars).Yields _ _
  rw [hproject]
  by_cases hi : c.config.mode .project = .pull ∧ Variable.isIdentity columns p.vars.length
  · have hvs : (Plan.project p vs).vars = p.vars := Variable.eq_of_isIdentity hi.2
    rw [if_pos hi, if_pos hi, hvs]
    exact Attempt.yields_pure hs
  · rw [if_neg hi, if_neg hi]
    exact Solutions.yields_deliver _ _ _ (hs.deliver.mapRows _)

theorem Answers.distinct (hc : c.Reliable stored) (h : Answers c p rows) :
    Answers c (.distinct p) ((RowSet.ofRule c.config.distinct).select rows) := by
  apply answers_of_evaluate hc
  exact Attempt.Yields.bind h fun s hs =>
    Solutions.yields_deliver _ _ _ (hs.deliver.distinct _)

theorem Answers.weakDistinct (hc : c.Reliable stored) (h : Answers c p rows) :
    Answers c (.weakDistinct p) ((RowSet.ofRule c.config.weakDistinct).select rows) := by
  apply answers_of_evaluate hc
  exact Attempt.Yields.bind h fun s hs =>
    Solutions.yields_deliver _ _ _ (hs.deliver.distinct _)

theorem Answers.limit (hc : c.Reliable stored) (h : Answers c p rows) (n : Nat) :
    Answers c (.limit p n) (Event.sliceRows 0 (some n) rows) := by
  apply answers_of_evaluate hc
  exact Attempt.Yields.bind h fun s hs =>
    Solutions.yields_deliver _ _ _ (hs.deliver.slice _ _).fuse

theorem Answers.offset (hc : c.Reliable stored) (h : Answers c p rows) (n : Nat) :
    Answers c (.offset p n) (Event.sliceRows n none rows) := by
  apply answers_of_evaluate hc
  exact Attempt.Yields.bind h fun s hs =>
    Solutions.yields_deliver _ _ _ (hs.deliver.slice _ _).fuse

theorem Answers.slice (hc : c.Reliable stored) (h : Answers c p rows) (n : Nat)
    (count : Option Nat) : Answers c (.slice p n count) (Event.sliceRows n count rows) := by
  apply answers_of_evaluate hc
  exact Attempt.Yields.bind h fun s hs =>
    Solutions.yields_deliver _ _ _ (hs.deliver.slice _ _).fuse

theorem Answers.ask (hc : c.Reliable stored) (h : Answers c p rows) :
    Answers c (.ask p) ((rows.take 1).map fun _ => .empty) := by
  apply answers_of_evaluate hc
  apply Attempt.Yields.bind h
  intro s hs
  have hitems := Event.deliver_iff.mp (hs.deliver.demand 1)
  have hanswer : Event.mapRows (fun _ => Row.empty)
      ((Event.items (Event.demand 1 s.run.events).1).map .item) =
      Event.ofRows ((rows.take 1).map fun _ => .empty) := by
    rw [hitems]
    cases rows <;> rfl
  unfold Solutions.test
  dsimp only
  rw [hanswer]
  have hrows := Event.deliver_ofRows ((rows.take 1).map fun _ => Row.empty)
  cases c.config.mode (kind (.ask p)) with
  | pull => exact Solutions.yields_deliver _ _ _ hrows
  | push => exact Solutions.yields_deliver _ _ _ ((Event.deliver_acts _).append hrows)

/-- The alternatives follow one another, each with its columns in the order of the header. -/
theorem answers_union (hc : c.Reliable stored) {ps : List Plan} {answer : Plan → List Row}
    (h : ∀ q ∈ ps, Answers c q (answer q)) :
    Answers c (.union ps) (ps.flatMap fun q =>
      let columns := Variable.columns q.vars (union ps).vars
      if Variable.isIdentity columns q.vars.length then answer q
      else (answer q).map (·.project columns)) := by
  apply answers_of_evaluate hc
  have halts : ∀ (qs : List Plan) (hq : ∀ q ∈ qs, q.rank < (union ps).rank),
      (∀ q ∈ qs, Answers c q (answer q)) →
      ∃ ss,
        (evaluateAlternatives (p := union ps) (fun q _ => dispatch c q) qs hq).outcome = .ok ss ∧
        List.Forall₂ (fun s q => s.Yields (Plan.vars q) (answer q)) ss qs := by
    intro qs
    induction qs with
    | nil => exact fun _ _ => ⟨[], rfl, .nil⟩
    | cons q qs ih =>
      intro hq hrows
      obtain ⟨s, hs, hy⟩ := hrows q (by simp)
      obtain ⟨ss, hss, hys⟩ := ih (fun r hr => hq r (by simp [hr]))
        fun r hr => hrows r (by simp [hr])
      refine ⟨s :: ss, ?_, .cons hy hys⟩
      rw [evaluateAlternatives, Attempt.outcome_bind hs, Attempt.outcome_bind hss]
      rfl
  obtain ⟨ss, hss, hys⟩ := halts ps (fun q hq => rank_lt_union hq) h
  have hdeliver (header : List Variable) {ss : List Solutions} {qs : List Plan}
      (hys : List.Forall₂ (fun s q => s.Yields (Plan.vars q) (answer q)) ss qs) :
      Event.Deliver (ss.flatMap (Solutions.aligned header)) (qs.flatMap fun q =>
        let columns := Variable.columns q.vars header
        if Variable.isIdentity columns q.vars.length then answer q
        else (answer q).map (·.project columns)) := by
    induction hys with
    | nil => exact .nil
    | @cons s q ss qs hy _ ih =>
      refine Event.Deliver.append ?_ ih
      unfold Solutions.aligned
      rw [hy.header_eq]
      dsimp only
      split
      · exact hy.deliver
      · exact hy.deliver.mapRows _
  obtain ⟨s, hs, hy⟩ := Solutions.yields_deliver (c.config.mode .union) (union ps).vars
    (ss.any Solutions.isHot) (r := ⟨ss.flatMap (·.run.opening), _⟩) (hdeliver (union ps).vars hys)
  exact ⟨s, (Attempt.outcome_bind hss).trans hs, hy⟩

end Plan
end TripleAlgebra

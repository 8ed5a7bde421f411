import TripleAlgebra.Proofs.Agreement
import TripleAlgebra.Proofs.Contents
import TripleAlgebra.Proofs.Difference
import TripleAlgebra.Proofs.Regular

/-! Differences that gather the rows of their right side once and look left rows up in a table. -/
namespace TripleAlgebra

namespace MinusPlan
variable {l r : Plan} {b : Bool} {right : List Row}

/-- The table of a difference removes the left rows that agree with a right row. -/
theorem removes_eq_isRemoved (l r : Plan) (b : Bool) (right : List Row) (row : Row) :
    let plan := ofSides l r b
    (MinusTable.ofKeys (right.map (·.project plan.rightKey))).removes (row.project plan.leftKey)
      (!plan.boundOverlap) = row.isRemoved b l.vars r.vars right :=
  Bool.eq_iff_iff.mpr ((Plan.removes_table_iff l r b right row).trans Row.isRemoved_iff.symm)

/-- A table that keeps complete keys apart removes what a comparison with each key removes. -/
theorem removes_eq_any (l r : Plan) (b : Bool) (right : List Row) (row : Row)
    (overlapRequired : Bool) :
    let plan := ofSides l r b
    let keys := right.map (·.project plan.rightKey)
    (MinusTable.ofKeys keys).removes (row.project plan.leftKey) overlapRequired =
      keys.any (compatible (row.project plan.leftKey) · overlapRequired) := by
  intro plan keys
  have hkeys : keys = (right.map (Row.assignment r.vars)).map fun ν => (Plan.shared l r).map ν :=
    Plan.map_rightKey l r b right
  rw [Bool.eq_iff_iff, hkeys, Plan.project_leftKey, MinusTable.removes_ofKeys, List.any_map,
    List.any_eq_true]
  rfl

/-- A difference delivers the left rows that the table keeps. If the right rows cannot be gathered,
there must be no left row. -/
theorem deliver_setEvents_iff {s : Solutions} {es : List Event} {rows : List Row}
    (plan : MinusPlan) : Event.Deliver (plan.setEvents s es) rows ↔
      match s.gather.value with
      | .error _ => Event.Deliver es [] ∧ rows = []
      | .ok found =>
        let table := MinusTable.ofKeys (found.map (·.project plan.rightKey))
        ∃ own, Event.Deliver es own ∧ rows =
          own.filter fun r => !table.removes (r.project plan.leftKey) (!plan.boundOverlap) := by
  unfold setEvents
  dsimp only
  rw [Event.deliver_fuse_iff]
  cases s.gather.value with
  | error e => rw [Event.deliver_expand_error_iff, Event.deliver_beforeFirstRow_iff]
  | ok found =>
    dsimp only
    refine (Event.deliver_expand_iff fun r => ?_).trans
      (exists_congr fun own => and_congr_left fun _ => Event.deliver_beforeFirstRow_iff)
    cases (MinusTable.ofKeys (found.map (·.project plan.rightKey))).removes
      (r.project plan.leftKey) (!plan.boundOverlap)
    · exact .row r .nil
    · exact .nil

end MinusPlan

namespace Plan
open Store

variable {c : Context} {l r : Plan} {b : Bool} {rows : List Row}

theorem outcome_minus_set_iff (hc : c.Regular) (hset : c.config.minus = .set) {u : Solutions} :
    (dispatch c (minus l r b)).outcome = .ok u ↔
      ∃ s, (dispatch c l).outcome = .ok s ∧ ∃ s', (dispatch c r).outcome = .ok s' ∧
        (Solutions.deliver (c.config.mode .minus) (minus l r b).vars s.isHot
          { s.run with events := (MinusPlan.ofSides l r b).setEvents s' s.run.events }).outcome =
            .ok u := by
  rw [outcome_dispatch hc]
  refine Attempt.outcome_bind_iff.trans (exists_congr fun s => and_congr_right fun _ => ?_)
  dsimp only
  rw [hset]
  exact Attempt.outcome_bind_iff

/-- The rows of a difference are what is delivered for the solutions of its sides. -/
theorem collect_minus_set_iff (hc : c.Regular) (hset : c.config.minus = .set) :
    (minus l r b).collect c = .ok rows ↔
      ∃ s s', (dispatch c l).outcome = .ok s ∧ (dispatch c r).outcome = .ok s' ∧
        Event.Deliver ((MinusPlan.ofSides l r b).setEvents s' s.run.events) rows := by
  rw [collect_eq_ok_iff hc]
  constructor
  · rintro ⟨u, hu, hrows⟩
    obtain ⟨s, hs, s', hs', hu⟩ := (outcome_minus_set_iff hc hset).mp hu
    obtain ⟨u', hu', -, hevents⟩ := Solutions.exists_deliver _ _ _ _
    cases hu.symm.trans hu'
    rw [hevents] at hrows
    exact ⟨s, s', hs, hs', hrows⟩
  · rintro ⟨s, s', hs, hs', hrows⟩
    obtain ⟨u, hu, -, hevents⟩ := Solutions.exists_deliver _ _ _ _
    refine ⟨u, (outcome_minus_set_iff hc hset).mpr ⟨s, hs, s', hs', hu⟩, ?_⟩
    rw [hevents]
    exact hrows

/-- A difference that gathers the right rows keeps the left rows, in their order, that agree with no
right row. It fails if a side does, unless the right rows fail to be gathered and there is no left
row for which they would be. Which right keys its table keeps apart does not matter. -/
theorem minus_set_rows (c : Context) (hc : c.Regular) (hset : c.config.minus = .set) (l r : Plan)
    (b : Bool) :
    (minus l r b).vars = l.vars ∧
    (∀ rows, (minus l r b).collect c = .ok rows → ∃ left, l.collect c = .ok left ∧
      (left = [] ∧ rows = [] ∨ ∃ right, r.collect c = .ok right ∧
        rows = left.filter fun row => !row.isRemoved b l.vars r.vars right)) ∧
    (∀ left right, l.collect c = .ok left → r.collect c = .ok right →
      (minus l r b).collect c =
        .ok (left.filter fun row => !row.isRemoved b l.vars r.vars right)) ∧
    ∀ (right : List Row) (row : Row) (overlapRequired : Bool),
      let plan := MinusPlan.ofSides l r b
      let keys := right.map (·.project plan.rightKey)
      (MinusTable.ofKeys keys).removes (row.project plan.leftKey) overlapRequired =
        keys.any (compatible (row.project plan.leftKey) · overlapRequired) := by
  refine ⟨rfl, fun rows h => ?_, fun left right hl hr => ?_, MinusPlan.removes_eq_any l r b⟩
  · obtain ⟨s, s', hs, hs', hrows⟩ := (collect_minus_set_iff hc hset).mp h
    have hgather {right : List Row} (hright : s'.gather.value = .ok right) :
        r.collect c = .ok right :=
      (collect_eq_ok_iff hc).mpr ⟨s', hs', (regular_dispatch hc r s' hs').gather_iff.mp hright⟩
    rw [MinusPlan.deliver_setEvents_iff] at hrows
    -- right rows that cannot be gathered only matter to the first left row
    cases hright : s'.gather.value with
    | error e =>
      rw [hright] at hrows
      exact ⟨[], (collect_eq_ok_iff hc).mpr ⟨s, hs, hrows.1⟩, .inl ⟨rfl, hrows.2⟩⟩
    | ok right =>
      rw [hright] at hrows
      obtain ⟨left, hleft, rfl⟩ := hrows
      refine ⟨left, (collect_eq_ok_iff hc).mpr ⟨s, hs, hleft⟩, .inr ⟨right, hgather hright, ?_⟩⟩
      refine List.filter_congr fun row _ => congrArg _ ?_
      exact MinusPlan.removes_eq_isRemoved l r b right row
  · obtain ⟨s, hs, hleft⟩ := (collect_eq_ok_iff hc).mp hl
    obtain ⟨s', hs', hright⟩ := (collect_eq_ok_iff hc).mp hr
    refine (collect_minus_set_iff hc hset).mpr ⟨s, s', hs, hs', ?_⟩
    rw [MinusPlan.deliver_setEvents_iff, (regular_dispatch hc r s' hs').gather_iff.mpr hright]
    refine ⟨left, hleft, List.filter_congr fun row _ => congrArg _ ?_⟩
    exact (MinusPlan.removes_eq_isRemoved l r b right row).symm

/-- Edges without those that start where some edge ends, as far as the first right row tells. -/
theorem minus_set_rows_edges :
    let l := edge (.var ⟨"x"⟩) (.var ⟨"y"⟩)
    let ends := union [edge (.var ⟨"z"⟩) (.var ⟨"x"⟩), edge (.var ⟨"y"⟩) (.var ⟨"w"⟩)]
    let r := slice ends 0 (some 1)
    (Contents.path.context {}).Regular ∧ (Contents.path.context {}).config.minus = .set ∧
    ∃ left right, l.collect (Contents.path.context {}) = .ok left ∧
      r.collect (Contents.path.context {}) = .ok right ∧
      (minus l r false).collect (Contents.path.context {}) =
        .ok (left.filter fun row => !row.isRemoved false l.vars r.vars right) := by
  intro l ends r
  have hc : (Contents.path.context {}).Regular := TripleStore.regular_ofMemory _ {}
  have hrows := collect_eq_rows (Contents.path.holds {}).toReliable
  obtain ⟨-, -, hkept, -⟩ := minus_set_rows _ hc rfl l r false
  exact ⟨hc, rfl, _, _, hrows l, hrows r, hkept _ _ (hrows l) (hrows r)⟩

end Plan
end TripleAlgebra

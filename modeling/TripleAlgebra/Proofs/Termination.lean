import TripleAlgebra.Proofs.Calls
import TripleAlgebra.Proofs.Contents

/-! Evaluation ends: a number bounds the depth of the recursion, and a chain runs out of frames.
Specialising may make a plan taller, but not without bound, and what is specialised has a lower rank
than the plan that it is evaluated for. -/
namespace TripleAlgebra

namespace JoinPlan
variable {limit : Nat} (p : JoinPlan limit)
  (run : (q : Plan) → q.rank < limit → Attempt Solutions)

/-- What so many steps of a chain make happen. A chain without frames rests. -/
def steppedBy : Nat → List Binding → List Frame → Advance
  | 0, bindings, frames => ⟨[], bindings, frames⟩
  | _ + 1, bindings, [] => ⟨[], bindings, []⟩
  | n + 1, bindings, f :: below =>
    let next := p.advance run bindings f below
    let last := steppedBy n next.bindings next.frames
    { last with emitted := next.emitted ++ last.emitted }

/-- After some number of steps no frame is left, and all events of the chain have happened. -/
theorem exists_steppedBy_eq_drain (bindings : List Binding) (frames : List Frame)
    (h : frames.length ≤ p.steps.length + 1) :
    ∃ n, (p.steppedBy run n bindings frames).frames = [] ∧
      (p.steppedBy run n bindings frames).emitted = p.drain run bindings frames h := by
  induction bindings, frames, h using JoinPlan.drain.induct p run with
  | case1 bindings h => exact ⟨0, rfl, by rw [drain]; rfl⟩
  | case2 bindings f below h' h next ih =>
    obtain ⟨n, hframes, hemitted⟩ := ih
    refine ⟨n + 1, hframes, ?_⟩
    rw [drain, ← hemitted]
    rfl

end JoinPlan

namespace Plan

mutual

/-- The length of the longest path in a plan. -/
def height : Plan → Nat
  | .triple _ | .identity => 1
  | .join ps | .union ps => 1 + heightEach ps
  | .leftJoin l r _ | .minus l r _ | .semijoin l r | .antijoin l r => 1 + max (height l) (height r)
  | .filter p _ | .project p _ | .distinct p | .weakDistinct p | .limit p _ | .offset p _
  | .slice p _ _ | .values p _ _ | .assign p _ _ | .ask p => 1 + height p

def heightEach : List Plan → Nat
  | [] => 0
  | p :: ps => max (height p) (heightEach ps)

end

variable {c : Context} {p q : Plan} {s : Substitution} {n : Nat}

theorem heightEach_le {ps : List Plan} : heightEach ps ≤ n ↔ ∀ q ∈ ps, q.height ≤ n := by
  induction ps with
  | nil => simp [heightEach]
  | cons p ps ih => simp [heightEach, ih]

/-- The height is one more than that of the tallest child. -/
theorem height_le : p.height ≤ n + 1 ↔ ∀ q ∈ p.children, q.height ≤ n := by
  cases p with
  | triple t | identity => simp [height, children]
  | join ps | union ps =>
    rw [height, Nat.add_comm, Nat.add_le_add_iff_right, heightEach_le]
    rfl
  | leftJoin l r _ | minus l r _ | semijoin l r | antijoin l r =>
    simp only [height, children, List.forall_mem_cons, List.not_mem_nil, false_imp_iff,
      implies_true, and_true]
    omega
  | filter p cs | project p vs | distinct p | weakDistinct p | limit p n | offset p n
  | slice p n count | values p vs table | assign p v e | ask p =>
    simp only [height, children, List.forall_mem_singleton]
    omega

theorem height_pos (p : Plan) : 0 < p.height := by
  cases p <;> simp only [height] <;> omega

theorem height_lt (h : q ∈ p.children) : q.height < p.height := by
  obtain ⟨n, hn⟩ := Nat.exists_eq_add_of_lt p.height_pos
  have hn : p.height = n + 1 := by omega
  have := height_le.mp (Nat.le_of_eq hn) q h
  omega

/-- Specialising adds at most two nodes above each node. -/
theorem height_substitute_le (p : Plan) (s : Substitution) :
    (substitute s p).height ≤ 4 * p.height := by
  induction p using inductChildren generalizing s with
  | _ p ih =>
    have hpos := p.height_pos
    have hpushed (s' : Substitution) : (p.pushed s s').height ≤ 4 * p.height - 2 := by
      have hn : 4 * p.height - 2 = (4 * p.height - 3) + 1 := by omega
      rw [hn, height_le]
      intro q' hq'
      rcases mem_children_pushed hq' with rfl | ⟨q, hq, s'', rfl⟩
      · simp only [height]
        omega
      · have hq' := ih q hq s''
        have hlt := height_lt hq
        omega
    have hearly := hpushed (p.early s)
    rw [substitute_eq]
    split
    · omega
    · simp only [checkAfter, height]
      omega

theorem height_conditioned_le (p : Plan) (condition : Option Expression) :
    (p.conditioned condition).height ≤ p.height + 1 := by
  cases condition with
  | none => exact Nat.le_succ _
  | some e => simp only [conditioned, height]; omega

theorem rank_conditioned (p : Plan) (condition : Option Expression) :
    (p.conditioned condition).rank = p.rank := by
  cases condition <;> rfl

/-- A bound for the depth of the evaluation. -/
def depth (p : Plan) : Nat := p.height * 5 ^ p.rank

theorem depth_pos (p : Plan) : 0 < p.depth :=
  Nat.mul_pos p.height_pos (Nat.pow_pos (by decide))

theorem rank_le_of_mem_children (h : q ∈ p.children) : q.rank ≤ p.rank := by
  rcases below_of_mem_children h with h | ⟨h, -⟩
  · exact Nat.le_of_lt h
  · exact Nat.le_of_eq h

/-- The plans that are evaluated for a plan have a lower bound. -/
theorem Called.depth_lt (h : p.Called q) : q.depth < p.depth := by
  cases h with
  | child hq =>
    calc q.height * 5 ^ q.rank
      _ ≤ q.height * 5 ^ p.rank :=
        Nat.mul_le_mul_left _ (Nat.pow_le_pow_right (by decide) (rank_le_of_mem_children hq))
      _ < p.height * 5 ^ p.rank :=
        Nat.mul_lt_mul_of_pos_right (height_lt hq) (Nat.pow_pos (by decide))
  | @specialised q hq hr s condition =>
    have hheight : (substitute s (q.conditioned condition)).height ≤ 4 * p.height :=
      (height_substitute_le _ s).trans (Nat.mul_le_mul_left 4
        ((height_conditioned_le q condition).trans (height_lt hq)))
    have hrank : (substitute s (q.conditioned condition)).rank ≤ q.rank :=
      (rank_substitute_le _ s).trans (Nat.le_of_eq (rank_conditioned q condition))
    have hpos := p.height_pos
    calc _ ≤ 4 * p.height * 5 ^ q.rank :=
          Nat.mul_le_mul hheight (Nat.pow_le_pow_right (by decide) hrank)
      _ < 5 * p.height * 5 ^ q.rank :=
          Nat.mul_lt_mul_of_pos_right (by omega) (Nat.pow_pos (by decide))
      _ = p.height * 5 ^ (q.rank + 1) := by
          rw [Nat.pow_succ, Nat.mul_comm 5, Nat.mul_assoc, Nat.mul_comm 5]
      _ ≤ p.height * 5 ^ p.rank :=
          Nat.mul_le_mul_left _ (Nat.pow_le_pow_right (by decide) hr)
  | nothing hr =>
    calc identity.depth
      _ < 5 ^ 1 := by decide
      _ ≤ 5 ^ p.rank := Nat.pow_le_pow_right (by decide) hr
      _ ≤ p.height * 5 ^ p.rank := Nat.le_mul_of_pos_left _ p.height_pos

/-- Evaluates a plan with plans nested in it up to some depth. Those beyond are taken from
elsewhere. -/
def dispatchWithin (c : Context) (beyond : Plan → Attempt Solutions) :
    Nat → Plan → Attempt Solutions
  | 0, p => beyond p
  | n + 1, p =>
    match c.registry.find? p.kind (c.config.mode p.kind) with
    | none => .fail (.internal (.noEvaluator ⟨p.kind, c.config.mode p.kind⟩))
    | some e => do checkHeader c p (← evaluate c e p fun q _ => dispatchWithin c beyond n q)

/-- Nothing that lies deeper than the bound of a plan is evaluated for it. -/
theorem dispatchWithin_eq (hc : c.registry = .builtin) (beyond : Plan → Attempt Solutions)
    (h : p.depth ≤ n) : p.dispatchWithin c beyond n = dispatch c p := by
  induction n generalizing p with
  | zero => exact absurd h (Nat.not_le_of_gt p.depth_pos)
  | succ n ih =>
    rw [dispatchWithin, dispatch, hc]
    simp only [Registry.find?_builtin]
    rw [evaluate_congr (fun q _ hq => ih (Nat.le_of_lt_succ (hq.depth_lt.trans_le h)))]

/-- With every evaluator in its place, a plan is evaluated within its depth. -/
theorem execute_eq_dispatchWithin (hc : c.registry = .builtin) (beyond : Plan → Attempt Solutions)
    (p : Plan) : p.execute c = p.dispatchWithin c beyond p.depth := by
  rw [execute_eq hc, dispatchWithin_eq hc beyond (Nat.le_refl _)]

/-- Over the contents of a store every plan is evaluated to the end: its solutions are consumed
after finitely many rows, no plan is evaluated for it that is nested deeper than a bound, and
whatever the operands of a join result in, its chain is left without frames after finitely many
steps. -/
theorem evaluation_ends (s : Store.Contents) (config : Config) (p : Plan) :
    (∃ (sols : Solutions) (rows : List Row), (p.execute (s.context config)).outcome = .ok sols ∧
      (sols.take none).value = rows.map .ok) ∧
    (∀ beyond, p.dispatchWithin (s.context config) beyond p.depth = p.execute (s.context config)) ∧
    ∀ (limit : Nat) (plan : JoinPlan limit) (run : (q : Plan) → q.rank < limit → Attempt Solutions)
      (header : List Variable) (es : List Event), ∃ n,
      let last := plan.steppedBy run n (plan.steps.map JoinStep.binding)
        [⟨[], .ofHead plan.header header, es, false⟩]
      last.frames = [] ∧ last.emitted = plan.events run header es := by
  have hc := s.holds config
  refine ⟨?_, fun beyond => ?_, fun limit plan run header es => ?_⟩
  · obtain ⟨sols, ho, hy⟩ := answers_rows hc.toReliable p
    refine ⟨sols, p.rows (s.context config), (congrArg _ (execute_eq rfl p)).trans ho, ?_⟩
    rw [Solutions.take_none hy.memo_eq, Event.deliver_iff.mp hy.deliver]
  · exact (execute_eq_dispatchWithin rfl beyond p).symm
  · exact plan.exists_steppedBy_eq_drain run _ _ _

end Plan
end TripleAlgebra

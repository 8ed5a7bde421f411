import TripleAlgebra.Proofs.Adequacy
import TripleAlgebra.Proofs.Contents
import Mathlib.Data.List.Sections

/-! The rows of a join as merges of rows of its operands. -/
namespace TripleAlgebra
open Assignment Store Classical

namespace Assignment
variable {μ : Assignment} {choice : List Assignment}

/-- What several assignments bind together. -/
def mergeAll (choice : List Assignment) : Assignment := choice.foldr merge empty

/-- An assignment agrees with the merge of assignments that agree pairwise exactly if it agrees with
each of them. -/
theorem compatible_mergeAll (h : choice.Pairwise Compatible) :
    Compatible μ (mergeAll choice) ↔ ∀ ν ∈ choice, Compatible μ ν := by
  induction choice generalizing μ with
  | nil => simp [mergeAll, Compatible, empty]
  | cons ν choice ih =>
    obtain ⟨hν, hchoice⟩ := List.pairwise_cons.mp h
    have hmerge : Compatible ν (mergeAll choice) := (ih hchoice).mpr hν
    rw [List.forall_mem_cons, ← ih hchoice, compatible_comm]
    exact hmerge.merge_iff.trans (and_congr compatible_comm compatible_comm)

end Assignment

namespace Bag

/-- The merges of one solution from each list, as far as these agree pairwise. -/
noncomputable def merges (own : List (List Assignment)) : Bag :=
  ((own.sections.filter fun choice => choice.Pairwise Compatible).map mergeAll : List Assignment)

/-- The merge of a choice of solutions that agree pairwise. -/
noncomputable def mergeOne (choice : List Assignment) : Bag :=
  if choice.Pairwise Compatible then {mergeAll choice} else 0

theorem merges_eq_bind (own : List (List Assignment)) :
    merges own = (own.sections : Multiset (List Assignment)).bind mergeOne := by
  unfold merges
  rw [← Multiset.map_coe, ← Multiset.filter_coe, Multiset.filter_eq_bind, Multiset.map_bind]
  apply Multiset.bind_congr
  intro choice _
  unfold mergeOne
  split <;> simp

theorem mergeOne_cons (μ : Assignment) (choice : List Assignment) :
    mergeOne (μ :: choice) = (mergeOne choice).bind (pair μ) := by
  unfold mergeOne
  by_cases h : choice.Pairwise Compatible
  · have hiff : (μ :: choice).Pairwise Compatible ↔ Compatible μ (mergeAll choice) := by
      rw [List.pairwise_cons, compatible_mergeAll h]
      exact and_iff_left h
    rw [if_pos h, Multiset.singleton_bind, pair]
    exact if_congr hiff rfl rfl
  · rw [if_neg h, if_neg fun hc => h (List.pairwise_cons.mp hc).2, Multiset.zero_bind]

theorem merges_cons (S : List Assignment) (own : List (List Assignment)) :
    merges (S :: own) = join S (merges own) := by
  have hswap : merges (S :: own) = (own.sections : Multiset (List Assignment)).bind fun choice =>
      (S : Bag).bind fun μ => mergeOne (μ :: choice) := by
    rw [merges_eq_bind, List.sections, ← Multiset.coe_bind, Multiset.bind_assoc]
    apply Multiset.bind_congr
    intro choice _
    rw [← Multiset.map_coe, Multiset.bind_map]
  rw [hswap, Multiset.bind_bind, join]
  apply Multiset.bind_congr
  intro μ _
  rw [merges_eq_bind, Multiset.bind_assoc]
  exact Multiset.bind_congr fun choice _ => mergeOne_cons μ choice

/-- The join of several lists of solutions consists of the merges of one solution from each. -/
theorem joinAll_eq_merges (own : List (List Assignment)) :
    joinAll (own.map Multiset.ofList) = merges own := by
  induction own with
  | nil =>
    rw [merges_eq_bind]
    simp [joinAll, List.sections, mergeOne, mergeAll]
  | cons S own ih =>
    rw [merges_cons, ← ih, List.map_cons, joinAll, List.foldl_cons, identity_join, foldl_join]

end Bag

namespace Plan

/-- A join has the merges of one row of each operand that agree pairwise, in whatever order the
operands are listed or evaluated. A table joins its rows with those of the inner plan. -/
theorem join_merges_rows (s : Contents) (config : Config) :
    (∀ ps : List Plan, (∀ p ∈ ps, p.BindSafe config.distinct) →
      ∃ own, List.Forall₂ (fun p rows => p.collect (s.context config) = .ok rows) ps own ∧
        ∀ qs, qs.Perm ps → ∃ rows, (join qs).collect (s.context config) = .ok rows ∧
          (rows.map (Row.assignment (join qs).vars) : Bag) =
            Bag.merges (List.zipWith (fun p rows => rows.map (Row.assignment p.vars)) ps own)) ∧
    ∀ (inner : Plan) (vs : List Variable) (table : List Row), inner.BindSafe config.distinct →
      vs.Nodup → ∃ own rows, inner.collect (s.context config) = .ok own ∧
        (values inner vs table).collect (s.context config) = .ok rows ∧
        (rows.map (Row.assignment (values inner vs table).vars) : Bag) =
          Bag.merges [table.map (Row.assignment vs), own.map (Row.assignment inner.vars)] := by
  have hc := s.holds config
  have hrows := collect_eq_rows hc.toReliable
  have hmeaning {p : Plan} (h : p.BindSafe config.distinct) :
      p.solutions (s.context config) = p.meaning s.triples :=
    solutions_eq_meaning hc (h.safe (E := fun _ => False))
  constructor
  · intro ps hps
    refine ⟨ps.map (rows (s.context config)), ?_, fun qs hqs => ⟨_, hrows _, ?_⟩⟩
    · rw [List.forall₂_map_right_iff, List.forall₂_same]
      exact fun p _ => hrows p
    · have hjoin : (join qs).BindSafe config.distinct :=
        .join fun q hq => hps q (hqs.mem_iff.mp hq)
      have hown : ps.map (meaning s.triples) =
          (List.zipWith (fun p rows => rows.map (Row.assignment p.vars)) ps
            (ps.map (rows (s.context config)))).map Multiset.ofList := by
        rw [List.zipWith_map_right, List.zipWith_self, List.map_map]
        exact List.map_congr_left fun p hp => (hmeaning (hps p hp)).symm
      apply (hmeaning hjoin).trans
      rw [meaning_join, Bag.joinAll_perm (hqs.map (meaning s.triples)), hown,
        Bag.joinAll_eq_merges]
  · intro inner vs table hinner hvs
    refine ⟨_, _, hrows inner, hrows _, (hmeaning (.values table hinner hvs)).trans ?_⟩
    rw [meaning, ← hmeaning hinner, Bag.merges_cons, Bag.merges_cons]
    have hnil : Bag.merges [] = {Assignment.empty} := by
      simp [Bag.merges, List.sections, mergeAll]
    rw [hnil, Bag.join_identity]
    rfl

/-- A join of two edges, listed in either order, and of a table with an edge. -/
theorem join_merges_edges :
    let ps := [edge (.var ⟨"x"⟩) (.var ⟨"y"⟩), edge (.var ⟨"y"⟩) (.var ⟨"z"⟩)]
    (∀ p ∈ ps, p.BindSafe .all) ∧ [(⟨"x"⟩ : Variable)].Nodup ∧ ps.reverse.Perm ps ∧
    (∃ own rows,
      List.Forall₂ (fun p rows => p.collect (Contents.path.context {}) = .ok rows) ps own ∧
      (join ps.reverse).collect (Contents.path.context {}) = .ok rows ∧
      (rows.map (Row.assignment (join ps.reverse).vars) : Bag) =
        Bag.merges (List.zipWith (fun p rows => rows.map (Row.assignment p.vars)) ps own)) ∧
    ∃ own rows, (edge (.var ⟨"x"⟩) (.var ⟨"y"⟩)).collect (Contents.path.context {}) = .ok own ∧
      (values (edge (.var ⟨"x"⟩) (.var ⟨"y"⟩)) [⟨"x"⟩] [[some (.iri "a")], [none]]).collect
        (Contents.path.context {}) = .ok rows ∧
      (rows.map (Row.assignment
        (values (edge (.var ⟨"x"⟩) (.var ⟨"y"⟩)) [⟨"x"⟩] [[some (.iri "a")], [none]]).vars) : Bag) =
        Bag.merges [[[some (.iri "a")], [none]].map (Row.assignment [⟨"x"⟩]),
          own.map (Row.assignment (edge (.var ⟨"x"⟩) (.var ⟨"y"⟩)).vars)] := by
  intro ps
  have hsafe : ∀ p ∈ ps, p.BindSafe .all := by
    intro p hp
    rcases List.mem_pair.mp hp with rfl | rfl
    · exact .triple _
    · exact .triple _
  have hnodup : [(⟨"x"⟩ : Variable)].Nodup := by simp
  have hperm : ps.reverse.Perm ps := List.reverse_perm ps
  obtain ⟨own, hown, hjoin⟩ := (join_merges_rows Contents.path {}).1 ps hsafe
  obtain ⟨rows, hrows, hmerges⟩ := hjoin ps.reverse hperm
  exact ⟨hsafe, hnodup, hperm, ⟨own, rows, hown, hrows, hmerges⟩,
    (join_merges_rows Contents.path {}).2 _ _ _ (.triple _) hnodup⟩

end Plan
end TripleAlgebra

import TripleAlgebra.Evaluation.Dispatch
import TripleAlgebra.Proofs.Header
import Mathlib.Data.List.Perm.Basic

/-! Reordering keeps the operands of a join, and the projection that follows it restores the
declared columns. -/
namespace TripleAlgebra

namespace Reordering
variable {α : Type}

theorem exchange_perm {test : α → Bool} {a c : α} {bs cs : List α}
    (h : exchange test a bs = some (c, cs)) : (c :: cs).Perm (a :: bs) := by
  induction bs generalizing c cs with
  | nil => simp [exchange] at h
  | cons b bs ih =>
    rw [exchange] at h
    split at h
    · obtain ⟨rfl, rfl⟩ := Prod.mk.inj (Option.some.inj h)
      exact .swap ..
    · obtain ⟨⟨d, ds⟩, hd, he⟩ := Option.map_eq_some_iff.mp h
      obtain ⟨rfl, rfl⟩ := Prod.mk.inj he
      calc d :: b :: ds
        _ |>.Perm (b :: d :: ds) := .swap ..
        _ |>.Perm (b :: a :: bs) := (ih hd).cons b
        _ |>.Perm (a :: b :: bs) := .swap ..

theorem connect_perm (header : α → List Variable) (placed : List Variable) (as : List α) :
    (connect header placed as).Perm as := by
  induction hn : as.length using Nat.strongRecOn generalizing placed as with
  | ind n ih =>
    cases as with
    | nil => rw [connect]
    | cons a as =>
      rw [List.length_cons] at hn
      rw [connect]
      split
      · rename_i b bs h
        have hex : exchange (connected header placed) a as = some (b, bs) := by
          split at h
          · cases h
          · exact h
        have hlt := length_exchange hex
        exact ((ih bs.length (by omega) _ bs rfl).cons b).trans (exchange_perm hex)
      · exact (ih as.length (by omega) _ as rfl).cons a

theorem arrange_perm (weight : Plan → Nat) (ps : List Plan) :
    (arrange weight ps).Perm ps.zipIdx := by
  unfold arrange
  have hsort := List.mergeSort_perm ps.zipIdx fun a b => decide (weight a.1 ≤ weight b.1)
  split
  · rename_i h
    rwa [h] at hsort
  · rename_i a as h
    rw [h] at hsort
    exact ((connect_perm _ _ as).cons a).trans hsort

/-- The positions of the operands in the order of their evaluation. -/
def order (weight : Plan → Nat) (ps : List Plan) : List Nat := (arrange weight ps).map (·.2)

theorem order_perm (weight : Plan → Nat) (ps : List Plan) :
    (order weight ps).Perm (List.range ps.length) := by
  have hperm := (arrange_perm weight ps).map (·.2)
  rwa [List.zipIdx_map_snd, ← List.range_eq_range'] at hperm

/-- The operands in the order of their evaluation. -/
def operands (weight : Plan → Nat) (ps : List Plan) : List Plan := (arrange weight ps).map (·.1)

/-- The columns of the rows that this order produces. -/
def produced (weight : Plan → Nat) (ps : List Plan) : List Variable :=
  Variable.union ((operands weight ps).map Plan.vars)

theorem operands_perm (weight : Plan → Nat) (ps : List Plan) : (operands weight ps).Perm ps := by
  have hperm := (arrange_perm weight ps).map (·.1)
  rwa [List.zipIdx_map_fst] at hperm

theorem filterMap_order (weight : Plan → Nat) (ps : List Plan) :
    ((order weight ps).filterMap fun i => ps[i]?) = operands weight ps := by
  rw [order, List.filterMap_map, operands, ← List.filterMap_eq_map]
  apply List.filterMap_congr
  intro e he
  exact List.mem_zipIdx_iff_getElem?.mp ((arrange_perm weight ps).mem_iff.mp he)

end Reordering

namespace Plan
open Reordering
variable {c : Context} {ps : List Plan}

/-- All operands are evaluated, and the projection finds the declared columns. -/
structure ArrangementOf (ps : List Plan) (operands : List Plan) (projection : Option (List Nat)) :
    Prop where
  perm : operands.Perm ps
  columns : match projection with
    | none => Variable.union (operands.map vars) = (join ps).vars
    | some columns =>
      Variable.columns (Variable.union (operands.map vars)) (join ps).vars = columns.map some

theorem arrangementOf_self (ps : List Plan) : ArrangementOf ps ps none :=
  ⟨.refl _, (vars_join ps).symm⟩

theorem mapM_column? {vs ws : List Variable} (h : ws ⊆ vs) :
    ∃ columns, ws.mapM (Variable.column? vs) = some columns ∧
      Variable.columns vs ws = columns.map some := by
  induction ws with
  | nil => exact ⟨[], rfl, rfl⟩
  | cons w ws ih =>
    obtain ⟨hw, hws⟩ := List.cons_subset.mp h
    obtain ⟨i, hi⟩ := Option.isSome_iff_exists.mp (Variable.column?_isSome.mpr hw)
    obtain ⟨is, his, hcolumns⟩ := ih hws
    refine ⟨i :: is, by rw [List.mapM_cons, hi, his]; rfl, ?_⟩
    rw [Variable.columns, List.map_cons, hi, List.map_cons, ← hcolumns]
    rfl

theorem vars_join_perm {qs : List Plan} (h : qs.Perm ps) :
    (Variable.union (qs.map vars)).Perm (join ps).vars := by
  rw [List.perm_ext_iff_of_nodup (Variable.nodup_union _) (nodup_vars _)]
  intro v
  rw [vars_join, Variable.mem_union, Variable.mem_union]
  exact ⟨fun ⟨l, hl, hv⟩ => ⟨l, ((h.map vars).mem_iff).mp hl, hv⟩,
    fun ⟨l, hl, hv⟩ => ⟨l, ((h.map vars).mem_iff).mpr hl, hv⟩⟩

/-- The columns are in place exactly if the headers are the same. -/
theorem columns_eq_range_iff {vs ws : List Variable} (hn : vs.Nodup) (hlen : ws.length = vs.length)
    {columns : List Nat} (h : Variable.columns vs ws = columns.map some) :
    columns = List.range columns.length ↔ vs = ws := by
  have hcolumns : columns.length = vs.length := by
    simpa [Variable.columns, hlen] using (congrArg List.length h).symm
  constructor
  · intro hrange
    refine (Variable.eq_of_isIdentity ?_).symm
    rw [Variable.isIdentity, h, ← hcolumns, ← hrange]
    exact decide_eq_true rfl
  · rintro rfl
    have hid := Variable.isIdentity_self hn
    rw [Variable.isIdentity, h, ← hcolumns, decide_eq_true_iff] at hid
    exact (List.map_inj_right fun _ _ => Option.some.inj).mp hid

/-- A join of several operands is reordered unless they stand in the order of their evaluation. The
projection leads from the columns that this order produces to the declared ones. -/
theorem reorder?_join (weight : Plan → Nat) (h : 2 ≤ ps.length) :
    ∃ columns, Variable.columns (produced weight ps) (join ps).vars = columns.map some ∧
      reorder? weight (join ps) =
        if order weight ps = List.range ps.length then none
        else some ⟨order weight ps,
          if produced weight ps = (join ps).vars then none else some columns⟩ := by
  have hperm : (produced weight ps).Perm (join ps).vars := vars_join_perm (operands_perm weight ps)
  obtain ⟨columns, hmap, hcolumns⟩ := mapM_column? hperm.symm.subset
  refine ⟨columns, hcolumns, ?_⟩
  have hlength : (order weight ps).length = ps.length := by
    simpa using (order_perm weight ps).length_eq
  have hproduced : Variable.union ((arrange weight ps).map (·.1.vars)) = produced weight ps := by
    simp only [produced, operands, List.map_map]
    rfl
  have hrange : columns = List.range columns.length ↔ produced weight ps = (join ps).vars :=
    columns_eq_range_iff (Variable.nodup_union _) hperm.length_eq.symm hcolumns
  obtain ⟨a, b, qs, rfl⟩ : ∃ a b qs, ps = a :: b :: qs := by
    match ps, h with
    | a :: b :: qs, _ => exact ⟨a, b, qs, rfl⟩
  rw [reorder?, ← order, hlength]
  simp only [hproduced, hmap, Option.map_some, hrange]

theorem reorder?_eq_none {weight : Plan → Nat} :
    reorder? weight (join ps) = none ↔ ps.length < 2 ∨ order weight ps = List.range ps.length := by
  match ps with
  | [] | [_] => simp [reorder?]
  | a :: b :: qs =>
    have hlength : 2 ≤ (a :: b :: qs).length := by simp
    obtain ⟨columns, -, heq⟩ := reorder?_join weight hlength
    rw [heq, or_iff_right (Nat.not_lt.mpr hlength)]
    simp

theorem reorder?_eq_some {weight : Plan → Nat} {r : Reordering}
    (h : reorder? weight (join ps) = some r) :
    r.permutation = order weight ps ∧
      ∃ columns, Variable.columns (produced weight ps) (join ps).vars = columns.map some ∧
        r.projection = if produced weight ps = (join ps).vars then none else some columns := by
  have hlength : 2 ≤ ps.length := by
    by_contra hlt
    rw [reorder?_eq_none.mpr (.inl (Nat.not_le.mp hlt))] at h
    cases h
  obtain ⟨columns, hcolumns, heq⟩ := reorder?_join weight hlength
  rw [heq, Option.ite_none_left_eq_some] at h
  obtain rfl := Option.some.inj h.2
  exact ⟨rfl, columns, hcolumns, rfl⟩

theorem arrangementOf_reorder {weight : Plan → Nat} {r : Reordering}
    (h : reorder? weight (.join ps) = some r) :
    ArrangementOf ps (r.permutation.filterMap fun i => ps[i]?) r.projection := by
  obtain ⟨hpermutation, columns, hcolumns, hprojection⟩ := reorder?_eq_some h
  rw [hpermutation, filterMap_order]
  refine ⟨operands_perm weight ps, ?_⟩
  rw [hprojection]
  by_cases hsame : produced weight ps = (join ps).vars
  · rw [if_pos hsame]
    exact hsame
  · rw [if_neg hsame]
    exact hcolumns

theorem arrangementOf_arranged (c : Context) (ps : List Plan) :
    ArrangementOf ps ((arranged c ps).1.map (·.1)) (arranged c ps).2 := by
  unfold arranged
  split
  · simpa using arrangementOf_self ps
  · rename_i r h
    obtain ⟨w, _, hr⟩ := Option.bind_eq_some_iff.mp h
    have hattach : (r.permutation.filterMap fun i => ps.attach[i]?).map (·.1) =
        r.permutation.filterMap fun i => ps[i]? := by
      rw [List.map_filterMap]
      congr 1
      funext i
      have hmap : (ps.attach.map (·.1))[i]? = ps[i]? := by rw [List.attach_map_subtype_val]
      rwa [List.getElem?_map] at hmap
    rw [hattach]
    exact arrangementOf_reorder hr

end Plan
end TripleAlgebra

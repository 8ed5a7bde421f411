import Mathlib.Combinatorics.SimpleGraph.Connectivity.Connected
import Mathlib.Data.List.Permutation
import Mathlib.Data.Set.List
import Mathlib.Tactic.FinCases
import TripleAlgebra.Proofs.Arrange

/-! Joins without Cartesian products: an operand that shares no variable with those before it comes
after all operands that do. -/
namespace TripleAlgebra

namespace Reordering
variable {α : Type}

theorem exchange_eq_none {test : α → Bool} {a : α} {bs : List α} (h : exchange test a bs = none) :
    ∀ b ∈ bs, test b = false := by
  induction bs with
  | nil => exact fun b hb => absurd hb List.not_mem_nil
  | cons b bs ih =>
    rw [exchange] at h
    split at h
    · cases h
    · rename_i hb
      intro c hc
      rcases List.mem_cons.mp hc with rfl | hc
      · exact Bool.eq_false_iff.mpr hb
      · exact ih (Option.map_eq_none_iff.mp h) c hc

theorem test_of_exchange {test : α → Bool} {a c : α} {bs cs : List α}
    (h : exchange test a bs = some (c, cs)) : test c = true := by
  induction bs generalizing c cs with
  | nil => cases h
  | cons b bs ih =>
    rw [exchange] at h
    split at h
    · rename_i hb
      obtain ⟨rfl, -⟩ := Prod.mk.inj (Option.some.inj h)
      exact hb
    · obtain ⟨⟨d, ds⟩, hd, he⟩ := Option.map_eq_some_iff.mp h
      obtain ⟨rfl, -⟩ := Prod.mk.inj he
      exact ih hd

/-- Each element that is connected to none of those before it is followed by none that is. -/
def ConnectedFirst (header : α → List Variable) : List Variable → List α → Prop
  | _, [] => True
  | placed, a :: as =>
    (connected header placed a = false → ∀ b ∈ as, connected header placed b = false) ∧
      ConnectedFirst header (Variable.append placed (header a)) as

/-- What comes later may change places again, but it stays behind. -/
theorem connectedFirst_connect (header : α → List Variable) (placed : List Variable)
    (as : List α) : ConnectedFirst header placed (connect header placed as) := by
  induction hn : as.length using Nat.strongRecOn generalizing placed as with
  | ind n ih =>
    cases as with
    | nil =>
      rw [connect]
      trivial
    | cons a as =>
      rw [List.length_cons] at hn
      rw [connect]
      split
      · rename_i b bs h
        have hex : exchange (connected header placed) a as = some (b, bs) := by
          split at h
          · cases h
          · exact h
        have hlt := length_exchange hex
        constructor
        · intro hb
          rw [test_of_exchange hex] at hb
          cases hb
        · exact ih bs.length (by omega) _ bs rfl
      · rename_i h
        constructor
        · intro ha b hb
          rw [if_neg (by simp [ha])] at h
          exact exchange_eq_none h b ((connect_perm header _ as).mem_iff.mp hb)
        · exact ih as.length (by omega) _ as rfl

theorem connected_eq_false {header : α → List Variable} {placed : List Variable} {a : α} :
    connected header placed a = false ↔ ∀ v ∈ header a, v ∉ placed := by
  simp [connected]

/-- The variables before an element are those that were there already and those of the elements. -/
theorem ConnectedFirst.split {header : α → List Variable} {placed : List Variable}
    {before after : List α} {a : α}
    (h : ConnectedFirst header placed (before ++ a :: after))
    (ha : ∀ v ∈ header a, v ∉ placed ∧ ∀ b ∈ before, v ∉ header b) :
    ∀ c ∈ after, ∀ v ∈ header c, v ∉ placed ∧ ∀ b ∈ before, v ∉ header b := by
  induction before generalizing placed with
  | nil =>
    intro c hc v hv
    have hnone := h.1 (connected_eq_false.mpr fun w hw => (ha w hw).1) c hc
    exact ⟨connected_eq_false.mp hnone v hv, by simp⟩
  | cons b before ih =>
    have hrest := ih h.2 fun v hv => by
      obtain ⟨hplaced, hbefore⟩ := ha v hv
      obtain ⟨hb, hbefore⟩ := List.forall_mem_cons.mp hbefore
      exact ⟨by simp [Variable.mem_append, hplaced, hb], hbefore⟩
    intro c hc v hv
    obtain ⟨happend, hbefore⟩ := hrest c hc v hv
    rw [Variable.mem_append, not_or] at happend
    exact ⟨happend.1, List.forall_mem_cons.mpr ⟨happend.2, hbefore⟩⟩

/-- A lightest operand goes first, and then each operand that is connected before those that are
not. -/
theorem arrange_cons (weight : Plan → Nat) (p : Plan) (ps : List Plan) :
    ∃ a as, arrange weight (p :: ps) = a :: as ∧
      (∀ b ∈ (p :: ps).zipIdx, weight a.1 ≤ weight b.1) ∧
      ConnectedFirst (·.1.vars) a.1.vars as := by
  let le (a b : Plan × Nat) : Bool := weight a.1 ≤ weight b.1
  have hperm := List.mergeSort_perm (p :: ps).zipIdx le
  have hsorted : ((p :: ps).zipIdx.mergeSort le).Pairwise (le · ·) :=
    List.pairwise_mergeSort (fun a b c => by simp only [le, decide_eq_true_iff]; omega)
      (fun a b => by simp only [le, Bool.or_eq_true, decide_eq_true_iff]; omega) _
  unfold arrange
  cases hsort : (p :: ps).zipIdx.mergeSort le with
  | nil =>
    rw [hsort] at hperm
    exact absurd hperm.length_eq (by simp)
  | cons a as =>
    rw [hsort] at hperm hsorted
    refine ⟨a, _, rfl, fun b hb => ?_, connectedFirst_connect _ _ _⟩
    rcases List.mem_cons.mp (hperm.mem_iff.mpr hb) with rfl | hb
    · exact Nat.le_refl _
    · exact of_decide_eq_true ((List.pairwise_cons.mp hsorted).1 b hb)

end Reordering

namespace Plan
open Reordering
variable {weight : Plan → Nat} {ps : List Plan}

/-- The order in which the operands of a join are evaluated: that of its reordering, or the declared
one. -/
def usedOrder (weight : Plan → Nat) (ps : List Plan) : List Nat :=
  (((join ps).reorder? weight).map (·.permutation)).getD (List.range ps.length)

theorem usedOrder_eq (h : 2 ≤ ps.length) : usedOrder weight ps = order weight ps := by
  unfold usedOrder
  cases hr : (join ps).reorder? weight with
  | some r => exact (reorder?_eq_some hr).1
  | none => exact ((reorder?_eq_none.mp hr).resolve_left (Nat.not_lt.mpr h)).symm

/-- The arranged operands by their positions. -/
theorem exists_positions (weight : Plan → Nat) (ps : List Plan) :
    ∃ is : List (Fin ps.length), arrange weight ps = is.map fun i => (ps[i], i.val) := by
  have hrange : arrange weight ps ∈
      Set.range (List.map fun i : Fin ps.length => (ps[i], i.val)) := by
    rw [Set.range_list_map]
    intro e he
    obtain ⟨hlt, heq⟩ := List.getElem?_eq_some_iff.mp
      (List.mem_zipIdx_iff_getElem?.mp ((arrange_perm weight ps).mem_iff.mp he))
    exact ⟨⟨e.2, hlt⟩, Prod.ext heq rfl⟩
  obtain ⟨is, his⟩ := hrange
  exact ⟨is, his.symm⟩

/-- Operands are adjacent if they share a variable. -/
def operandGraph (ps : List Plan) : SimpleGraph (Fin ps.length) where
  Adj i j := i ≠ j ∧ ∃ v ∈ ps[i].vars, v ∈ ps[j].vars
  symm := ⟨fun _ _ ⟨hne, v, hi, hj⟩ => ⟨hne.symm, v, hj, hi⟩⟩
  loopless := ⟨fun _ h => h.1 rfl⟩

/-- An operand that is adjacent to none of those before it is followed by none that is. -/
theorem not_adj_of_connectedFirst {first i : Fin ps.length} {before after : List (Fin ps.length)}
    (h : ConnectedFirst (·.1.vars) ps[first].vars
      ((before ++ i :: after).map fun i => (ps[i], i.val)))
    (hi : i ∉ first :: before) (hnone : ∀ j ∈ first :: before, ¬ (operandGraph ps).Adj i j) :
    ∀ k ∈ after, ∀ j ∈ first :: before, ¬ (operandGraph ps).Adj k j := by
  have hshares : ∀ j ∈ first :: before, ∀ v ∈ ps[i].vars, v ∉ ps[j].vars := by
    intro j hj v hv hvj
    have hne : i ≠ j := fun heq => hi (heq ▸ hj)
    exact hnone j hj ⟨hne, v, hv, hvj⟩
  rw [List.map_append, List.map_cons] at h
  have hsplit := h.split fun v hv => ⟨hshares first List.mem_cons_self v hv, fun b hb => by
    obtain ⟨j, hj, rfl⟩ := List.mem_map.mp hb
    exact hshares j (List.mem_cons_of_mem first hj) v hv⟩
  rintro k hk j hj ⟨-, v, hvk, hvj⟩
  obtain ⟨hplaced, hbefore⟩ := hsplit _ (List.mem_map_of_mem hk) v hvk
  rcases List.mem_cons.mp hj with rfl | hj
  · exact hplaced hvj
  · exact hbefore _ (List.mem_map_of_mem hj) hvj

/-- In a connected graph some edge leads into the beginning of a list of all vertices. -/
theorem exists_adj_of_connected {n : Nat} {G : SimpleGraph (Fin n)} (hG : G.Connected)
    {first i : Fin n} {before after : List (Fin n)} (hi : i ∉ first :: before)
    (hall : ∀ k, k ∈ first :: before ∨ k ∈ i :: after) :
    ∃ k ∈ i :: after, ∃ j ∈ first :: before, G.Adj k j := by
  obtain ⟨walk⟩ := hG.preconnected first i
  obtain ⟨d, -, hfst, hsnd⟩ :=
    walk.exists_boundary_dart { j | j ∈ first :: before } List.mem_cons_self hi
  exact ⟨d.snd, (hall d.snd).resolve_left hsnd, d.fst, hfst, d.adj.symm⟩

/-- A join of several operands begins with a lightest one. An operand that shares no variable with
those before it is followed by none that does; so each operand shares a variable with one before it
if all of them are connected by shared variables. -/
theorem cartesian_products_avoided (weight : Plan → Nat) {ps : List Plan} (h : 2 ≤ ps.length) :
    ∃ first rest, usedOrder weight ps = (first :: rest).map Fin.val ∧
      (first :: rest).Perm (List.finRange ps.length) ∧
      (∀ j : Fin ps.length, weight ps[first] ≤ weight ps[j]) ∧
      ∀ before i after, rest = before ++ i :: after →
        ((∀ j ∈ first :: before, ¬ (operandGraph ps).Adj i j) →
          ∀ k ∈ after, ∀ j ∈ first :: before, ¬ (operandGraph ps).Adj k j) ∧
        ((operandGraph ps).Connected → ∃ j ∈ first :: before, (operandGraph ps).Adj i j) := by
  obtain ⟨p, qs, rfl⟩ : ∃ p qs, ps = p :: qs := by
    cases ps with
    | nil => simp at h
    | cons p qs => exact ⟨p, qs, rfl⟩
  obtain ⟨is, his⟩ := exists_positions weight (p :: qs)
  obtain ⟨a, as, harrange, hlight, hfirst⟩ := arrange_cons weight p qs
  obtain ⟨first, rest, rfl, rfl, rfl⟩ := List.map_eq_cons_iff.mp (his.symm.trans harrange)
  have horder : order weight (p :: qs) = (first :: rest).map Fin.val := by
    rw [order, his, List.map_map]
    rfl
  have hperm : (first :: rest).Perm (List.finRange (p :: qs).length) := by
    have hrange := order_perm weight (p :: qs)
    rw [horder, ← List.map_coe_finRange_eq_range] at hrange
    exact (List.map_perm_map_iff Fin.val_injective).mp hrange
  refine ⟨first, rest, (usedOrder_eq h).trans horder, hperm, fun j => ?_, ?_⟩
  · exact hlight ((p :: qs)[j], j.val) (List.mem_zipIdx_iff_getElem?.mpr (by simp))
  · rintro before i after rfl
    have hall (k) : k ∈ first :: before ∨ k ∈ i :: after :=
      List.mem_append.mp (hperm.mem_iff.mpr (List.mem_finRange k))
    have hi : i ∉ first :: before := by
      have hnodup : (first :: before ++ i :: after).Nodup :=
        hperm.nodup_iff.mpr (List.nodup_finRange _)
      exact fun hmem => (List.nodup_append.mp hnodup).2.2 i hmem i List.mem_cons_self rfl
    have hbehind := not_adj_of_connectedFirst hfirst hi
    refine ⟨hbehind, fun hconnected => ?_⟩
    by_contra hnone
    have hnone : ∀ j ∈ first :: before, ¬ (operandGraph (p :: qs)).Adj i j :=
      fun j hj hadj => hnone ⟨j, hj, hadj⟩
    obtain ⟨k, hk, j, hj, hadj⟩ := exists_adj_of_connected hconnected hi hall
    rcases List.mem_cons.mp hk with rfl | hk
    · exact hnone j hj hadj
    · exact hbehind hnone k hk j hj hadj

/-- The heaviest pattern goes before the second one, since only it shares a variable with the
lightest. -/
theorem cartesian_products_avoided_chain :
    let ps : List Plan := [.triple ⟨.term (.iri "s"), .var ⟨"x"⟩, .var ⟨"y"⟩⟩,
      .triple ⟨.term (.iri "s"), .term (.iri "p"), .var ⟨"z"⟩⟩,
      .triple ⟨.var ⟨"y"⟩, .term (.iri "p"), .var ⟨"z"⟩⟩]
    2 ≤ ps.length ∧ usedOrder (Plan.weight Pattern.shapeWeight) ps = [1, 2, 0] ∧
      (operandGraph ps).Connected ∧ ∃ j ∈ [(1 : Fin ps.length)], (operandGraph ps).Adj 2 j := by
  intro ps
  have hlength : 2 ≤ ps.length := by decide
  have horder : usedOrder (Plan.weight Pattern.shapeWeight) ps = [1, 2, 0] := by cbv
  have hlast : (operandGraph ps).Adj 0 2 := ⟨by decide, ⟨"y"⟩, by decide, by decide⟩
  have hmiddle : (operandGraph ps).Adj 1 2 := ⟨by decide, ⟨"z"⟩, by decide, by decide⟩
  have hreach : ∀ i, (operandGraph ps).Reachable i 2 := by
    intro i
    fin_cases i
    · exact hlast.reachable
    · exact hmiddle.reachable
    · exact .refl _
  have hconnected : (operandGraph ps).Connected :=
    { preconnected := fun i j => (hreach i).trans (hreach j).symm, nonempty := ⟨2⟩ }
  obtain ⟨first, rest, hused, -, -, hbehind⟩ :=
    cartesian_products_avoided (Plan.weight Pattern.shapeWeight) hlength
  have hmap : [(1 : Fin ps.length), 2, 0].map Fin.val = (first :: rest).map Fin.val :=
    horder.symm.trans hused
  obtain ⟨rfl, rfl⟩ := List.cons_eq_cons.mp (Fin.val_injective.list_map hmap)
  exact ⟨hlength, horder, hconnected, (hbehind [] 2 [0] rfl).2 hconnected⟩

end Plan
end TripleAlgebra

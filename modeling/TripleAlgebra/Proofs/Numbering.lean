import Mathlib.Data.List.Basic
import Mathlib.Data.List.Induction
import Mathlib.Data.List.Nodup

/-! Numbers in the order of first occurrence. A list that holds each of its items once gives an item
the number of its position, and a new item the next number. -/
namespace TripleAlgebra
variable {α : Type} [DecidableEq α]

theorem eraseDups_concat (l : List α) (x : α) :
    (l ++ [x]).eraseDups = if x ∈ l then l.eraseDups else l.eraseDups ++ [x] := by
  rw [List.eraseDups_append]
  split
  · simp [List.removeAll, *]
  · simp [List.removeAll, List.eraseDups_cons, *]

theorem nodup_eraseDups (l : List α) : l.eraseDups.Nodup := by
  induction l using List.reverseRecOn with
  | nil => exact .nil
  | append_singleton l x ih =>
    rw [eraseDups_concat]
    split
    · exact ih
    · rename_i hnot
      rw [← List.concat_eq_append]
      exact .concat (fun h => hnot (List.mem_eraseDups.mp h)) ih

/-- A new item takes the next number, and any other item keeps the number it has. -/
theorem eraseDups_concat_cases (l : List α) (x : α) :
    (l.eraseDups.idxOf? x = none ∧ (l ++ [x]).eraseDups = l.eraseDups ++ [x] ∧
      (l ++ [x]).eraseDups.idxOf x = l.eraseDups.length) ∨
    ∃ n, l.eraseDups.idxOf? x = some n ∧ (l ++ [x]).eraseDups = l.eraseDups ∧
      (l ++ [x]).eraseDups.idxOf x = n := by
  rw [eraseDups_concat]
  cases hfound : l.eraseDups.idxOf? x with
  | none =>
    have hnew : x ∉ l.eraseDups := List.idxOf?_eq_none_iff.mp hfound
    rw [if_neg (mt List.mem_eraseDups.mpr hnew), List.idxOf_append_of_notMem hnew,
      List.idxOf_cons_self]
    exact .inl ⟨rfl, rfl, rfl⟩
  | some n =>
    have hmet : x ∈ l := List.mem_eraseDups.mp (List.isSome_idxOf?.mp (by simp [hfound]))
    rw [if_pos hmet, List.idxOf_eq_getD_idxOf?, hfound]
    exact .inr ⟨n, rfl, rfl, rfl⟩

/-- Items that follow come behind the ones that are there. -/
theorem isPrefix_eraseDups (l l' : List α) : l.eraseDups <+: (l ++ l').eraseDups := by
  rw [List.eraseDups_append]
  exact List.prefix_append _ _

/-- A number is not taken back. -/
theorem idxOf_eraseDups_append {l : List α} {x : α} (h : x ∈ l) (l' : List α) :
    (l ++ l').eraseDups.idxOf x = l.eraseDups.idxOf x := by
  rw [List.eraseDups_append]
  exact List.idxOf_append_of_mem (List.mem_eraseDups.mpr h)

end TripleAlgebra

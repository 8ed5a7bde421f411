import TripleAlgebra.Row

/-! Variables, their order in a header and the columns they name. -/
namespace TripleAlgebra

structure Variable where
  name : String
  deriving DecidableEq, Hashable, Repr, Inhabited

namespace Variable

def render (v : Variable) : String := "?" ++ v.name

/-- The column of a variable is its first position. -/
def column? (vs : List Variable) (v : Variable) : Option Nat := vs.idxOf? v

/-- Appends the variables that are not yet present, each once. -/
def append (vs ws : List Variable) : List Variable :=
  ws.foldl (fun acc v => if v ∈ acc then acc else acc ++ [v]) vs

/-- The distinct variables of several lists in the order of their first occurrence. -/
def union (lists : List (List Variable)) : List Variable := lists.foldl append []

/-- Where the variables of `target` stand in `source`. -/
def columns (source target : List Variable) : List (Option Nat) :=
  target.map (column? source)

/-- Whether a projection keeps all columns of a row of `width` in place. -/
def isIdentity (columns : List (Option Nat)) (width : Nat) : Bool :=
  columns = (List.range width).map some

theorem mem_append {vs ws : List Variable} {v : Variable} :
    v ∈ append vs ws ↔ v ∈ vs ∨ v ∈ ws := by
  unfold append
  induction ws generalizing vs with
  | nil => simp
  | cons w ws ih =>
    rw [List.foldl_cons, ih]
    by_cases h : w ∈ vs
    · simp only [h, if_true, List.mem_cons]
      constructor
      · rintro (h | h)
        · exact .inl h
        · exact .inr (.inr h)
      · rintro (h' | rfl | h')
        · exact .inl h'
        · exact .inl h
        · exact .inr h'
    · simp [h, or_assoc]

theorem nodup_append {vs ws : List Variable} (h : vs.Nodup) : (append vs ws).Nodup := by
  unfold append
  induction ws generalizing vs with
  | nil => simpa
  | cons w ws ih =>
    rw [List.foldl_cons]
    by_cases hw : w ∈ vs
    · simpa [hw] using ih h
    · simp only [hw, if_false]
      exact ih (List.nodup_append.2 ⟨h, by simp, by rintro a ha b hb rfl; simp_all⟩)

theorem filter_append (f : Variable → Bool) (vs ws : List Variable) :
    (append vs ws).filter f = append (vs.filter f) (ws.filter f) := by
  unfold append
  induction ws generalizing vs with
  | nil => rfl
  | cons w ws ih =>
    rw [List.foldl_cons, ih]
    by_cases hf : f w
    · rw [List.filter_cons_of_pos hf, List.foldl_cons]
      congr 1
      by_cases hw : w ∈ vs
      · simp [hw, hf]
      · simp [hw, hf]
    · rw [List.filter_cons_of_neg hf]
      congr 1
      by_cases hw : w ∈ vs
      · simp [hw]
      · simp [hw, hf]

theorem mem_union {lists : List (List Variable)} {v : Variable} :
    v ∈ union lists ↔ ∃ l ∈ lists, v ∈ l := by
  suffices ∀ acc, v ∈ lists.foldl append acc ↔ v ∈ acc ∨ ∃ l ∈ lists, v ∈ l by
    simpa [union] using this []
  induction lists with
  | nil => simp
  | cons l ls ih => intro acc; simp [ih, mem_append, or_assoc]

theorem nodup_union (lists : List (List Variable)) : (union lists).Nodup := by
  suffices ∀ acc : List Variable, acc.Nodup → (lists.foldl append acc).Nodup from this [] .nil
  induction lists with
  | nil => intro acc h; exact h
  | cons l ls ih => intro acc h; exact ih _ (nodup_append h)

end Variable
end TripleAlgebra

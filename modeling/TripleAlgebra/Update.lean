/-! Updates that say `none` when nothing changes. -/
namespace TripleAlgebra.Update

/-- Two parts of which at least one changes. -/
def both {α β : Type} (a : α) (a' : Option α) (b : β) (b' : Option β) : Option (α × β) :=
  if a'.isNone && b'.isNone then none else some (a'.getD a, b'.getD b)

/-- An optional part that changes only if it is there. -/
def within {α : Type} (f : α → Option α) : Option α → Option (Option α)
  | none => none
  | some a => (f a).map some

variable {α β : Type}

theorem both_eq_none {a : α} {a' : Option α} {b : β} {b' : Option β} :
    both a a' b b' = none ↔ a' = none ∧ b' = none := by
  cases a' <;> cases b' <;> simp [both]

/-- Applied to a pair, an update changes each part by itself. -/
theorem getD_both (a : α) (a' : Option α) (b : β) (b' : Option β) :
    (both a a' b b').getD (a, b) = (a'.getD a, b'.getD b) := by
  cases a' <;> cases b' <;> rfl

theorem getD_map_both {γ : Type} (f : α × β → γ) (a : α) (a' : Option α) (b : β) (b' : Option β) :
    ((both a a' b b').map f).getD (f (a, b)) = f (a'.getD a, b'.getD b) := by
  cases a' <;> cases b' <;> rfl

end TripleAlgebra.Update

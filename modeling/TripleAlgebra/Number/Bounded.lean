import TripleAlgebra.Number.Digits

/-! Whole numbers of a fixed number of bits. Every operation that would leave the range fails. -/
namespace TripleAlgebra.Number

/-- Two's complement range of a word. -/
def Fits (bits : Nat) (n : Int) : Prop :=
  -(Nat.pow 2 (bits - 1) : Int) ≤ n ∧ n < Nat.pow 2 (bits - 1)

instance (bits : Nat) (n : Int) : Decidable (Fits bits n) :=
  inferInstanceAs (Decidable (_ ∧ _))

structure Bounded (bits : Nat) where
  value : Int
  fits : Fits bits value
  deriving DecidableEq

namespace Bounded
variable {bits : Nat}

def ofInt? (n : Int) : Option (Bounded bits) := if h : Fits bits n then some ⟨n, h⟩ else none

instance : Inhabited (Bounded bits) :=
  ⟨0, by have : 0 < Nat.pow 2 (bits - 1) := Nat.two_pow_pos _; unfold Fits; omega⟩

def add? (a b : Bounded bits) : Option (Bounded bits) := ofInt? (a.value + b.value)
def sub? (a b : Bounded bits) : Option (Bounded bits) := ofInt? (a.value - b.value)
def mul? (a b : Bounded bits) : Option (Bounded bits) := ofInt? (a.value * b.value)
def neg? (a : Bounded bits) : Option (Bounded bits) := ofInt? (-a.value)

/-- Reads an optional sign followed by at least one digit. -/
def parse? (s : String) : Option (Bounded bits) :=
  let (negative, ds) := splitSign s.toList
  if ds.isEmpty || !ds.all Char.isDigit then none else ofInt? (signed negative (ofDigits ds))

def render (a : Bounded bits) : String :=
  signedText (a.value < 0) (digits a.value.natAbs)

theorem ofInt?_eq_some {n : Int} {a : Bounded bits} : ofInt? n = some a ↔ a.value = n := by
  cases a with
  | mk v h =>
    unfold ofInt?
    constructor
    · intro e
      split at e
      · simpa using (congrArg Bounded.value (Option.some.inj e)).symm
      · cases e
    · intro e
      subst e
      simp [h]

end Bounded

/-- The 64-bit whole numbers. -/
abbrev Integer := Bounded 64

end TripleAlgebra.Number

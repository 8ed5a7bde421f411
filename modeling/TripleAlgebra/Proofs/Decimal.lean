import Mathlib.Data.Nat.Prime.Int
import Mathlib.Tactic.Ring
import TripleAlgebra.Number.Decimal

/-! Products of decimals are exact, and they fail only if the exact product is no decimal. -/
namespace TripleAlgebra.Number.Decimal
variable {factor left right : Int}

theorem cancel_mul (factor n : Int) (count : Nat) :
    (cancel factor count n).1 * factor ^ count = n * factor ^ (cancel factor count n).2 := by
  induction count generalizing n with
  | zero => rfl
  | succ count ih =>
    unfold cancel
    split
    · next hmod =>
      rw [pow_succ, ← mul_assoc, ih, mul_right_comm,
        Int.ediv_mul_cancel (Int.dvd_of_emod_eq_zero hmod)]
    · rfl

/-- A factor that is left divides nothing any more. -/
theorem cancel_rest (factor n : Int) (count : Nat) :
    (cancel factor count n).2 = 0 ∨ ¬ factor ∣ (cancel factor count n).1 := by
  induction count generalizing n with
  | zero => exact .inl rfl
  | succ count ih =>
    unfold cancel
    split
    · exact ih _
    · next hmod => exact .inr fun hdvd => hmod (Int.emod_eq_zero_of_dvd hdvd)

theorem cancel_le (factor n : Int) (count : Nat) : (cancel factor count n).2 ≤ count := by
  induction count generalizing n with
  | zero => exact Nat.le_refl 0
  | succ count ih =>
    unfold cancel
    split
    · exact Nat.le_succ_of_le (ih _)
    · exact Nat.le_refl _

theorem cancelBoth_mul (hf : factor ≠ 0) (left right : Int) :
    let r := cancelBoth factor left right
    r.1 * r.2.1 * factor ^ places = left * right * factor ^ r.2.2 := by
  intro r
  have hleft := cancel_mul factor left places
  have hright := cancel_mul factor right (cancel factor places left).2
  refine mul_right_cancel₀ (pow_ne_zero (cancel factor places left).2 hf) ?_
  calc r.1 * r.2.1 * factor ^ places * factor ^ (cancel factor places left).2
    _ = (r.1 * factor ^ places) * (r.2.1 * factor ^ (cancel factor places left).2) := by ring
    _ = (left * factor ^ (cancel factor places left).2) * (right * factor ^ r.2.2) :=
      congrArg₂ (· * ·) hleft hright
    _ = left * right * factor ^ r.2.2 * factor ^ (cancel factor places left).2 := by ring

/-- All of a prime factor is cancelled if and only if the product has it as often as the unit. -/
theorem cancelBoth_eq_zero (hf : Prime factor) :
    (cancelBoth factor left right).2.2 = 0 ↔ factor ^ places ∣ left * right := by
  have hmul := cancelBoth_mul hf.ne_zero left right
  dsimp only at hmul
  constructor
  · intro hzero
    rw [hzero, pow_zero, mul_one] at hmul
    exact ⟨_, by rw [← hmul, mul_comm]⟩
  · rintro ⟨n, hn⟩
    by_contra hrest
    have hright := (cancel_rest factor right (cancel factor places left).2).resolve_left hrest
    have hleft := (cancel_rest factor left places).resolve_left fun hzero => by
      have hle := cancel_le factor right (cancel factor places left).2
      exact hrest (Nat.le_zero.mp (hzero ▸ hle))
    have hproduct : (cancelBoth factor left right).1 * (cancelBoth factor left right).2.1 =
        n * factor ^ (cancelBoth factor left right).2.2 := by
      refine mul_right_cancel₀ (pow_ne_zero places hf.ne_zero) ?_
      rw [hmul, hn]
      ring
    have hdvd : factor ∣ (cancelBoth factor left right).1 * (cancelBoth factor left right).2.1 :=
      hproduct ▸ (dvd_pow_self factor hrest).mul_left n
    exact (hf.dvd_or_dvd hdvd).elim hleft hright

theorem ofScaled?_eq_some {n : Int} {a : Decimal} : ofScaled? n = some a ↔ a.scaled.value = n := by
  rw [ofScaled?, Option.map_eq_some_iff]
  constructor
  · rintro ⟨value, hvalue, rfl⟩
    exact Bounded.ofInt?_eq_some.mp hvalue
  · intro hvalue
    exact ⟨a.scaled, Bounded.ofInt?_eq_some.mpr hvalue, rfl⟩

theorem unit_eq : unit = 2 ^ places * 5 ^ places := rfl

/-- A product is found if and only if the exact product is a decimal, and it is this one. -/
theorem mul?_eq_some {a b c : Decimal} :
    a.mul? b = some c ↔ c.scaled.value * unit = a.scaled.value * b.scaled.value := by
  have htwo : Prime (2 : Int) := Int.prime_two
  have hfive : Prime (5 : Int) := Int.prime_ofNat_iff.mpr Nat.prime_five
  have hmul₂ := cancelBoth_mul htwo.ne_zero a.scaled.value b.scaled.value
  rcases h₂ : cancelBoth 2 a.scaled.value b.scaled.value with ⟨left, right, twos⟩
  have hmul₅ := cancelBoth_mul hfive.ne_zero left right
  rcases h₅ : cancelBoth 5 left right with ⟨left', right', fives⟩
  simp only [h₂, h₅] at hmul₂ hmul₅
  have hproduct : a.mul? b = if twos = 0 ∧ fives = 0 then ofScaled? (left' * right') else none := by
    simp only [mul?, h₂, h₅]
  rw [hproduct, unit_eq]
  constructor
  · intro hsome
    split at hsome
    · next hall =>
      rw [hall.1, pow_zero, mul_one] at hmul₂
      rw [hall.2, pow_zero, mul_one] at hmul₅
      rw [ofScaled?_eq_some.mp hsome, ← hmul₂, ← hmul₅]
      ring
    · cases hsome
  · intro hexact
    have hzero₂ : twos = 0 := by
      have hdvd := (cancelBoth_eq_zero htwo).mpr
        ⟨c.scaled.value * 5 ^ places, by rw [← hexact]; ring⟩
      rwa [h₂] at hdvd
    rw [hzero₂, pow_zero, mul_one, ← hexact] at hmul₂
    have hrest : left * right = c.scaled.value * 5 ^ places :=
      mul_right_cancel₀ (pow_ne_zero places htwo.ne_zero) (by rw [hmul₂]; ring)
    have hzero₅ : fives = 0 := by
      have hdvd := (cancelBoth_eq_zero hfive).mpr ⟨c.scaled.value, by rw [hrest, mul_comm]⟩
      rwa [h₅] at hdvd
    rw [hzero₅, pow_zero, mul_one, hrest] at hmul₅
    rw [if_pos ⟨hzero₂, hzero₅⟩]
    exact ofScaled?_eq_some.mpr
      (mul_right_cancel₀ (pow_ne_zero places hfive.ne_zero) hmul₅).symm

end TripleAlgebra.Number.Decimal

import Mathlib.Data.String.Basic
import Mathlib.Order.Compare
import TripleAlgebra.Proofs.Specialise

/-! Equality and order of values. Both are the same from either side, whatever type two numbers are
converted to, and they agree on all values that are ordered. -/
namespace TripleAlgebra

namespace Number

namespace Binary
variable {f : Format}

def isNan : Binary f → Bool
  | .nan => true
  | .infinity _ | .finite .. => false

theorem compare?_swap (a b : Binary f) : b.compare? a = (a.compare? b).map Ordering.swap := by
  cases a with
  | nan => cases b <;> rfl
  | infinity s =>
    cases b with
    | nan => rfl
    | infinity t => exact congrArg some Std.OrientedCmp.eq_swap
    | finite t n d => cases s <;> rfl
  | finite s m e =>
    cases b with
    | nan => rfl
    | infinity t => cases t <;> rfl
    | finite t n d =>
      -- both orders align the two numbers to the same power of two
      simp only [compare?, Option.map_some, min_comm d e]
      exact congrArg some Std.OrientedCmp.eq_swap

theorem compare?_self (a : Binary f) : a.compare? a = if a.isNan then none else some .eq := by
  cases a <;> simp [compare?, isNan]

end Binary

namespace NumericPair

def swap : NumericPair → NumericPair
  | .integers a b => .integers b a
  | .decimals a b => .decimals b a
  | .floats a b => .floats b a
  | .doubles a b => .doubles b a

def compare? : NumericPair → Option Ordering
  | .integers a b => some (compare a.value b.value)
  | .decimals a b => some (compare a.scaled.value b.scaled.value)
  | .floats a b => a.compare? b
  | .doubles a b => a.compare? b

theorem compare?_swap (p : NumericPair) : p.swap.compare? = p.compare?.map Ordering.swap := by
  cases p with
  | integers a b | decimals a b => exact congrArg some Std.OrientedCmp.eq_swap
  | floats a b | doubles a b => exact Binary.compare?_swap a b

end NumericPair

namespace Numeric

def isNan : Numeric → Bool
  | .integer _ | .decimal _ => false
  | .float x => x.isNan
  | .double x => x.isNan

/-- From either side, two numbers are converted to the same type. -/
theorem promote_swap (a b : Numeric) : promote b a = (promote a b).swap := by
  cases a <;> cases b <;> rfl

theorem compare?_eq (a b : Numeric) : a.compare? b = (promote a b).compare? := by
  unfold compare? NumericPair.compare?
  cases promote a b <;> rfl

theorem compare?_swap (a b : Numeric) : b.compare? a = (a.compare? b).map Ordering.swap := by
  rw [compare?_eq, compare?_eq, promote_swap, NumericPair.compare?_swap]

theorem compare?_self (a : Numeric) : a.compare? a = if a.isNan then none else some .eq := by
  cases a with
  | integer n | decimal n => simp [compare?, promote, isNan]
  | float x | double x => exact x.compare?_self

end Numeric
end Number

namespace Value
open Number

def isNan : Value → Bool
  | .numeric n => n.isNan
  | _ => false

/-- Equality is the same from either side, also where it fails. -/
theorem equal_comm (u v : Value) : u.equal v = v.equal u := by
  cases u with
  | numeric a =>
    cases v with
    | numeric b =>
      simp only [equal, Numeric.compare?_swap a b]
      cases a.compare? b with
      | none => rfl
      | some o => cases o <;> rfl
    | _ => simp [equal]
  | other l =>
    cases v with
    | other m => simp only [equal, eq_comm]
    | _ => simp [equal]
  | _ => cases v <;> simp [equal, eq_comm]

theorem equal_self (u : Value) : u.equal u = .ok (!u.isNan) := by
  cases u with
  | numeric n =>
    simp only [equal, isNan, n.compare?_self]
    cases n.isNan <;> rfl
  | _ => simp [equal, isNan]

/-- The order is reversed from the other side, and fails on both sides or on none. -/
theorem order_swap (u v : Value) : v.order u = (u.order v).map Ordering.swap := by
  cases u with
  | numeric a =>
    cases v with
    | numeric b =>
      simp only [order, Numeric.compare?_swap a b]
      cases a.compare? b <;> rfl
    | _ => rfl
  | boolean a =>
    cases v with
    | boolean b => exact congrArg Except.ok Std.OrientedCmp.eq_swap
    | _ => rfl
  | simple s =>
    cases v with
    | simple t => exact congrArg Except.ok Std.OrientedCmp.eq_swap
    | _ => rfl
  | tagged s l =>
    cases v with
    | tagged t m =>
      simp only [order, eq_comm (a := m)]
      split
      · exact congrArg Except.ok Std.OrientedCmp.eq_swap
      · rfl
    | _ => rfl
  | iri | blank | other => cases v <;> rfl

/-- Whether ordered values are equal is known, and it is as their order says. -/
theorem equal_of_order {u v : Value} {o : Ordering} (h : u.order v = .ok o) :
    u.equal v = .ok (o = .eq) := by
  cases u with
  | numeric a =>
    cases v with
    | numeric b =>
      simp only [order] at h
      cases hc : a.compare? b with
      | none => simp [hc, Partial.ofOption] at h
      | some o' =>
        rw [hc] at h
        cases h
        simp [equal, hc]
    | _ => cases h
  | boolean a =>
    cases v with
    | boolean b =>
      cases h
      cases a <;> cases b <;> rfl
    | _ => cases h
  | simple s =>
    cases v with
    | simple t =>
      cases h
      simp [equal]
    | _ => cases h
  | tagged s l =>
    cases v with
    | tagged t m =>
      simp only [order] at h
      split at h
      · cases h
        simp_all [equal]
      · cases h
    | _ => cases h
  | iri | blank | other => cases v <;> cases h

theorem order_eq_ok_iff {u v : Value} {o : Ordering} :
    u.order v = .ok o ↔ v.order u = .ok o.swap := by
  rw [order_swap u v]
  cases u.order v <;> simp [Except.map]

end Value

namespace Expression
variable {s : Assignment} {x y : Expression} {a b : Partial Term}

/-- The order of the values of two terms. -/
def termOrder (a b : Partial Term) : Partial Ordering := do
  (Value.ofTerm (← a)).order (Value.ofTerm (← b))

/-- Whether the values of two terms are equal. -/
def termEqual (a b : Partial Term) : Partial Bool := do
  (Value.ofTerm (← a)).equal (Value.ofTerm (← b))

theorem termOrder_ok (a b : Term) :
    termOrder (.ok a) (.ok b) = (Value.ofTerm a).order (Value.ofTerm b) :=
  rfl

theorem termOrder_swap (a b : Partial Term) :
    termOrder b a = (termOrder a b).map Ordering.swap := by
  cases a with
  | error e => cases b <;> rfl
  | ok t =>
    cases b with
    | error e => rfl
    | ok u => exact Value.order_swap _ _

theorem termEqual_of_order {o : Ordering} (h : termOrder a b = .ok o) :
    termEqual a b = .ok (o = .eq) := by
  cases a with
  | error e => cases h
  | ok t =>
    cases b with
    | error e => cases h
    | ok u => exact Value.equal_of_order h

theorem compareTerms_eq (accept : Ordering → Bool) (a b : Partial Term) :
    compareTerms accept a b = (termOrder a b).map fun o => .boolean (accept o) := by
  cases a with
  | error e => rfl
  | ok t =>
    cases b with
    | error e => rfl
    | ok u =>
      show Except.bind ((Value.ofTerm t).order (Value.ofTerm u)) _ =
        ((Value.ofTerm t).order (Value.ofTerm u)).map _
      cases (Value.ofTerm t).order (Value.ofTerm u) <;> rfl

theorem applyBinary_equal (a b : Partial Term) :
    applyBinary .equal a b = (termEqual a b).map .boolean := by
  cases a with
  | error e => rfl
  | ok t =>
    cases b with
    | error e => rfl
    | ok u =>
      show Except.bind ((Value.ofTerm t).equal (Value.ofTerm u)) _ =
        ((Value.ofTerm t).equal (Value.ofTerm u)).map _
      cases (Value.ofTerm t).equal (Value.ofTerm u) <;> rfl

/-- Greater is less from the other side, also where it fails. -/
theorem eval_greater (s : Assignment) (x y : Expression) :
    eval s (.binary .greater x y) = eval s (.binary .less y x) := by
  simp only [eval_binary, applyBinary, compareTerms_eq, termOrder_swap (eval s x) (eval s y)]
  cases termOrder (eval s x) (eval s y) with
  | error e => rfl
  | ok o => cases o <;> rfl

/-- All orders of two terms fail together. -/
theorem isOk_compareTerms (accept : Ordering → Bool) (a b : Partial Term) :
    (compareTerms accept a b).isOk = (termOrder a b).isOk := by
  rw [compareTerms_eq]
  cases termOrder a b <;> rfl

/-- Where the order does not fail, at most is less or equal. -/
theorem eval_lessOrEqual (h : (termOrder (eval s x) (eval s y)).isOk) :
    eval s (.binary .lessOrEqual x y) =
      eval s (.binary .or (.binary .less x y) (.binary .equal x y)) := by
  cases ho : termOrder (eval s x) (eval s y) with
  | error e =>
    rw [ho] at h
    cases h
  | ok o =>
    have hless : eval s (.binary .less x y) = .ok (.boolean o.isLT) := by
      simp [eval_binary, applyBinary, compareTerms_eq, ho, Except.map]
    have hequal : eval s (.binary .equal x y) = .ok (.boolean (o = .eq)) := by
      simp [eval_binary, applyBinary_equal, termEqual_of_order ho, Except.map]
    have hboth : eval s (.binary .lessOrEqual x y) = .ok (.boolean o.isLE) := by
      simp [eval_binary, applyBinary, compareTerms_eq, ho, Except.map]
    have htruth (b : Bool) : termTruth (.ok (.boolean b)) = .ok b := truth_boolean b
    rw [hboth, eval_binary s .or, hless, hequal, applyBinary, htruth, htruth]
    cases o <;> rfl

/-- Equality and order agree. Equality is the same from either side, failures included, and every
value but a NaN equals itself. The order is reversed from the other side, ordered values are equal
exactly if neither comes first, and the comparisons of expressions follow. -/
theorem comparisons_agree (a b : Term) :
    let u := Value.ofTerm a
    let v := Value.ofTerm b
    u.equal v = v.equal u ∧
    u.equal u = .ok (!u.isNan) ∧
    (∀ o, u.order v = .ok o ↔ v.order u = .ok o.swap) ∧
    (u.order v = .ok .eq → u.equal v = .ok true) ∧
    (u.equal v = .ok true → ∀ o, u.order v = .ok o → o = .eq) ∧
    ∀ (s : Assignment) (x y : Expression),
      (eval s (.binary .lessOrEqual x y)).isOk = (eval s (.binary .less x y)).isOk ∧
      ((eval s (.binary .lessOrEqual x y)).isOk → eval s (.binary .lessOrEqual x y) =
        eval s (.binary .or (.binary .less x y) (.binary .equal x y))) ∧
      eval s (.binary .greater x y) = eval s (.binary .less y x) := by
  intro u v
  refine ⟨u.equal_comm v, u.equal_self, fun o => Value.order_eq_ok_iff, fun h => ?_,
    fun h o ho => ?_, fun s x y => ?_⟩
  · rw [Value.equal_of_order h]
    rfl
  · rw [Value.equal_of_order ho] at h
    simpa using h
  · have hok (op : BinaryOp) (accept : Ordering → Bool)
        (hop : ∀ p q, applyBinary op p q = compareTerms accept p q) :
        (eval s (.binary op x y)).isOk = (termOrder (eval s x) (eval s y)).isOk := by
      rw [eval_binary, hop, isOk_compareTerms]
    have hboth := hok .lessOrEqual Ordering.isLE fun _ _ => rfl
    have hless := hok .less Ordering.isLT fun _ _ => rfl
    exact ⟨hboth.trans hless.symm, fun h => eval_lessOrEqual (hboth ▸ h), eval_greater s x y⟩

/-- The integer one and the double one. -/
theorem comparisons_agree_one :
    let a := Term.typed "1" (Vocabulary.xsd "integer")
    let b := Term.typed "1.0" (Vocabulary.xsd "double")
    (Value.ofTerm a).order (Value.ofTerm b) = .ok .eq ∧
      (Value.ofTerm a).equal (Value.ofTerm b) = .ok true ∧
      (eval (fun _ => none) (.binary .lessOrEqual (.const a) (.const b))).isOk ∧
      eval (fun _ => none) (.binary .lessOrEqual (.const a) (.const b)) =
        eval (fun _ => none) (.binary .or (.binary .less (.const a) (.const b))
          (.binary .equal (.const a) (.const b))) := by
  have horder : (Value.ofTerm (.typed "1" (Vocabulary.xsd "integer"))).order
      (Value.ofTerm (.typed "1.0" (Vocabulary.xsd "double"))) = .ok .eq := by
    decide +kernel
  intro a b
  obtain ⟨-, -, -, hequal, -, hexpressions⟩ := comparisons_agree a b
  obtain ⟨-, hboth, -⟩ := hexpressions (fun _ => none) (.const a) (.const b)
  have hok : (eval (fun _ => none) (.binary .lessOrEqual (.const a) (.const b))).isOk := by
    rw [eval_binary, eval_const, eval_const, applyBinary, isOk_compareTerms, termOrder_ok, horder]
    rfl
  exact ⟨horder, hequal horder, hok, hboth hok⟩

end Expression
end TripleAlgebra

import TripleAlgebra.Expression.Basic
import TripleAlgebra.Regex.Search
import TripleAlgebra.Text.Case
import TripleAlgebra.Text.Search
import TripleAlgebra.Value

/-! The functions that expressions call. -/
namespace TripleAlgebra
open Number

namespace Term

def isIri : Term → Bool
  | .iri _ => true
  | _ => false

def isBlank : Term → Bool
  | .blank _ => true
  | _ => false

def isLiteral : Term → Bool
  | .literal _ => true
  | _ => false

def isNumeric (t : Term) : Bool :=
  match Value.ofTerm t with
  | .numeric _ => true
  | _ => false

end Term

namespace Function

/-- The text of a plain literal. -/
def plainText : Term → Partial String
  | .literal ⟨s, .plain⟩ => .ok s
  | _ => .error .failed

/-- Changes the text of a string and keeps its language. -/
def mapText (f : String → String) (t : Term) : Partial Term :=
  match Value.ofTerm t with
  | .simple s => .ok (.plain (f s))
  | .tagged s l => .ok (.literal (.tagged (f s) l))
  | _ => .error .failed

/-- Tests two strings. The second has no language or that of the first. -/
def testTexts (test : String → String → Bool) (s t : Term) : Partial Term := do
  let (a, l) ← (Value.ofTerm s).text
  let (b, m) ← (Value.ofTerm t).text
  if m.isSome && l ≠ m then .error .failed else .ok (.boolean (test a b))

def strTerm : Term → Partial Term
  | .iri n => .ok (.plain n)
  | .literal l => .ok (.plain l.lexical)
  | .blank _ => .error .failed

def langTerm : Term → Partial Term
  | .literal l => .ok (.plain (l.language?.getD ""))
  | _ => .error .failed

def datatypeTerm : Term → Partial Term
  | .literal l => .ok (.iri l.datatype)
  | _ => .error .failed

/-- The number of code points of a string. -/
def lengthTerm (t : Term) : Partial Term := do
  let (s, _) ← (Value.ofTerm t).text
  let n ← Partial.ofOption (Bounded.ofInt? s.length)
  pure (Value.numericTerm (.integer n))

def regexTerm (search : Regex.Search) (text pattern flags : Term) : Partial Term := do
  let (s, _) ← (Value.ofTerm text).text
  let p ← plainText pattern
  let f ← plainText flags
  return .boolean (← Partial.ofOption (search p f s))

/-- The result of a call. A wrong number of arguments fails. -/
def apply (search : Regex.Search) : Function → List Term → Partial Term
  | .isIri, [t] => .ok (.boolean t.isIri)
  | .isBlank, [t] => .ok (.boolean t.isBlank)
  | .isLiteral, [t] => .ok (.boolean t.isLiteral)
  | .isNumeric, [t] => .ok (.boolean t.isNumeric)
  | .str, [t] => strTerm t
  | .lang, [t] => langTerm t
  | .datatype, [t] => datatypeTerm t
  | .strLen, [t] => lengthTerm t
  | .upperCase, [t] => mapText Text.upper t
  | .lowerCase, [t] => mapText Text.lower t
  | .contains, [s, t] => testTexts Text.contains s t
  | .strStarts, [s, t] => testTexts Text.startsWith s t
  | .strEnds, [s, t] => testTexts Text.endsWith s t
  | .regex, [s, p] => regexTerm search s p (.plain "")
  | .regex, [s, p, f] => regexTerm search s p f
  | _, _ => .error .failed

end Function
end TripleAlgebra

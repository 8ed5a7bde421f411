import TripleAlgebra.Regex.Basic
import TripleAlgebra.Text.Fold
import TripleAlgebra.Text.Script

/-! How flags change what the parts of a pattern stand for. -/
namespace TripleAlgebra
open Text

namespace Regex

structure Flags where
  ignoreCase : Bool := false
  multiLine : Bool := false
  dotAll : Bool := false
  crlf : Bool := false
  skipBlanks : Bool := false
  unicode : Bool := true
  deriving DecidableEq, Repr

namespace Flags

def set? (f : Flags) (flag : Char) (on : Bool) : Option Flags :=
  match flag with
  | 'i' => some { f with ignoreCase := on }
  | 'm' => some { f with multiLine := on }
  | 's' => some { f with dotAll := on }
  | 'R' => some { f with crlf := on }
  | 'x' => some { f with skipBlanks := on }
  | 'u' => some { f with unicode := on }
  | 'U' => some f
  | _ => none

/-- Without Unicode a set is one of bytes. -/
def complement (f : Flags) (s : CharSet) : CharSet :=
  if f.unicode then s.complement else s.missing 0xFF

def lowerAscii : CharSet := ⟨[(97, 122)]⟩

def upperAscii : CharSet := ⟨[(65, 90)]⟩

def foldAscii (s : CharSet) : CharSet :=
  .unionAll [s, ⟨(s.inter lowerAscii).ranges.map fun (a, b) => (a - 32, b - 32)⟩,
    ⟨(s.inter upperAscii).ranges.map fun (a, b) => (a + 32, b + 32)⟩]

/-- Adds what differs only in its case, if the case is to be ignored. -/
def fold (f : Flags) (s : CharSet) : CharSet :=
  if f.ignoreCase then (if f.unicode then s.foldCase else foldAscii s) else s

def foldAndNegate (f : Flags) (negated : Bool) (s : CharSet) : CharSet :=
  if negated then f.complement (f.fold s) else f.fold s

/-- A set of bytes may only hold those that are characters. -/
def checked? (f : Flags) (s : CharSet) : Option CharSet :=
  if f.unicode || s.ranges.all (·.2 < 128) then some s else none

def dot? (f : Flags) : Option CharSet :=
  let ends := if f.crlf then "\r\n" else "\n"
  f.checked? (f.complement (if f.dotAll then .empty else .ofString ends))

/-- A single character. One that is written as a byte may not lie beyond ASCII without Unicode. -/
def literal? (f : Flags) (c : Char) (isByte : Bool) : Option CharSet :=
  if f.unicode || c.toNat < 128 then some (f.fold (.singleton c))
  else if isByte then none
  else some (.singleton c)

/-- A single character of a class. -/
def member? (f : Flags) (c : Char) : Option Char :=
  if f.unicode || c.toNat < 128 then some c else none

def lineStart (f : Flags) : Look := if f.multiLine then .lineStart f.crlf else .textStart

def lineEnd (f : Flags) : Look := if f.multiLine then .lineEnd f.crlf else .textEnd

def asciiWord : CharSet := Table.charSet "30-39 41-5A 5F 61-7A"

def digit (f : Flags) : CharSet := if f.unicode then Category.digit else Table.charSet "30-39"

def space (f : Flags) : CharSet := if f.unicode then Property.whiteSpace else Table.charSet "9-D 20"

def word (f : Flags) : CharSet := if f.unicode then Property.word else asciiWord

end Flags

/-- The ASCII classes by their names. -/
def asciiClass? (name : String) : Option CharSet :=
  match name with
  | "alnum" => some (Table.charSet "30-39 41-5A 61-7A")
  | "alpha" => some (Table.charSet "41-5A 61-7A")
  | "ascii" => some (Table.charSet "0-7F")
  | "blank" => some (Table.charSet "9 20")
  | "cntrl" => some (Table.charSet "0-1F 7F")
  | "digit" => some (Table.charSet "30-39")
  | "graph" => some (Table.charSet "21-7E")
  | "lower" => some (Table.charSet "61-7A")
  | "print" => some (Table.charSet "20-7E")
  | "punct" => some (Table.charSet "21-2F 3A-40 5B-60 7B-7E")
  | "space" => some (Table.charSet "9-D 20")
  | "upper" => some (Table.charSet "41-5A")
  | "word" => some Flags.asciiWord
  | "xdigit" => some (Table.charSet "30-39 41-46 61-66")
  | _ => none

/-! Names of properties are compared without case, separators and a leading `is`. -/
namespace PropertyName

def startsWithIs : List Char → Bool
  | a :: b :: _ => a ∈ ['i', 'I'] && b ∈ ['s', 'S']
  | _ => false

def normalize (name : List Char) : String :=
  let hasIs := startsWithIs name
  let kept := (if hasIs then name.drop 2 else name).filter fun c =>
    c ∉ [' ', '_', '-'] && c.toNat < 128
  let lower := String.ofList (kept.map Char.toLower)
  if hasIs && lower = "c" then "isc" else lower

/-- The set of a single name: a property, a category or a script. -/
def single? (name : List Char) : Option CharSet :=
  let name := normalize name
  (Property.named? name).or ((Category.named? name).or (Script.named? name))

/-- The set of a property with a value. -/
def valued? (name value : List Char) : Option CharSet :=
  let value := normalize value
  match normalize name with
  | "generalcategory" | "gc" => Category.named? value
  | "script" | "sc" => Script.named? value
  | _ => none

/-- The text before a mark and the text after it. -/
def splitAt? (mark : List Char) : List Char → Option (List Char × List Char)
  | [] => none
  | c :: cs =>
    if mark.isPrefixOf (c :: cs) then some ([], (c :: cs).drop mark.length)
    else (splitAt? mark cs).map fun (a, b) => (c :: a, b)

/-- The set of what stands between the braces, and whether it is to be negated. -/
def query? (s : List Char) : Option (CharSet × Bool) :=
  match splitAt? ['!', '='] s with
  | some (name, value) => (valued? name value).map (·, true)
  | none =>
    match (splitAt? [':'] s).or (splitAt? ['='] s) with
    | some (name, value) => (valued? name value).map (·, false)
    | none => (single? s).map (·, false)

end PropertyName
end Regex
end TripleAlgebra

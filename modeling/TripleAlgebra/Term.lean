/-! Terms of a triple graph and their one-line text. -/
namespace TripleAlgebra

/-- What a literal carries beside its lexical form. -/
inductive LiteralKind
  | plain
  | tagged (language : String)
  | typed (datatype : String)
  deriving DecidableEq, Hashable, Repr, Inhabited

structure Literal where
  lexical : String
  kind : LiteralKind
  deriving DecidableEq, Hashable, Repr, Inhabited

inductive Term
  | iri (name : String)
  | blank (label : String)
  | literal (value : Literal)
  deriving DecidableEq, Hashable, Repr, Inhabited

namespace Vocabulary

def xsd (name : String) : String := "http://www.w3.org/2001/XMLSchema#" ++ name

def langString : String := "http://www.w3.org/1999/02/22-rdf-syntax-ns#langString"

end Vocabulary

namespace Literal

def plain (lexical : String) : Literal := ⟨lexical, .plain⟩

def tagged (lexical language : String) : Literal := ⟨lexical, .tagged language⟩

/-- A literal of datatype `xsd:string` is the plain literal. -/
def typed (lexical datatype : String) : Literal :=
  ⟨lexical, if datatype = Vocabulary.xsd "string" then .plain else .typed datatype⟩

/-- The datatype that the literal has by its kind. -/
def datatype (l : Literal) : String :=
  match l.kind with
  | .plain => Vocabulary.xsd "string"
  | .tagged _ => Vocabulary.langString
  | .typed d => d

def language? (l : Literal) : Option String :=
  match l.kind with
  | .tagged t => some t
  | _ => none

private def hexDigit (n : Nat) : Char :=
  if n < 10 then Char.ofNat (n + '0'.toNat) else Char.ofNat (n - 10 + 'A'.toNat)

/-- Control characters are written by a short name where they have one, else by four digits. -/
def escapeChar (c : Char) : List Char :=
  if c = '\\' then ['\\', '\\']
  else if c = '"' then ['\\', '"']
  else if c = '\n' then ['\\', 'n']
  else if c = '\r' then ['\\', 'r']
  else if c = '\t' then ['\\', 't']
  else if c.toNat = 8 then ['\\', 'b']
  else if c.toNat = 12 then ['\\', 'f']
  else if c.toNat < 32 ∨ c.toNat = 127 then
    ['\\', 'u', '0', '0', hexDigit (c.toNat / 16), hexDigit (c.toNat % 16)]
  else [c]

def quote (s : String) : String :=
  "\"" ++ String.ofList (s.toList.flatMap escapeChar) ++ "\""

def render (l : Literal) : String :=
  match l.kind with
  | .plain => quote l.lexical
  | .tagged t => quote l.lexical ++ "@" ++ t
  | .typed d => quote l.lexical ++ "^^<" ++ d ++ ">"

end Literal

namespace Term

def plain (s : String) : Term := .literal (.plain s)

def typed (lexical datatype : String) : Term := .literal (.typed lexical datatype)

def boolean (b : Bool) : Term :=
  typed (if b then "true" else "false") (Vocabulary.xsd "boolean")

def render : Term → String
  | .iri n => "<" ++ n ++ ">"
  | .blank b => "_:" ++ b
  | .literal l => l.render

end Term
end TripleAlgebra

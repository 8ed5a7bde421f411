import TripleAlgebra.Regex.Class

/-! Regular expressions as they are written. -/
namespace TripleAlgebra.Regex
open Text

/-- An expression with the depth to which its parts are nested. -/
structure Nested where
  regex : Regex
  depth : Nat

/-- The deepest nesting that is accepted. -/
def depthLimit : Nat := 250

namespace Nested

def leaf (r : Regex) : Nested := ⟨r, 0⟩

def join : Regex → Regex → Regex
  | .empty, s => s
  | r, .empty => r
  | r, s => .seq r s

def seqAll : List Nested → Nested
  | [] => leaf .empty
  | [a] => a
  | as => ⟨as.foldr (fun a r => join a.regex r) .empty, (as.map depth).foldl max 0 + 1⟩

/-- An expression that has a set of characters for each alternative is one set. -/
def merged? : List Nested → Option CharSet
  | [] => some .empty
  | ⟨.chars s, _⟩ :: as => (merged? as).map s.union
  | _ :: _ => none

def altAll : List Nested → Nested
  | [] => leaf .empty
  | [a] => a
  | a :: as =>
    ⟨match merged? (a :: as) with
      | some s => .chars s
      | none => as.foldl (fun r b => .alt r b.regex) a.regex,
      ((a :: as).map depth).foldl max 0 + 1⟩

/-- Repeating what has only empty matches is no more than having it once or not at all. -/
def times (a : Nested) (least : Nat) (most : Option Nat) : Nested :=
  let (least, most) :=
    if a.regex.isEmptyWidth then (min least 1, some (most.elim 1 (min · 1))) else (least, most)
  ⟨match least, most with
    | 0, some 0 => .empty
    | 1, some 1 => a.regex
    | least, most => .times a.regex least most,
    a.depth + 1⟩

end Nested

namespace Reader

/-- A decimal number with blanks around it, if there are any digits. -/
def number? : Reader (Option Nat) := do
  let _ ← takeAll Property.whiteSpace.contains (drop 1)
  let digits ← takeAll Char.isDigit next
  let _ ← takeAll Property.whiteSpace.contains next
  if digits.isEmpty then return none
  let n := digits.foldl (fun n c => 10 * n + (c.toNat - '0'.toNat)) 0
  guard (n < 0x100000000)
  return some n

/-- A mark that prefers few repetitions does not change whether there is a match. -/
def lazyMark : Reader Unit := do let _ ← take "?"

/-- The bounds in braces, the opening one of which comes next. -/
def bounds : Reader (Nat × Option Nat) := do
  next
  let least ← ofOption (← number?)
  let most ← do
    if (← current) = ',' then
      next
      if (← current) = '\x7d' then pure none else some <$> ofOption (← number?)
    else pure (some least)
  guard ((← current) = '\x7d')
  next
  lazyMark
  guard (most.all (least ≤ ·))
  return (least, most)

def isNameChar (first : Bool) (c : Char) : Bool :=
  c = '_' ||
    if first then Property.alphabetic.contains c
    else c ∈ ['.', '[', ']'] || Property.alphanumeric.contains c

/-- The name of a group up to its closing mark. No two groups have one name. -/
def groupName : Reader Unit := do
  let name ← takeAll (· ≠ '>') (drop 1)
  guard (← take ">")
  match name with
  | [] => failure
  | c :: cs => guard (isNameChar true c && cs.all (isNameChar false))
  let s ← get
  let name := String.ofList name
  guard (name ∉ s.names)
  set { s with names := name :: s.names }

/-- Flags, up to a colon or a closing parenthesis. Those after a hyphen are cleared. `seen` lists
what came before, latest first. -/
def groupFlags (seen : List Char) (f : Flags) : Nat → Reader (List Char × Flags)
  | 0 => failure
  | fuel + 1 => do
    let c ← current
    if c = ':' ∨ c = ')' then
      guard (seen.head? ≠ some '-')
      return (seen, f)
    guard (c ∉ seen)
    let f ← if c = '-' then pure f else ofOption (f.set? c ('-' ∉ seen))
    drop 1
    groupFlags (c :: seen) f fuel

/-- What an opening parenthesis begins. -/
inductive Opening
  | capturing
  | plain (f : Flags)
  | setting (f : Flags)

/-- There is no looking around. -/
def opening : Reader Opening := do
  next
  let cs ← rest
  guard (["?=", "?!", "?<=", "?<!"].all fun s => !s.toList.isPrefixOf cs)
  if (← take "?P<") || (← take "?<") then
    groupName
    return .capturing
  else if ← take "?" then
    let (seen, f) ← groupFlags [] (← flags) (cs.length + 1)
    let c ← current
    drop 1
    if c = ':' then return .plain f
    guard !seen.isEmpty
    return .setting f
  else return .capturing

def primitive : Reader Nested := do
  let f ← flags
  match ← current with
  | '\\' => do
    match ← escape with
    | .literal c isByte => return .leaf (.chars (← ofOption (f.literal? c isByte)))
    | .set s => return .leaf (.chars (← ofOption (f.checked? s)))
    | .look l => return .leaf (.look l)
  | '.' => do
    drop 1
    return .leaf (.chars (← ofOption f.dot?))
  | '^' => do
    drop 1
    return .leaf (.look f.lineStart)
  | '$' => do
    drop 1
    return .leaf (.look f.lineEnd)
  | c => do
    drop 1
    return .leaf (.chars (← ofOption (f.literal? c false)))

/-- The part before a repetition. There is none at the beginning and after flags. -/
def repeated (items : List (Option Nested)) (least : Nat) (most : Option Nat) :
    Reader (List (Option Nested)) :=
  match items with
  | some a :: rest => return some (a.times least most) :: rest
  | _ => failure

/-- The parts of one alternative, which are listed latest first. -/
def alternative (items : List (Option Nested)) : Nested :=
  .seqAll (items.reverse.map (·.getD (.leaf .empty)))

/-- Alternatives up to the end of a group or pattern. `before` lists the finished ones and `items`
the parts of the current one, latest first. -/
def body : Nat → List Nested → List (Option Nested) → Reader Nested
  | 0, _, _ => failure
  | fuel + 1, before, items => do
    skip
    match ← rest with
    | [] | ')' :: _ => return .altAll (alternative items :: before).reverse
    | '|' :: cs => do
      setRest cs
      body fuel (alternative items :: before) []
    | '(' :: _ => do
      let outer ← flags
      match ← opening with
      | .setting f => do
        setFlags f
        body fuel before (none :: items)
      | .plain f => do
        setFlags f
        let inner ← body fuel [] []
        guard (← take ")")
        setFlags outer
        body fuel before (some ⟨inner.regex, inner.depth + 1⟩ :: items)
      | .capturing => do
        let inner ← body fuel [] []
        guard (← take ")")
        setFlags outer
        body fuel before (some ⟨.group inner.regex, inner.depth + 1⟩ :: items)
    | '[' :: _ => do
      let s ← bracket fuel
      let s ← ofOption ((← flags).checked? s)
      body fuel before (some ⟨.chars s, 1⟩ :: items)
    | '?' :: cs => do
      setRest cs
      lazyMark
      body fuel before (← repeated items 0 (some 1))
    | '*' :: cs => do
      setRest cs
      lazyMark
      body fuel before (← repeated items 0 none)
    | '+' :: cs => do
      setRest cs
      lazyMark
      body fuel before (← repeated items 1 none)
    | '\x7b' :: _ => do
      let (least, most) ← bounds
      body fuel before (← repeated items least most)
    | _ => do
      let a ← primitive
      body fuel before (some a :: items)

end Reader

/-- The expression that a pattern stands for, if the pattern is valid. -/
def ofPattern? (f : Flags) (pattern : List Char) : Option Regex := do
  let (a, s) ← (Reader.body (pattern.length + 1) [] []).run { rest := pattern, flags := f }
  if s.rest.isEmpty ∧ a.depth ≤ depthLimit then some a.regex else none

end TripleAlgebra.Regex

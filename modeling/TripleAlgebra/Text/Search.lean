/-! Where one text occurs in another. -/
namespace TripleAlgebra.Text

def startsWith (s t : String) : Bool := t.toList.isPrefixOf s.toList

def endsWith (s t : String) : Bool := t.toList.isSuffixOf s.toList

def isWithin (t : List Char) : List Char → Bool
  | [] => t.isEmpty
  | c :: cs => t.isPrefixOf (c :: cs) || isWithin t cs

def contains (s t : String) : Bool := isWithin t.toList s.toList

end TripleAlgebra.Text

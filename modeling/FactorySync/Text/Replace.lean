/-!
# Replacing a pattern

Occurrences of a pattern are found from left to right and do not overlap.
-/

namespace FactorySync

/-- Replaces the first occurrence of `pattern`. An empty pattern occurs at the very start. -/
def replaceFirst (pattern new : List Char) : List Char → List Char
  | [] => if pattern.isEmpty then new else []
  | c :: cs =>
    if pattern.isPrefixOf (c :: cs) then new ++ (c :: cs).drop pattern.length
    else c :: replaceFirst pattern new cs

/-- Replaces every occurrence of a non-empty `pattern`, passing over the first `skip` characters,
which belong to an occurrence already replaced. -/
def replaceFrom (pattern new : List Char) : Nat → List Char → List Char
  | _, [] => []
  | skip + 1, _ :: cs => replaceFrom pattern new skip cs
  | 0, c :: cs =>
    if pattern.isPrefixOf (c :: cs) then new ++ replaceFrom pattern new (pattern.length - 1) cs
    else c :: replaceFrom pattern new 0 cs

/-- Replaces every occurrence of `pattern`; an empty pattern occurs nowhere. -/
def replaceAll (pattern new text : List Char) : List Char :=
  if pattern.isEmpty then text else replaceFrom pattern new 0 text

/-- Whether `text` ends with `tail`. -/
def endsWith (text tail : String) : Bool := tail.toList.isSuffixOf text.toList

/-- Whether `text` begins with `head`. -/
def startsWith (text head : String) : Bool := head.toList.isPrefixOf text.toList

end FactorySync

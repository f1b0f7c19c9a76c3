import FactorySync.Text.Span
import FactorySync.Token.Kind

/-!
# Tokens

A token is a stretch of source text with a kind and a value: the name of an identifier, the contents
of a string with its escapes carried out, the spelling of a number.
-/

namespace FactorySync

/-- What is remarkable about a token. -/
structure TokenFlags where
  /-- A line break stands between this token and the one before it. -/
  afterLineBreak : Bool := false
  /-- The closing quote, or what else ends the token, is missing. -/
  unterminated : Bool := false
  scientific : Bool := false
  hexadecimal : Bool := false
  binary : Bool := false
  octal : Bool := false
  /-- The number holds `_`. -/
  separated : Bool := false
  /-- The text holds a `\u` escape. -/
  unicodeEscape : Bool := false
  singleQuoted : Bool := false
  deriving Repr, DecidableEq, Inhabited

/-- The flags that either of two has. -/
def TokenFlags.union (a b : TokenFlags) : TokenFlags where
  afterLineBreak := a.afterLineBreak || b.afterLineBreak
  unterminated := a.unterminated || b.unterminated
  scientific := a.scientific || b.scientific
  hexadecimal := a.hexadecimal || b.hexadecimal
  binary := a.binary || b.binary
  octal := a.octal || b.octal
  separated := a.separated || b.separated
  unicodeEscape := a.unicodeEscape || b.unicodeEscape
  singleQuoted := a.singleQuoted || b.singleQuoted

structure Token where
  kind : Kind
  /-- The byte offset of the first character. -/
  start : Nat
  /-- The source text, as written. -/
  source : List Char
  value : String
  flags : TokenFlags
  deriving Repr, DecidableEq, Inhabited

namespace Token

/-- The byte offset after the last character. -/
def stop (t : Token) : Nat := t.start + byteLength t.source

def span (t : Token) : Span := ⟨t.start, t.stop⟩

def length (t : Token) : Nat := byteLength t.source

def isEmpty (t : Token) : Bool := t.start == t.stop

end Token

/-- Marks in front of a declaration. -/
structure Modifiers where
  exported : Bool := false
  ambient : Bool := false
  isPublic : Bool := false
  isPrivate : Bool := false
  isProtected : Bool := false
  isStatic : Bool := false
  isReadonly : Bool := false
  isAccessor : Bool := false
  isAbstract : Bool := false
  isAsync : Bool := false
  isDefault : Bool := false
  isConst : Bool := false
  isOverride : Bool := false
  deriving Repr, DecidableEq, Inhabited

namespace Modifiers

/-- The marks of either of two. -/
def union (a b : Modifiers) : Modifiers where
  exported := a.exported || b.exported
  ambient := a.ambient || b.ambient
  isPublic := a.isPublic || b.isPublic
  isPrivate := a.isPrivate || b.isPrivate
  isProtected := a.isProtected || b.isProtected
  isStatic := a.isStatic || b.isStatic
  isReadonly := a.isReadonly || b.isReadonly
  isAccessor := a.isAccessor || b.isAccessor
  isAbstract := a.isAbstract || b.isAbstract
  isAsync := a.isAsync || b.isAsync
  isDefault := a.isDefault || b.isDefault
  isConst := a.isConst || b.isConst
  isOverride := a.isOverride || b.isOverride

/-- The mark that a keyword makes; other tokens make none. -/
def ofKind : Kind → Modifiers
  | .exportKeyword => { exported := true }
  | .declareKeyword => { ambient := true }
  | .publicKeyword => { isPublic := true }
  | .privateKeyword => { isPrivate := true }
  | .protectedKeyword => { isProtected := true }
  | .staticKeyword => { isStatic := true }
  | .readonlyKeyword => { isReadonly := true }
  | .accessorKeyword => { isAccessor := true }
  | .abstractKeyword => { isAbstract := true }
  | .asyncKeyword => { isAsync := true }
  | .defaultKeyword => { isDefault := true }
  | .constKeyword => { isConst := true }
  | .overrideKeyword => { isOverride := true }
  | _ => {}

end Modifiers

end FactorySync

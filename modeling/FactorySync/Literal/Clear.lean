import FactorySync.Literal.Members
import FactorySync.Text.Edit
import FactorySync.Text.Replace

/-!
# Clearing

Taking the generated methods out of an object literal. A method is generated if its static name
begins with the given text; everything else stays byte for byte.
-/

namespace FactorySync

/-- A changed text, and the names of the members that were added or removed. -/
structure MemberChange where
  text : List Char
  names : List String
  deriving Repr, DecidableEq

namespace Member

/-- Whether the member is a method whose name begins with `lead`. -/
def isGenerated (lead : String) (m : Member) : Bool :=
  m.isMethod && m.name?.any (startsWith · lead)

end Member

namespace Node

/-- Takes the generated methods out of the text that the literal was read from. -/
def clearGenerated (text : List Char) (lead : String) (literal : Node) :
    Except Edit.Fault MemberChange := do
  let generated := literal.members.filter (·.isGenerated lead)
  let text ← Edit.applyAll text (generated.map fun m => .delete (m.removalSpan text))
  return { text, names := generated.filterMap (·.name?) }

end Node
end FactorySync

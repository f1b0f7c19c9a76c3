import FactorySync.Print.Layout
import FactorySync.Tree.Node

/-!
# Import declarations

An import declaration as data: what it binds and the module it names. Reading one off the tree
(`Import.ofNode`) and printing it (`Import.text`) lose only its layout and its attributes.
-/

namespace FactorySync

/-- One name in the braces of an import. -/
structure ImportItem where
  /-- The name the module exports. -/
  exported : String
  /-- The local name, where it is another one. -/
  renamed : Option String := none
  isTypeOnly : Bool := false
  deriving Repr, DecidableEq, Inhabited

namespace ImportItem

/-- The name that is bound in the importing file. -/
def localName (i : ImportItem) : String := i.renamed.getD i.exported

def text (i : ImportItem) : List Char :=
  (if i.isTypeOnly then "type ".toList else []) ++ i.exported.toList ++
    (match i.renamed with
      | some name => " as ".toList ++ name.toList
      | none => [])

def listText (items : List ImportItem) : List Char :=
  [',', ' '].intercalate (items.map text)

def ofNode (n : Node) : ImportItem where
  exported := n.specifiedName?.getD ""
  renamed := if (n.child? .propertyName).isSome then n.nameIn? .name else none
  isTypeOnly := n.isTypeOnly

end ImportItem

structure Import where
  isTypeOnly : Bool := false
  defaultName : Option String := none
  /-- The name after `* as`. -/
  namespaceName : Option String := none
  items : List ImportItem := []
  /-- The name of the module, as it is written. -/
  specifier : String
  deriving Repr, DecidableEq, Inhabited

namespace Import

/-- Whether nothing is bound, so that the module is only run. -/
def bindsNothing (i : Import) : Bool :=
  i.defaultName.isNone && i.namespaceName.isNone && i.items.isEmpty

/-- The names that are bound, in the order they are written. -/
def localNames (i : Import) : List String :=
  i.defaultName.toList ++ i.namespaceName.toList ++ i.items.map (·.localName)

/-- What stands between `import` and the module, if anything is bound. -/
def clauseText (i : Import) : List Char :=
  let braced := ['\x7b', ' '] ++ ImportItem.listText i.items ++ [' ', '\x7d']
  let bindings := match i.namespaceName with
    | some name => ["* as ".toList ++ name.toList]
    | none => if i.items.isEmpty then [] else [braced]
  [',', ' '].intercalate (i.defaultName.toList.map String.toList ++ bindings)

def text (quote : QuoteMark) (i : Import) : List Char :=
  "import ".toList ++ (if i.isTypeOnly then "type ".toList else []) ++
    (if i.bindsNothing then [] else i.clauseText ++ " from ".toList) ++
    quote.quoted i.specifier.toList ++ [';']

/-- The import that a declaration expresses. -/
def ofNode (n : Node) : Import :=
  let specifier := ((n.child? .moduleSpecifier).bind Node.propertyText?).getD ""
  match n.child? .importClause with
  | none => { specifier }
  | some clause =>
    let bindings := clause.child? .namedBindings
    let ofKind (k : Kind) : Option Node := bindings.filter (·.kind == k)
    { isTypeOnly := clause.isTypeOnly
      defaultName := clause.nameIn? .name
      namespaceName := (ofKind .namespaceImport).bind (·.nameIn? .name)
      items :=
        ((ofKind .namedImports).toList.flatMap (·.childrenIn .elements)).map ImportItem.ofNode
      specifier }

/-- The quote marks around the name of the module a declaration imports. -/
def quoteOf (n : Node) : QuoteMark :=
  match n.child? .moduleSpecifier with
  | some { detail := .string _ true, .. } => .single
  | _ => .double

end Import

end FactorySync

import FactorySync.Program.Interfaces

/-!
# Kinds of structures

The kind of a structure is the type of its property `kind`. Mostly the property is inherited from a
base with type parameters, so the type has to be read with the arguments that the bases were given.
-/

namespace FactorySync

/-- Types that stand for type parameters. -/
abbrev Bindings := List (String × Node)

namespace Bindings

/-- The type that a type stands for: another one exactly if it is the bare name of a bound type
parameter, up to parentheses. -/
def apply (b : Bindings) (type : Node) : Node :=
  let inner := type.inner
  if inner.kind = .typeReference ∧ ¬ inner.hasList .typeArguments then
    match (inner.nameIn? .typeName).bind (b.lookup ·) with
    | some bound => bound
    | none => type
  else type

/-- Binds type parameters to arguments, or else to their defaults. Of two parameters with one name
the later one counts. -/
def ofArguments (outer : Bindings) : List Node → List Node → Bindings
  | [], _ => []
  | parameter :: parameters, arguments =>
    let value := match arguments with
      | argument :: _ => some (outer.apply argument)
      | [] => parameter.child? .fallback
    ofArguments outer parameters arguments.tail ++
      value.toList.map (((parameter.nameIn? .name).getD ""), ·)

end Bindings

namespace Interface

/-- The first property `kind` over all declarations. -/
def kindProperty? (i : Interface) : Option Node :=
  (i.declarations.flatMap (·.childrenIn .members)).find? fun n =>
    n.kind == .propertySignature && n.memberName? == some "kind"

end Interface

namespace Program

/-- The type of the property `kind` of an interface, read with the given bindings. Interfaces on
`path` are those whose bases are being searched. `depth` bounds the length of the path. -/
def kindType? (p : Program) : Nat → List InterfaceId → Bindings → InterfaceId → Option Node
  | 0, _, _, _ => none
  | depth + 1, path, bindings, id => do
    if id ∈ path then none
    else
      let i ← p.interface? id
      match i.kindProperty? with
      | some property => return bindings.apply (← property.child? .declaredType)
      | none =>
        i.bases.findSome? fun base => do
          let baseId ← (base.child? .expression).bind (p.resolveInterface? id.file)
          let parameters := ((p.interface? baseId).map (·.typeParameters)).getD []
          let arguments := base.childrenIn .typeArguments
          p.kindType? depth (id :: path) (bindings.ofArguments parameters arguments) baseId

/-- The member of the kind enum that a type refers to. -/
def enumMember? (kindEnum : String) (type : Node) : Option String :=
  let inner := type.inner
  if inner.kind = .typeReference ∧ ¬ inner.hasList .typeArguments then do
    let (left, right) ← (← inner.child? .typeName).halves?
    if left = kindEnum then some right else none
  else none

/-- The kind of a structure. No path through its bases is longer than the list of interfaces, since
none occurs twice on it. -/
def kind? (p : Program) (kindEnum : String) (id : InterfaceId) : Option String :=
  (p.kindType? (p.interfaces.length + 1) [] [] id).bind (enumMember? kindEnum)

end Program
end FactorySync

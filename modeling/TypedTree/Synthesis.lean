/-
Schemas made from grammars.

Every node type becomes a product that reads records tagged with its name, every alias
group the union of its members; the types of fields come from their descriptors. Main
definitions:

* `Synthesis.resolve` — the type of a descriptor;
* `Synthesis.field` — the field of a product for a field of a node type;
* `Grammar.synthesize` — all types of a grammar, declared and defined on top of what a
  builder holds already. What was done before a failure stays done.
-/
import TypedTree.Grammar.Basic
import TypedTree.Schema.Builder
import TypedTree.Schema.Error

namespace TypedTree

namespace Synthesis

/-- Why a descriptor has no type. -/
inductive Failure where
  | unsupported (detail : String)
  | unknownReference (name : String)

/-- The failure at a field of a type. -/
def Failure.at (type field : String) : Failure → SchemaError
  | unsupported detail => .unsupportedDescriptor type field detail
  | unknownReference name => .unknownReference type field name

/-- The making of a type for a descriptor. -/
abbrev Resolving := ExceptT Failure Building

/-- The type of a kind of values. -/
def kind (name : String) : Resolving TypeId :=
  if name = "object" then Builder.primitive .any
  else if name = "array" then do
    let any ← Builder.primitive .any
    Builder.arrayOf any
  else
    match Primitive.ofName? name with
    | some kind => Builder.primitive kind
    | none => throw (.unsupported s!"unknown primitive kind `{name}`")

/-- The type of a node type or alias group. -/
def reference (g : Grammar) (name : String) : Resolving TypeId :=
  if g.isType name || g.isGroup name then Builder.declare name
  else throw (.unknownReference name)

/-- The type of a node type or alias group, whose names have capitals, or of a kind of
values. -/
def referenceOrKind (g : Grammar) (name : String) : Resolving TypeId :=
  if name.toList.any Char.isUpper then reference g name else kind name

/-- The union of what the names stand for, of which there has to be one. -/
def unionOfNames (names : List String) (complaint : String) (type : String → Resolving TypeId) :
    Resolving TypeId := do
  if names.isEmpty then throw (.unsupported complaint)
  let members ← names.mapM type
  Builder.unionOf members

mutual

/-- The type of a descriptor. -/
def resolve (g : Grammar) : Descriptor → Resolving TypeId
  | .kind name => kind name
  | .nodeTypes names => unionOfNames names "empty node type list" (reference g)
  | .nodeOrValueTypes names =>
    unionOfNames names "empty node or value type list" (referenceOrKind g)
  | .oneOf [] => throw (.unsupported "empty value enum")
  | .oneOf (first :: _) => Builder.primitive (.ofLiteral first)
  | .chain [] => throw (.unsupported "chain of empty validators")
  | .chain (head :: rest) =>
    if head.isArrayKind then do
      let item ← resolveItem g rest
      Builder.arrayOf item
    else resolveFirst g (head :: rest)
  | .shapeOf _ => Builder.primitive .any
  | .each _ => throw (.unsupported "`each` outside an array chain")
  | .empty => throw (.unsupported "empty validator")
  | .unrecognized keys =>
    throw (.unsupported ("unrecognized keys: " ++ ", ".intercalate keys))

/-- The type of the items of an array, from what follows the head of its chain. -/
def resolveItem (g : Grammar) : List Descriptor → Resolving TypeId
  | [] => Builder.primitive .any
  | .each item :: _ => resolve g item
  | other :: _ => resolve g other

/-- The type of the first link of a chain that says something. -/
def resolveFirst (g : Grammar) : List Descriptor → Resolving TypeId
  | [] => throw (.unsupported "chain of empty validators")
  | link :: rest => if link.isEmpty then resolveFirst g rest else resolve g link

end

/-- The making of the types of a grammar. -/
abbrev Synthesizing := ExceptT SchemaError Building

/-- The field of a product for a field of a node type. An optional field is nullable
and has a default, `null` unless the grammar gives another. -/
def field (g : Grammar) (type : String) (f : GrammarField) : Synthesizing Field := do
  let some descriptor := f.descriptor | throw (.missingDescriptor type f.name)
  let base ← ExceptT.adapt (Failure.at type f.name) (resolve g descriptor)
  if f.optional then
    let nullable ← Builder.nullable base
    return .withDefault f.name nullable ((f.default.map Value.ofLiteral).getD .null)
  else
    match f.default with
    | some literal => return .withDefault f.name base (.ofLiteral literal)
    | none => return .required f.name base

/-- The fields of a type that may not be left out. -/
def kept (ignored : List (String × String)) (type : String) (fields : List GrammarField) :
    List GrammarField :=
  fields.filter fun f => !ignored.contains (type, f.name)

/-- Defines one name of a grammar. -/
def define (g : Grammar) (ignored : List (String × String)) (name : String) :
    Synthesizing Unit := do
  match g.membersOf? name, g.fieldsOf? name with
  | some members, _ =>
    let alternatives ← members.mapM fun member => Builder.declare member
    let id ← Builder.declare name
    Builder.define id (.union alternatives)
  | none, some fields =>
    let fields ← (kept ignored name fields).mapM (field g name)
    let id ← Builder.declare name
    Builder.define id (.product { source := { tag := name }, fields })
  | none, none => return ()

end Synthesis

/-- Declares all names of a grammar, then defines them, leaving out the ignored fields.
Types that are known already keep their handles and get new bodies. -/
def Grammar.synthesize (g : Grammar) (ignored : List (String × String)) :
    Synthesis.Synthesizing Unit := do
  g.names.forM fun name => do
    let _ ← Builder.declare name
  g.names.forM (Synthesis.define g ignored)

end TypedTree

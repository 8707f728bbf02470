/-
Grammars: node types with their fields, and alias groups of node types.

A grammar table lists for each type the groups it belongs to. Main definitions:

* `Descriptor` — what a table says about the values of a field;
* `GrammarTable` — the table as written;
* `Grammar.ofTable` — the grammar of a table, with memberships turned into lists of
  members, groups in the order of first mention and members in the order of the table.
-/
import TypedTree.Entries
import TypedTree.Json.Basic

namespace TypedTree

/-- What a grammar says about the values of a field. -/
inductive Descriptor where
  /-- Values of one kind. -/
  | kind (name : String)
  /-- Nodes of the given types or groups. -/
  | nodeTypes (names : List String)
  /-- Nodes of the given types or groups, or values of the given kinds. -/
  | nodeOrValueTypes (names : List String)
  /-- One of the given literals. -/
  | oneOf (values : List Json)
  /-- All of the given descriptors. -/
  | chain (links : List Descriptor)
  /-- Every item of an array. -/
  | each (item : Descriptor)
  /-- An object of some form. -/
  | shapeOf (form : Json)
  /-- Nothing. -/
  | empty
  /-- Something else, under the given keys. -/
  | unrecognized (keys : List String)

namespace Descriptor

/-- Whether nothing is said. -/
def isEmpty : Descriptor → Bool
  | empty => true
  | _ => false

/-- Whether this asks for an array, as the head of a chain over its items does. -/
def isArrayKind : Descriptor → Bool
  | kind name => name == "array"
  | _ => false

end Descriptor

/-- A field of a node type. -/
structure GrammarField where
  name : String
  descriptor : Option Descriptor := none
  optional : Bool := false
  /-- A literal other than `null` for when the field is absent. -/
  default : Option Json := none

/-- A node type as a table lists it. -/
structure TableType where
  aliases : List String := []
  fields : List GrammarField := []

/-- A grammar as a table lists it. -/
structure GrammarTable where
  name : String
  types : List (String × TableType)

/-- A grammar. -/
structure Grammar where
  name : String
  types : List (String × List GrammarField)
  /-- The alias groups and their members. -/
  groups : List (String × List String)

namespace Grammar

/-- The groups with a type among the members of one of them. -/
def addMember (type : String) (groups : List (String × List String)) (group : String) :
    List (String × List String) :=
  let members := (groups.lookup group).getD []
  Entries.set groups group (if type ∈ members then members else members ++ [type])

/-- The groups with a type among the members of those it names. -/
def addType (groups : List (String × List String)) (entry : String × TableType) :
    List (String × List String) :=
  entry.2.aliases.foldl (addMember entry.1) groups

/-- The grammar of a table. -/
def ofTable (table : GrammarTable) : Grammar where
  name := table.name
  types := table.types.map fun (name, type) => (name, type.fields)
  groups := table.types.foldl addType []

/-- The fields of a node type. -/
def fieldsOf? (g : Grammar) (type : String) : Option (List GrammarField) := g.types.lookup type

/-- The members of an alias group. -/
def membersOf? (g : Grammar) (group : String) : Option (List String) := g.groups.lookup group

/-- Whether a name is that of a group. -/
def isGroup (g : Grammar) (name : String) : Bool := (g.membersOf? name).isSome

/-- Whether a name is that of a node type. -/
def isType (g : Grammar) (name : String) : Bool := (g.fieldsOf? name).isSome

/-- The node types in the order of the table, then the groups that are not node types
in the order of first mention. -/
def names (g : Grammar) : List String :=
  g.types.map (·.1) ++ (g.groups.map (·.1)).filter fun name => !g.isType name

/-- The number of node types. -/
def size (g : Grammar) : Nat := g.types.length

end Grammar

end TypedTree

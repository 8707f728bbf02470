/-
The catalogue as a registry.

Main definitions:

* `Grammar.registry` — the schema made from a grammar alone;
* `Catalogue.synthesized` — that of the ESTree grammar;
* `Catalogue.full` — the same with the types of the catalogue in place of those that
  it refines.
-/
import TypedTree.Catalogue.Expressions
import TypedTree.Catalogue.Objects
import TypedTree.Catalogue.Patterns
import TypedTree.Catalogue.Statements
import TypedTree.Schema.Registry

namespace TypedTree

/-- The registry of the schema that a computation builds from nothing. -/
def freezeBuilt (building : Synthesis.Synthesizing Unit) : Except SchemaError Registry :=
  match building.run {} with
  | (.ok (), b) => b.freeze
  | (.error e, _) => .error e

/-- The schema made from a grammar alone. -/
def Grammar.registry (g : Grammar) : Except SchemaError Registry :=
  freezeBuilt (g.synthesize [])

namespace Catalogue

/-- The catalogue on top of the schema of its grammar. -/
def build : Synthesis.Synthesizing Unit := do
  Grammar.estree.synthesize []
  let t ← common
  expressions t
  objects t
  patterns t
  statements t

/-- The schema made from the grammar alone. -/
def synthesized : Except SchemaError Registry := Grammar.estree.registry

/-- The whole catalogue. -/
def full : Except SchemaError Registry := freezeBuilt build

end Catalogue

end TypedTree

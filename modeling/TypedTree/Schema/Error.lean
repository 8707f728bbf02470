/-
Faults of a schema.

Each fault names the type it was found in; `SchemaError.message` is its text.
-/

namespace TypedTree

/-- Why a schema cannot be synthesized or frozen. -/
inductive SchemaError where
  | missingDescriptor (type field : String)
  | unsupportedDescriptor (type field detail : String)
  | unknownReference (type field name : String)
  | undefined (type : String)
  | duplicateField (type field : String)
  | unknownDependency (type field dependency : String)
  | dependencyCycle (type : String) (fields : List String)
  /-- A union without alternatives, or an inspect shape without arms. -/
  | emptyUnion (type : String)
  /-- A type that asks itself to translate the same source value. -/
  | unionCycle (type : String)
  /-- A target of an inspect shape that does not read the inspected key. -/
  | inspectField (type field target : String)
deriving DecidableEq, Repr

/-- The text of a fault. -/
def SchemaError.message : SchemaError → String
  | missingDescriptor type field => s!"`{type}.{field}` has no validator"
  | unsupportedDescriptor type field detail =>
    s!"`{type}.{field}`: unsupported validator ({detail})"
  | unknownReference type field name => s!"`{type}.{field}` references unknown type `{name}`"
  | undefined type => s!"type `{type}` is declared but never defined"
  | duplicateField type field => s!"duplicate field `{field}` in `{type}`"
  | unknownDependency type field dependency =>
    s!"computed field `{type}.{field}` depends on unknown field `{dependency}`"
  | dependencyCycle type fields =>
    s!"computed fields of `{type}` form a cycle: " ++ " -> ".intercalate fields
  | emptyUnion type => s!"union `{type}` has no alternatives"
  | unionCycle type => s!"union `{type}` contains itself"
  | inspectField type field target =>
    s!"inspect type `{type}` probes `{field}`, which `{target}` does not read"

end TypedTree

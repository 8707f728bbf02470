/-
A listing of a registry.

Main definition:

* `Registry.dump` — the named products, unions and inspect shapes in the order of
  declaration. Structural types appear only inside others, by name.
-/
import TypedTree.Json.Printer
import TypedTree.Schema.Registry

namespace TypedTree

namespace Registry

/-- The line of a field: its type, and where it reads from or what it depends on. -/
def dumpField (reg : Registry) (field : Field) : String :=
  let start := s!"  {field.name}: " ++ reg.name field.type
  match field.population with
  | .computed rule => start ++ " := (" ++ ", ".intercalate rule.dependencies ++ ")\n"
  | population =>
    let source :=
      match field.source with
      | .key key => if key = field.name then "" else " <- " ++ key
      | .extract extraction => " <- extract(" ++ extraction.pathKey ++ ")"
    let default :=
      match population with
      | .default value => " = " ++ (value.toJson false).compact
      | .required | .computed _ => ""
    start ++ source ++ default ++ "\n"

/-- The lines of a product. -/
def dumpProduct (reg : Registry) (name : String) (p : Product) : String :=
  let literals := p.source.literals.map fun (key, value) => key ++ " = " ++ value.compact
  let pattern := if literals.isEmpty then "" else "[" ++ ", ".intercalate literals ++ "]"
  let start := name ++ " = " ++ p.source.tag ++ pattern
  if p.fields.isEmpty then start ++ " \x7b\x7d\n"
  else start ++ " \x7b\n" ++ String.join (p.fields.map reg.dumpField) ++ "\x7d\n"

/-- The lines of a type. -/
def dumpType (reg : Registry) (d : TypeDef) : String :=
  if d.structural then ""
  else
    match d.shape with
    | .product p => reg.dumpProduct d.name p
    | .union alternatives =>
      d.name ++ " = " ++ " | ".intercalate (alternatives.map reg.name) ++ "\n"
    | .inspect i =>
      d.name ++ " = inspect " ++ i.field ++ " as " ++ reg.name i.probe ++ " \x7b\n" ++
        String.join (i.arms.map fun arm =>
          "  " ++ reg.name arm.test ++ " => " ++ reg.name arm.target ++ "\n") ++ "\x7d\n"
    | .primitive _ | .array _ | .nullable _ | .nameSet => ""

/-- The listing of all named types. -/
def dump (reg : Registry) : String := String.join (reg.defs.toList.map reg.dumpType)

end Registry

end TypedTree

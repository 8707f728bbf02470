/-
Failures of a translation.

Main definitions:

* `Rejection` — the first place where a source does not fit: what was expected there
  and what was found;
* `TranslationError` — a rejection, nodes nested too deep, or a type that does not
  exist;
* `TranslationError.rejectedAt` — whether a failure is a rejection at a given path,
  which is what lets a union go on to its next alternative.
-/
import TypedTree.Json.Printer
import TypedTree.Path

namespace TypedTree

/-- What a failed step was looking for. -/
inductive Expected where
  | type (name : String)
  /-- The exact value of an entry of a source pattern. -/
  | literal (value : Json)

/-- A summary of the source value at fault. -/
inductive Found where
  | missing
  /-- A tagged record. -/
  | node (tag : String)
  | value (source : Json)

/-- The summary of a source value that may be missing. -/
def Found.of : Option Json → Found
  | none => missing
  | some source =>
    match source.tag? with
    | some tag => node tag
    | none => value source

/-- Why a value was rejected: it does not have the shape, or no alternative of a union
takes it. -/
inductive Rejection.Kind where
  | mismatch
  | exhausted
deriving DecidableEq, Repr

/-- The first place where a source does not fit. -/
structure Rejection where
  kind : Rejection.Kind
  expected : Expected
  path : Path
  found : Found

/-- Why a translation failed. -/
inductive TranslationError where
  | rejected (rejection : Rejection)
  | recursionLimit (path : Path)
  | unknownType (name : String)

/-- Whether a failure is a rejection at the path itself. -/
def TranslationError.rejectedAt (path : Path) : TranslationError → Bool
  | rejected r => r.path = path
  | recursionLimit _ | unknownType _ => false

/-! ### Texts -/

/-- The text of an expectation. -/
def Expected.render : Expected → String
  | type name => s!"type `{name}`"
  | literal value => "`" ++ value.compact ++ "`"

/-- The text of what was found; a string is given without quotes. -/
def Found.render : Found → String
  | missing => "undefined"
  | node tag => s!"[Node {tag}]"
  | value (.str s) => s
  | value source => source.compact

/-- The text of a rejection. -/
def Rejection.message (r : Rejection) : String :=
  "expected " ++ r.expected.render ++ " at `" ++ r.path.render ++ "`, but found: " ++
    r.found.render

/-- The text of a failure. -/
def TranslationError.message : TranslationError → String
  | rejected r => r.message
  | recursionLimit path => "recursion limit exceeded at `" ++ path.render ++ "`"
  | unknownType name => s!"unknown type `{name}`"

end TypedTree

/-
Running commands.

A command may need a text from outside; what it then prints depends on that text alone.
Main definitions:

* `Command.input` — the text that a command needs;
* `Command.run` — what a command prints, given its text;
* `CommandError` — what can go wrong, and how it is reported.
-/
import TypedTree.Catalogue.Registry
import TypedTree.CommandLine.Command
import TypedTree.Grammar.Builtin
import TypedTree.Grammar.Table
import TypedTree.Schema.Dump
import TypedTree.Translation.Basic

namespace TypedTree

/-- Where a text comes from. -/
inductive Input where
  | none
  | inline (text : String)
  | file (path : String)
  | standard
deriving DecidableEq

/-- What can go wrong with a command. -/
inductive CommandError where
  /-- A text could not be got; `reason` is the system's. -/
  | unreadable (input : Input) (reason : String)
  | invalidJson (input : Input) (error : Json.ReadError)
  | unknownGrammar (name : String)
  | invalidTable (path : String) (error : TableError)
  | schema (error : SchemaError)
  | translation (error : TranslationError)

/-- A report in two parts: what is at fault, and the details of a text at fault. -/
structure Report where
  text : String
  detail : Option String := none

namespace CommandError

/-- How an input is named in reports. -/
def origin : Input → String
  | .inline _ => "inline source"
  | .file path => "'" ++ path ++ "'"
  | .standard | .none => "stdin"

/-- The details of a text that is not JSON. -/
def readDetail : Json.ReadError → String
  | .endOfText => "the text ends inside a value"
  | .invalid => "the text is malformed"

/-- The details of a text that is no grammar table. -/
def tableDetail : TableError → String
  | .malformed error => readDetail error
  | error => error.message

/-- The report of an unknown grammar, with the one that was probably meant. -/
def unknownGrammarText (name : String) : String :=
  let hint :=
    match Grammar.suggestion? name with
    | some g => "\n\nDid you mean '" ++ g.name ++ "'?"
    | none => ""
  "unknown grammar: '" ++ name ++ "'" ++ hint ++
    "\n\nRun 'treecast grammars' for the full list."

/-- The report of what went wrong. -/
def report : CommandError → Report
  | unreadable (.file path) reason => { text := s!"failed to read '{path}': " ++ reason }
  | unreadable _ reason => { text := "failed to read stdin: " ++ reason }
  | invalidJson input error =>
    { text := "invalid JSON in " ++ origin input ++ ": ", detail := readDetail error }
  | unknownGrammar name => { text := unknownGrammarText name }
  | invalidTable path error =>
    { text := s!"invalid grammar table '{path}': JSON parse error: ", detail := tableDetail error }
  | schema error => { text := error.message }
  | translation error => { text := error.message }

end CommandError

namespace Command

/-- The source that arguments name: their text, else their file, where a dash is the
standard input, which is also read if there is neither. -/
def sourceInput (args : SourceArguments) : Input :=
  match args.text, args.path with
  | some text, _ => .inline text
  | none, some path => if path = "-" then .standard else .file path
  | none, none => .standard

/-- The text that a command needs. -/
def input : Command → Input
  | grammars => .none
  | schema args => (args.grammarFile.map .file).getD .none
  | translate source _ _ | check source => sourceInput source

/-- The builtin grammars, with the numbers of their node types. -/
def listGrammars : String :=
  let lines := Grammar.builtins.map fun b =>
    "  " ++ b.grammar.name ++ " (" ++ toString b.grammar.size ++ " node types)\n"
  "Builtin grammars (" ++ toString Grammar.builtins.length ++ "):\n" ++ String.join lines

/-- A registry, or the fault of its schema. -/
def schemaResult (registry : Except SchemaError Registry) : Except CommandError Registry :=
  match registry with
  | .ok reg => .ok reg
  | .error e => .error (.schema e)

/-- The grammar that is shown unless another is named, and that the catalogue
refines. -/
def defaultGrammar : String := "estree"

/-- The registry to show. A grammar table from outside, and any grammar but the default
one, has no catalogue. -/
def shownRegistry (args : SchemaArguments) (text : String) : Except CommandError Registry :=
  match args.grammarFile with
  | some path =>
    match Grammar.read text with
    | .ok g => schemaResult g.registry
    | .error e => .error (.invalidTable path e)
  | none =>
    let name := args.grammar.getD defaultGrammar
    match Grammar.builtin? name with
    | none => .error (.unknownGrammar name)
    | some g =>
      if args.synthesized || g.name != defaultGrammar then schemaResult g.registry
      else schemaResult Catalogue.full

/-- The value of a source tree under the catalogue. -/
def translated (source : SourceArguments) (text : String) : Except CommandError Value := do
  let reg ← schemaResult Catalogue.full
  match Json.read text with
  | .error e => throw (.invalidJson (sourceInput source) e)
  | .ok json =>
    match reg.translateNamed (source.maxDepth.getD Registry.defaultLimit) source.typeName json with
    | .ok value => return value
    | .error e => throw (.translation e)

/-- What a command prints, given the text that it needs. -/
def run (command : Command) (text : String) : Except CommandError String :=
  match command with
  | grammars => .ok listGrammars
  | schema args => (shownRegistry args text).map Registry.dump
  | translate source metadata compact =>
    (translated source text).map fun value =>
      let json := value.toJson metadata
      (if compact then json.compact else json.pretty) ++ "\n"
  | check source => (translated source text).map fun value => "ok: " ++ value.kindName ++ "\n"

end Command

end TypedTree

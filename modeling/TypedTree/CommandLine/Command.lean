/-
The commands of the program.

Main definitions:

* `Command` — what the program is asked to do;
* `Invocation.parse` — the command and its arguments in the words of a command line.
-/
import TypedTree.CommandLine.Usage

namespace TypedTree

/-- Which source tree, as which type, and how deep. -/
structure SourceArguments where
  path : Option String
  text : Option String
  typeName : String
  maxDepth : Option Nat

/-- Which schema to show. -/
structure SchemaArguments where
  grammar : Option String
  grammarFile : Option String
  synthesized : Bool

/-- What the program is asked to do. -/
inductive Command where
  | grammars
  | schema (args : SchemaArguments)
  | translate (source : SourceArguments) (metadata compact : Bool)
  | check (source : SourceArguments)

/-- A command, and how often more words about the work were asked for. -/
structure Invocation where
  verbosity : Nat
  command : Command

namespace Command

/-- The help of any command. -/
def help : Parameter := { name := "help", letter := some 'h', long := some "help", kind := .help }

/-- More words about the work. -/
def verbose : Parameter := { name := "verbose", letter := some 'v', kind := .tally }

/-- Which builtin grammar. -/
def grammar : Parameter :=
  { name := "grammar", letter := some 'g', long := some "grammar", kind := .text }

/-- Which grammar table on disk. -/
def grammarFile : Parameter :=
  { name := "grammar_file", long := some "grammar-file", kind := .path }

/-- Leaves the catalogue out. -/
def synthesized : Parameter :=
  { name := "synthesized", long := some "synthesized", kind := .flag }

/-- The file of the source tree. -/
def sourcePath : Parameter := { name := "source_path", kind := .path }

/-- The source tree itself. -/
def sourceText : Parameter :=
  { name := "source_text", letter := some 's', long := some "source", kind := .text }

/-- The type of the root. -/
def typeName : Parameter :=
  { name := "type", letter := some 't', long := some "type", kind := .text }

/-- Keeps metadata in the output. -/
def metadata : Parameter := { name := "metadata", long := some "metadata", kind := .flag }

/-- Writes the output without spaces. -/
def compact : Parameter := { name := "compact", long := some "compact", kind := .flag }

/-- How deep nodes may nest. -/
def maxDepth : Parameter := { name := "max_depth", long := some "max-depth", kind := .natural }

/-- What every command takes. -/
def common : List Parameter := [verbose, help]

/-- What `grammars` takes. -/
def grammarsUsage : Usage := { options := common }

/-- What `schema` takes. -/
def schemaUsage : Usage where
  options := [grammar, grammarFile, synthesized] ++ common
  exclusive := [("grammar", "grammar_file")]

/-- What `translate` and `check` take. The latter has no use for the flags about
output. -/
def sourceUsage : Usage where
  options := [sourceText, typeName, metadata, compact, maxDepth] ++ common
  positional := some sourcePath
  exclusive := [("source_text", "source_path")]

/-- The type of the root unless another is named. -/
def defaultType : String := "Program"

/-- The source tree that arguments name. -/
def sourceArguments (args : Arguments) : SourceArguments where
  path := args.value? "source_path"
  text := args.value? "source_text"
  typeName := (args.value? "type").getD defaultType
  maxDepth := (args.value? "max_depth").bind Usage.natural?

/-- The schema that arguments name. -/
def schemaArguments (args : Arguments) : SchemaArguments where
  grammar := args.value? "grammar"
  grammarFile := args.value? "grammar_file"
  synthesized := args.flag "synthesized"

/-- The commands by name: what they take, and what they make of it. -/
def all : List (String × Usage × (Arguments → Command)) :=
  [("grammars", grammarsUsage, fun _ => .grammars),
    ("schema", schemaUsage, fun args => .schema (schemaArguments args)),
    ("translate", sourceUsage, fun args =>
      .translate (sourceArguments args) (args.flag "metadata") (args.flag "compact")),
    ("check", sourceUsage, fun args => .check (sourceArguments args))]

/-- Whether a word names a command, the one that shows help included. -/
def isName (word : String) : Bool := word = "help" || (all.lookup word).isSome

end Command

namespace Invocation

/-- What may stand before a command. -/
def outerUsage : Usage := { options := Command.common }

/-- What is asked of the command that shows help: the help of a command, or of
itself. -/
def helpFor : List String → UsageError
  | [] => .displayHelp
  | [word] => if Command.isName word then .displayHelp else .unknownCommand
  | _ => .unknownCommand

/-- The end of the words without a command. -/
def withoutCommand (st : Usage.State) : UsageError :=
  if st.args.count = 0 then .noArguments else .missingCommand

/-- The command in the words that follow others. The count given behind a command
counts, if there is one, instead of the count before it. -/
def parseFrom (st : Usage.State) : List String → Except UsageError Invocation
  | [] => .error (withoutCommand st)
  | word :: rest =>
    if st.trailing then
      .error (if Command.isName word then .unknownArgument else .unknownCommand)
    else if word = "help" then .error (helpFor rest)
    else
      match Command.all.lookup word with
      | some (usage, command) => do
        let args ← usage.parse rest
        return {
          verbosity := if args.count = 0 then st.args.count else args.count
          command := command args }
      | none =>
        match word.toList with
        | '-' :: _ :: _ => do
          let st ← outerUsage.word st word
          parseFrom st rest
        | _ => .error .unknownCommand

/-- The command in the words of a command line. -/
def parse (words : List String) : Except UsageError Invocation := parseFrom {} words

end Invocation

end TypedTree

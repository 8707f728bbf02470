/-
The words of a command line.

Main definitions:

* `Parameter` and `Usage` — what a command takes: options by a letter or a name, and
  one word of its own;
* `UsageError` — what can be wrong with the words of a command line;
* `Usage.parse` — the values and flags among the words that follow a command.

A value can be attached to its option (`-tX`, `-t=X`, `--type=X`) or be the next word,
unless that looks like an option. Letters of options without a value can be put
together. After `--` no word is an option.

Design notes: an option's next word is kept back until something else is met, and only
then looked at; so a fault of its value comes after an option that does not exist and
before everything else.
-/

namespace TypedTree

/-- What a parameter does with what it is given. -/
inductive ParameterKind where
  /-- Shows the help. -/
  | help
  /-- Counts how often it is given. -/
  | tally
  /-- Is given or not. -/
  | flag
  /-- Takes any text. -/
  | text
  /-- Takes a path, which is not empty. -/
  | path
  /-- Takes a natural number of 64 bits. -/
  | natural
deriving DecidableEq

/-- A parameter of a command. -/
structure Parameter where
  name : String
  letter : Option Char := none
  long : Option String := none
  kind : ParameterKind

/-- What is wrong with the words of a command line. -/
inductive UsageError where
  /-- Nothing: help was asked for. -/
  | displayHelp
  /-- There are no words. -/
  | noArguments
  | missingCommand
  | unknownCommand
  | unknownArgument
  /-- An option without its value, or an empty path. -/
  | missingValue
  /-- A value that is no number. -/
  | invalidNumber
  /-- An option given twice, or two that exclude each other. -/
  | conflict
  /-- A value attached to an option that takes none. -/
  | surplusValue
deriving DecidableEq, Repr

/-- Asking for help is no failure. -/
def UsageError.status : UsageError → Nat
  | displayHelp => 0
  | _ => 2

/-- The values, flags and count found among words. -/
structure Arguments where
  values : List (String × String) := []
  flags : List String := []
  count : Nat := 0

namespace Arguments

/-- The value of a parameter. -/
def value? (args : Arguments) (name : String) : Option String := args.values.lookup name

/-- Whether a flag is given. -/
def flag (args : Arguments) (name : String) : Bool := name ∈ args.flags

/-- The largest count. -/
def countLimit : Nat := 255

end Arguments

/-- What a command takes. -/
structure Usage where
  options : List Parameter
  positional : Option Parameter := none
  /-- Pairs of parameters that exclude each other. -/
  exclusive : List (String × String) := []

/-- The state between two words. -/
structure Usage.State where
  args : Arguments := {}
  /-- A parameter whose value is not yet looked at, or not yet there. -/
  pending : Option (Parameter × Option String) := none
  /-- Whether `--` was met. -/
  trailing : Bool := false
  /-- Whether the command's own word was met. -/
  filled : Bool := false

namespace Usage

/-- The number that a text writes in decimal digits, with or without a plus sign, if it
has 64 bits. -/
def natural? (text : String) : Option Nat :=
  let digits :=
    match text.toList with
    | '+' :: rest => rest
    | chars => chars
  if digits.isEmpty || !digits.all Char.isDigit then none
  else
    let value := digits.foldl (fun n c => n * 10 + (c.toNat - 48)) 0
    if value < Nat.pow 2 64 then some value else none

/-- The arguments with a value more. -/
def store (args : Arguments) (p : Parameter) (value : String) : Except UsageError Arguments :=
  if (args.value? p.name).isSome then .error .conflict
  else
    let stored : Arguments := { args with values := args.values ++ [(p.name, value)] }
    match p.kind with
    | .path => if value.isEmpty then .error .missingValue else .ok stored
    | .natural => if (natural? value).isSome then .ok stored else .error .invalidNumber
    | _ => .ok stored

/-- Looks at what is pending. -/
def settle (st : State) : Except UsageError State :=
  match st.pending with
  | none => .ok st
  | some (_, none) => .error .missingValue
  | some (p, some value) => do
    let args ← store st.args p value
    return { st with args, pending := none }

/-- Whether a parameter takes a value. -/
def takesValue (p : Parameter) : Bool := p.kind ∈ [.text, .path, .natural]

/-- Meets a parameter that takes no value. -/
def meet (st : State) (p : Parameter) : Except UsageError State := do
  let st ← settle st
  match p.kind with
  | .help => throw .displayHelp
  | .tally => return { st with args.count := min (st.args.count + 1) Arguments.countLimit }
  | _ =>
    if st.args.flag p.name then throw .conflict
    return { st with args.flags := p.name :: st.args.flags }

/-- Meets a parameter that takes a value, which may be attached. -/
def meetValue (st : State) (p : Parameter) (attached : Option String) :
    Except UsageError State := do
  let st ← settle st
  match attached with
  | some value =>
    let args ← store st.args p value
    return { st with args }
  | none => return { st with pending := some (p, none) }

/-- The option with a letter. -/
def byLetter? (u : Usage) (letter : Char) : Option Parameter :=
  u.options.find? (·.letter == some letter)

/-- The option with a long name. -/
def byName? (u : Usage) (name : String) : Option Parameter := u.options.find? (·.long == some name)

/-- Meets the letters of a word. What follows the letter of an option with a value is
that value, behind an equals sign or not. -/
def letters (u : Usage) : List Char → State → Except UsageError State
  | [], st => .ok st
  | c :: rest, st =>
    match u.byLetter? c with
    | none => .error .unknownArgument
    | some p =>
      if takesValue p then
        match rest with
        | [] => meetValue st p none
        | '=' :: value => meetValue st p (some (String.ofList value))
        | value => meetValue st p (some (String.ofList value))
      else do
        let st ← meet st p
        letters u rest st

/-- Meets an option by its long name, with or without a value behind an equals sign. -/
def long (u : Usage) (word : List Char) (st : State) : Except UsageError State :=
  let name := String.ofList (word.takeWhile (· ≠ '='))
  let attached :=
    match word.dropWhile (· ≠ '=') with
    | _ :: value => some (String.ofList value)
    | [] => none
  match u.byName? name with
  | none => .error .unknownArgument
  | some p =>
    if takesValue p then meetValue st p attached
    else if attached.isSome then .error .surplusValue
    else meet st p

/-- Meets a word that is no option and no option's value. -/
def own (u : Usage) (word : String) (st : State) : Except UsageError State :=
  match u.positional, st.filled with
  | some p, false => do
    let st ← settle st
    return { st with pending := some (p, some word), filled := true }
  | _, _ => .error .unknownArgument

/-- Meets a word. -/
def word (u : Usage) (st : State) (text : String) : Except UsageError State :=
  if st.trailing then u.own text st
  else
    match text.toList with
    | ['-', '-'] => .ok { st with trailing := true }
    | '-' :: '-' :: rest => u.long rest st
    | '-' :: c :: rest => u.letters (c :: rest) st
    | _ =>
      match st.pending with
      | some (p, none) => .ok { st with pending := some (p, some text) }
      | _ => u.own text st

/-- Whether two parameters that exclude each other are both given. -/
def conflicting (u : Usage) (args : Arguments) : Bool :=
  u.exclusive.any fun (a, b) => (args.value? a).isSome && (args.value? b).isSome

/-- The values and flags among the words. -/
def parse (u : Usage) (words : List String) : Except UsageError Arguments := do
  let st ← words.foldlM u.word {}
  let st ← settle st
  if u.conflicting st.args then throw .conflict
  return st.args

end Usage

end TypedTree

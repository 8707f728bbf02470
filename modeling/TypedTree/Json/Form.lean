/-
The form of a JSON text, before its values are looked at.

A text is scanned once into a `Form`, which keeps every fault at its place instead
of giving up: whoever walks a form in written order meets the faults in that order
too, and may meet complaints of its own before them. Main definitions:

* `Lexeme` — a string or number with two readings, since one that is passed over
  unread is checked less than one whose value is wanted;
* `Form` — values, lists and objects with the place where the text breaks off;
* `Form.parse` — the form of a text and what is wrong behind it.

Design notes: scanning works on lists of characters and stops at the first place
where it cannot tell what follows, so that only the last form of a broken text is
`Form.broken` or an unclosed container.
-/
import TypedTree.Json.Basic

namespace TypedTree

namespace Json

/-- Why a text is not JSON: it ends too early, or something in it is wrong. -/
inductive ReadError where
  | endOfText
  | invalid
deriving DecidableEq, Repr

/-- A string or number: what reading it gives, and whether it can be passed over
without being read. -/
structure Lexeme (α : Type) where
  value : Except ReadError α
  extent : Except ReadError Unit
deriving Repr

/-- The form of a value. An array or object ends with a fault if no closing bracket
follows its last element. -/
inductive Form where
  | null
  | bool (value : Bool)
  | number (lexeme : Lexeme Number)
  | string (lexeme : Lexeme String)
  | array (items : List Form) (closed : Except ReadError Unit)
  | object (entries : List (Lexeme String × Form)) (closed : Except ReadError Unit)
  | broken (error : ReadError)

namespace Form

/-! ### Strings -/

/-- The value of a hexadecimal digit. -/
def hexDigit? (c : Char) : Option Nat :=
  if '0' ≤ c ∧ c ≤ '9' then some (c.toNat - 48)
  else if 'a' ≤ c ∧ c ≤ 'f' then some (c.toNat - 87)
  else if 'A' ≤ c ∧ c ≤ 'F' then some (c.toNat - 55)
  else none

/-- The value of four hexadecimal digits. -/
def hex4? (a b c d : Char) : Option Nat := do
  return ((← hexDigit? a) * 16 + (← hexDigit? b)) * 256 + (← hexDigit? c) * 16 + (← hexDigit? d)

/-- The fault of a `\u` escape with fewer than four characters behind it: the text
ends too early unless those characters make up four bytes. -/
def shortEscape (rest : List Char) : ReadError :=
  if (String.ofList rest).utf8ByteSize < 4 then .endOfText else .invalid

/-- The character that a one-letter escape stands for. -/
def simpleEscape? : Char → Option Char
  | '"' => some '"'
  | '\\' => some '\\'
  | '/' => some '/'
  | 'b' => some '\x08'
  | 'f' => some '\x0c'
  | 'n' => some '\n'
  | 'r' => some '\r'
  | 't' => some '\t'
  | _ => none

/-- The text behind a string that is passed over, from its opening quote on. Code
units of escapes are not checked. -/
def passString : List Char → Except ReadError (List Char)
  | [] => .error .endOfText
  | '"' :: rest => .ok rest
  | '\\' :: 'u' :: a :: b :: c :: d :: rest =>
    match hex4? a b c d with
    | some _ => passString rest
    | none => .error .invalid
  | '\\' :: 'u' :: rest => .error (shortEscape rest)
  | ['\\'] => .error .endOfText
  | '\\' :: c :: rest =>
    match simpleEscape? c with
    | some _ => passString rest
    | none => .error .invalid
  | c :: rest => if c.toNat < 0x20 then .error .invalid else passString rest

/-- The characters of a string, from its opening quote on, behind those already
read in reverse. A leading surrogate has to be followed by a trailing one. -/
def readString (read : List Char) : List Char → Except ReadError String
  | [] => .error .endOfText
  | '"' :: _ => .ok (String.ofList read.reverse)
  | '\\' :: 'u' :: a :: b :: c :: d :: rest =>
    match hex4? a b c d with
    | none => .error .invalid
    | some unit =>
      if unit < 0xD800 ∨ 0xDFFF < unit then readString (Char.ofNat unit :: read) rest
      else if 0xDC00 ≤ unit then .error .invalid
      else
        match rest with
        | '\\' :: 'u' :: a :: b :: c :: d :: rest =>
          match hex4? a b c d with
          | none => .error .invalid
          | some low =>
            if low < 0xDC00 ∨ 0xDFFF < low then .error .invalid
            else
              readString (Char.ofNat (0x10000 + (unit - 0xD800) * 0x400 + (low - 0xDC00)) :: read)
                rest
        | '\\' :: 'u' :: rest => .error (shortEscape rest)
        | [] | ['\\'] => .error .endOfText
        | _ => .error .invalid
  | '\\' :: 'u' :: rest => .error (shortEscape rest)
  | ['\\'] => .error .endOfText
  | '\\' :: c :: rest =>
    match simpleEscape? c with
    | some c => readString (c :: read) rest
    | none => .error .invalid
  | c :: rest => if c.toNat < 0x20 then .error .invalid else readString (c :: read) rest

/-- A string behind its opening quote, and the text after it. -/
def scanString (text : List Char) : Lexeme String × Option (List Char) :=
  match passString text with
  | .ok rest => (⟨readString [] text, .ok ()⟩, some rest)
  | .error e => (⟨readString [] text, .error e⟩, none)

/-! ### Numbers -/

/-- The value of a run of decimal digits. -/
def digitsValue (digits : List Char) : Nat :=
  digits.foldl (fun n c => n * 10 + (c.toNat - 48)) 0

/-- Takes digits into a significand of 64 bits as long as they fit; the rest of
them is returned. -/
def accumulate : Nat → List Char → Nat × List Char
  | significand, [] => (significand, [])
  | significand, c :: rest =>
    let next := significand * 10 + (c.toNat - 48)
    if next < Nat.pow 2 64 then accumulate next rest else (significand, c :: rest)

/-- The number written with the given digits. Without a fraction and an exponent it
is an integer if it fits in 64 bits; negative zero never is one. In a double, whole
digits past the significand raise the exponent and fraction digits past it are
dropped. `none` when it is out of range. -/
def numberOf (negative : Bool) (whole fraction : List Char) (exponent : Option Int) :
    Option Number :=
  let value := digitsValue whole
  let signed (x : Double) := if negative then x.neg else x
  if fraction = [] ∧ exponent = none ∧ value < Nat.pow 2 64 then
    if ¬negative then some (.int value)
    else if value = 0 ∨ Nat.pow 2 63 < value then some (.double (signed (Double.ofNat value)))
    else some (.int (-value))
  else
    let (significand, pastWhole) := accumulate 0 whole
    let (significand, pastFraction) := accumulate significand fraction
    let scale : Int := exponent.getD 0 + pastWhole.length - (fraction.length - pastFraction.length)
    (Double.scaleByTen significand scale).map (.double <| signed ·)

/-- A number that breaks off before a digit it needs. -/
def truncated (rest : List Char) : Lexeme Number × Option (List Char) :=
  (⟨.error (if rest.isEmpty then .endOfText else .invalid), .error .invalid⟩, none)

/-- A complete number and the text after it. -/
def completed (negative : Bool) (whole fraction : List Char) (exponent : Option Int)
    (rest : List Char) : Lexeme Number × Option (List Char) :=
  match numberOf negative whole fraction exponent with
  | some n => (⟨.ok n, .ok ()⟩, some rest)
  | none => (⟨.error .invalid, .ok ()⟩, some rest)

/-- The optional exponent of a number, and its end. -/
def scanExponent (negative : Bool) (whole fraction : List Char) (text : List Char) :
    Lexeme Number × Option (List Char) :=
  match text with
  | c :: rest =>
    if c = 'e' ∨ c = 'E' then
      let (below, rest) : Bool × List Char :=
        match rest with
        | '-' :: rest => (true, rest)
        | '+' :: rest => (false, rest)
        | rest => (false, rest)
      let digits := rest.takeWhile Char.isDigit
      if digits.isEmpty then truncated rest
      else
        let value : Int := digitsValue digits
        completed negative whole fraction (some (if below then -value else value))
          (rest.dropWhile Char.isDigit)
    else completed negative whole fraction none text
  | [] => completed negative whole fraction none text

/-- A number behind its sign, and the text after it. -/
def scanUnsigned (negative : Bool) (text : List Char) : Lexeme Number × Option (List Char) :=
  let whole := text.takeWhile Char.isDigit
  let rest := text.dropWhile Char.isDigit
  if whole.isEmpty then truncated rest
  else if whole.head? = some '0' ∧ 1 < whole.length then
    (⟨.error .invalid, .error .invalid⟩, none)
  else
    match rest with
    | '.' :: rest =>
      let fraction := rest.takeWhile Char.isDigit
      let rest := rest.dropWhile Char.isDigit
      if fraction.isEmpty then truncated rest else scanExponent negative whole fraction rest
    | rest => scanExponent negative whole [] rest

/-! ### Values -/

/-- Whether a character may stand between the parts of a text. -/
def isSpace (c : Char) : Bool := c = ' ' || c = '\n' || c = '\t' || c = '\r'

/-- The text behind its leading space. -/
def skipSpace (text : List Char) : List Char := text.dropWhile isSpace

/-- The text behind an expected word. -/
def scanWord : List Char → List Char → Except ReadError (List Char)
  | [], text => .ok text
  | _ :: _, [] => .error .endOfText
  | c :: word, d :: text => if c = d then scanWord word text else .error .invalid

/-- The form of a fixed word, and the text after it. -/
def word (form : Form) (expected text : List Char) : Form × Option (List Char) :=
  match scanWord expected text with
  | .ok rest => (form, some rest)
  | .error e => (.broken e, none)

mutual

/-- The form of a value and the text after it, if scanning can go on there. -/
def parseValue : Nat → List Char → Form × Option (List Char)
  | 0, _ => (.broken .endOfText, none)
  | fuel + 1, text =>
    match skipSpace text with
    | [] => (.broken .endOfText, none)
    | 'n' :: rest => word .null ['u', 'l', 'l'] rest
    | 't' :: rest => word (.bool true) ['r', 'u', 'e'] rest
    | 'f' :: rest => word (.bool false) ['a', 'l', 's', 'e'] rest
    | '"' :: rest =>
      let (lexeme, rest) := scanString rest
      (.string lexeme, rest)
    | '-' :: rest =>
      let (lexeme, rest) := scanUnsigned true rest
      (.number lexeme, rest)
    | '[' :: rest =>
      match skipSpace rest with
      | [] => (.array [] (.error .endOfText), none)
      | ']' :: rest => (.array [] (.ok ()), some rest)
      | rest =>
        let (items, closed, rest) := parseItems fuel rest
        (.array items closed, rest)
    | '\x7b' :: rest =>
      match skipSpace rest with
      | [] => (.object [] (.error .endOfText), none)
      | '\x7d' :: rest => (.object [] (.ok ()), some rest)
      | rest =>
        let (entries, closed, rest) := parseEntries fuel rest
        (.object entries closed, rest)
    | c :: rest =>
      if c.isDigit then
        let (lexeme, rest) := scanUnsigned false (c :: rest)
        (.number lexeme, rest)
      else (.broken .invalid, none)

/-- The items of an array from the next one on, how the array ends, and the text
after it. -/
def parseItems : Nat → List Char → List Form × Except ReadError Unit × Option (List Char)
  | 0, _ => ([], .error .endOfText, none)
  | fuel + 1, text =>
    match parseValue fuel text with
    | (item, none) => ([item], .ok (), none)
    | (item, some rest) =>
      match skipSpace rest with
      | [] => ([item], .error .endOfText, none)
      | ']' :: rest => ([item], .ok (), some rest)
      | ',' :: rest =>
        let (items, closed, rest) := parseItems fuel rest
        (item :: items, closed, rest)
      | _ => ([item], .error .invalid, none)

/-- The entries of an object from the next one on, how the object ends, and the text
after it. -/
def parseEntries : Nat → List Char →
    List (Lexeme String × Form) × Except ReadError Unit × Option (List Char)
  | 0, _ => ([], .error .endOfText, none)
  | fuel + 1, text =>
    match skipSpace text with
    | [] => ([], .error .endOfText, none)
    | '"' :: rest =>
      match scanString rest with
      | (key, none) => ([(key, .broken .endOfText)], .ok (), none)
      | (key, some rest) =>
        match skipSpace rest with
        | [] => ([(key, .broken .endOfText)], .ok (), none)
        | ':' :: rest =>
          match parseValue fuel rest with
          | (value, none) => ([(key, value)], .ok (), none)
          | (value, some rest) =>
            match skipSpace rest with
            | [] => ([(key, value)], .error .endOfText, none)
            | '\x7d' :: rest => ([(key, value)], .ok (), some rest)
            | ',' :: rest =>
              let (entries, closed, rest) := parseEntries fuel rest
              ((key, value) :: entries, closed, rest)
            | _ => ([(key, value)], .error .invalid, none)
        | _ => ([(key, .broken .invalid)], .ok (), none)
    | _ => ([], .error .invalid, none)

end

/-- The form of a text, and whether only space follows its value. -/
def parse (text : String) : Form × Except ReadError Unit :=
  let chars := text.toList
  match parseValue (2 * chars.length + 2) chars with
  | (form, none) => (form, .ok ())
  | (form, some rest) => (form, if (skipSpace rest).isEmpty then .ok () else .error .invalid)

end Form

end Json

end TypedTree

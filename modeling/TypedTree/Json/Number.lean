/-
Numbers of a JSON text: integers kept exactly, everything else a double.

Main definitions:

* `Number.same` — equality as numbers of one kind: an integer never equals a
  double, and the two zeros among the doubles are equal;
* `Number.render` — the text of a number.
-/
import TypedTree.Json.Double

namespace TypedTree

/-- An integer literal that fits in 64 bits, with or without a sign, or a double. -/
inductive Number where
  | int (value : Int)
  | double (value : Double)
deriving DecidableEq, Repr

namespace Number

/-- Equality as numbers of one kind. -/
def same : Number → Number → Bool
  | int a, int b => a == b
  | double a, double b => a.same b
  | _, _ => false

/-- Doubles are written positionally while the leading digit stands for at least
`10 ^ -5` and less than `10 ^ 16`. -/
def layout : Double.Layout := ⟨fun leading => -5 ≤ leading && leading < 16⟩

/-- The text of a number. -/
def render : Number → String
  | int value => toString value
  | double value => value.render layout

/-- The number as an unsigned integer of fewer than `bits` bits. -/
def toNat? (bits : Nat) : Number → Option Nat
  | int (.ofNat n) => if n < Nat.pow 2 bits then some n else none
  | _ => none

end Number

end TypedTree

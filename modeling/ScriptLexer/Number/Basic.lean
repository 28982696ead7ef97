import ScriptLexer.Double.Fixed
import ScriptLexer.Number.Digits

/-!
# Number literals

A number literal is a value, a 64-bit integer or a double, with the notation it was written in.
`Number.text` writes it back in that notation.

A colour is written `#RRGGBB` and stored with red and blue exchanged (`swapColour`), so its text is
that of the stored value: `#FF0080` becomes `#8000FF`, and exchanging twice changes nothing
(`swapColour_swapColour`).
-/

namespace ScriptLexer

/-- the notation of a number literal -/
inductive Radix where
  | int
  | float
  | hex
  | binary
  | colour
deriving DecidableEq, Repr

/-- the value of a number literal -/
inductive NumberValue where
  | integer (n : UInt64)
  | real (x : Double)
deriving DecidableEq, Repr

/-- a number literal -/
structure Number where
  value : NumberValue
  radix : Radix
deriving DecidableEq, Repr

/-- the value as the double that programs compute with -/
def NumberValue.toDouble : NumberValue → Double
  | .integer n => Double.ofUInt64 n
  | .real x => x

/-! ## text -/

/-- a natural in a base, with capital letters and at least `width` digits -/
def baseText (base width n : Nat) : String :=
  let digits := (Nat.toDigits base n).map Char.toUpper
  String.ofList (List.replicate (width - digits.length) '0' ++ digits)

namespace Number

def integer (n : UInt64) (radix : Radix) : Number := ⟨.integer n, radix⟩

def real (x : Double) : Number := ⟨.real x, .float⟩

/-- the literal in its notation; doubles have four decimal places in every notation -/
def text (n : Number) : String :=
  match n.value, n.radix with
  | .real x, _ => x.fixed 4
  | .integer v, .hex => "0x" ++ baseText 16 1 v.toNat
  | .integer v, .binary => "0b" ++ baseText 2 1 v.toNat
  | .integer v, .colour => "#" ++ baseText 16 6 v.toNat
  | .integer v, .int => baseText 10 1 v.toNat
  | .integer v, .float => baseText 10 1 v.toNat

end Number

/-! ## colours -/

/-- a colour with its lowest and its third byte exchanged -/
def swapColour (n : Nat) : Nat := n / 65536 % 256 + n / 256 % 256 * 256 + n % 256 * 65536

theorem swapColour_lt (n : Nat) : swapColour n < 0x1000000 := by
  unfold swapColour
  omega

/-- on three bytes the exchange does what its name says -/
theorem swapColour_bytes (r g b : Nat) (hr : r < 256) (hg : g < 256) (hb : b < 256) :
    swapColour (r * 65536 + g * 256 + b) = b * 65536 + g * 256 + r := by
  unfold swapColour
  omega

theorem swapColour_swapColour (n : Nat) (h : n < 0x1000000) : swapColour (swapColour n) = n := by
  have hr : n / 65536 < 256 := by omega
  have hg : n / 256 % 256 < 256 := Nat.mod_lt _ (by decide)
  have hb : n % 256 < 256 := Nat.mod_lt _ (by decide)
  have hn : n / 65536 * 65536 + n / 256 % 256 * 256 + n % 256 = n := by omega
  rw [← hn, swapColour_bytes _ _ _ hr hg hb, swapColour_bytes _ _ _ hb hg hr]

end ScriptLexer

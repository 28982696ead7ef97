/-!
# Character classes

The classes are ASCII only: a letter with an accent, a digit of another script or a wide blank
belongs to none of them, and the scan passes over it without a token.

A line break is no blank, because line ends are tokens.  The digit classes take in the separator
`_`, which may stand anywhere in a run of digits.
-/

namespace ScriptLexer

/-- space, tab, vertical tab and form feed: what separates tokens on a line -/
def isBlank (c : Char) : Bool :=
  c == ' ' || c == '\t' || c == '\x0b' || c == '\x0c'

/-- a character that may begin a word -/
def isWordStart (c : Char) : Bool := c.isAlpha || c == '_'

/-- a character that may continue a word -/
def isWordPart (c : Char) : Bool := c.isAlphanum || c == '_'

/-- the value of a digit in the bases up to sixteen, of either case -/
def digitValue? (c : Char) : Option Nat :=
  if '0' ≤ c ∧ c ≤ '9' then some (c.toNat - '0'.toNat)
  else if 'a' ≤ c ∧ c ≤ 'f' then some (c.toNat - 'a'.toNat + 10)
  else if 'A' ≤ c ∧ c ≤ 'F' then some (c.toNat - 'A'.toNat + 10)
  else none

/-- a hexadecimal digit, without the separator -/
def isHexDigit (c : Char) : Bool := (digitValue? c).isSome

/-- a decimal digit or the separator -/
def isDecimalPart (c : Char) : Bool := c.isDigit || c == '_'

/-- a hexadecimal digit or the separator -/
def isHexPart (c : Char) : Bool := isHexDigit c || c == '_'

/-- a binary digit or the separator -/
def isBinaryPart (c : Char) : Bool := c == '0' || c == '1' || c == '_'

/-- what begins a word may also continue it -/
theorem isWordPart_of_isWordStart (c : Char) (h : isWordStart c = true) : isWordPart c = true := by
  simp only [isWordStart, isWordPart, Char.isAlphanum, Bool.or_eq_true] at h ⊢
  rcases h with h | h
  · exact .inl (.inl h)
  · exact .inr h

end ScriptLexer

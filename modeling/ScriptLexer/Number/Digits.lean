import ScriptLexer.Text.CharClass

/-!
# Bases and runs of digits

A run of digits may hold the separator `_` anywhere, also at its ends and many times over; it
carries no value.

* `Base`                      the bases, with the characters that may stand in a run of digits;
* `digitCount ds`             the digits of a run, separators not counted;
* `readDigits? base ds`       the value of a run in a base, if it fits in 64 bits;
* `digitsValue base ds`       the value itself, of any size: what `readDigits?` has to be compared
                              with (`readDigits?_eq`);
* `readDecimal whole part`    the digits and the places of a decimal that was written with a point.

`readDigits?` gives up at the first digit that takes it out of range.  That decides the whole run,
because a value never gets smaller by reading on (`le_digitsValueFrom`).
-/

namespace ScriptLexer

/-! ## bases -/

/-- a base that literals are written in -/
inductive Base where
  | decimal
  | hexadecimal
  | binary
deriving DecidableEq, Repr

namespace Base

def value : Base → Nat
  | .decimal => 10
  | .hexadecimal => 16
  | .binary => 2

def name : Base → String
  | .decimal => "decimal"
  | .hexadecimal => "hexadecimal"
  | .binary => "binary"

/-- a digit of the base or the separator -/
def isPart : Base → Char → Bool
  | .decimal => isDecimalPart
  | .hexadecimal => isHexPart
  | .binary => isBinaryPart

theorem value_pos (b : Base) : 0 < b.value := by cases b <;> decide

end Base

/-! ## runs -/

/-- one more than the largest integer that a literal may have -/
def integerBound : Nat := Nat.pow 2 64

/-- the digits of a run, without its separators -/
def digitsOf (ds : List Char) : List Char := ds.filter (· != '_')

/-- the number of digits in a run, separators not counted -/
def digitCount (ds : List Char) : Nat := (digitsOf ds).length

/-! ## the value of a run -/

/-- the value of a run read on from `n`; a character that is no digit counts as zero -/
def digitsValueFrom (base n : Nat) (ds : List Char) : Nat :=
  (digitsOf ds).foldl (fun n c => n * base + (digitValue? c).getD 0) n

/-- the value of a run of digits in a base -/
def digitsValue (base : Nat) (ds : List Char) : Nat := digitsValueFrom base 0 ds

/-- the digits that belong to a base -/
def isDigitOf (base : Nat) (c : Char) : Bool :=
  match digitValue? c with
  | some d => d < base
  | none => false

/-- the value of a run read on from `n`, as long as it stays below the bound -/
def readDigitsFrom? (base : Nat) : Nat → List Char → Option Nat
  | n, [] => some n
  | n, c :: cs =>
    if c = '_' then readDigitsFrom? base n cs
    else match digitValue? c with
      | none => none
      | some d =>
        if d < base ∧ n * base + d < integerBound then readDigitsFrom? base (n * base + d) cs
        else none

/-- the value of a run in a base, or `none` when it has no 64 bits or holds a foreign digit -/
def readDigits? (base : Nat) (ds : List Char) : Option Nat := readDigitsFrom? base 0 ds

theorem digitsValueFrom_nil (base n : Nat) : digitsValueFrom base n [] = n := rfl

theorem digitsValueFrom_separator (base n : Nat) (cs : List Char) :
    digitsValueFrom base n ('_' :: cs) = digitsValueFrom base n cs := rfl

theorem digitsValueFrom_cons (base n : Nat) {c : Char} (h : c ≠ '_') (cs : List Char) :
    digitsValueFrom base n (c :: cs)
      = digitsValueFrom base (n * base + (digitValue? c).getD 0) cs := by
  simp [digitsValueFrom, digitsOf, h]

/-- reading on does not make a value smaller -/
theorem le_digitsValueFrom (base n : Nat) (hb : 0 < base) (ds : List Char) :
    n ≤ digitsValueFrom base n ds := by
  induction ds generalizing n with
  | nil => exact Nat.le_refl n
  | cons c cs ih =>
    by_cases h : c = '_'
    · subst h; exact ih n
    · rw [digitsValueFrom_cons base n h]
      exact Nat.le_trans (Nat.le_trans (Nat.le_mul_of_pos_right n hb) (Nat.le_add_right ..)) (ih _)

theorem readDigitsFrom?_eq (base n : Nat) (hb : 0 < base) (hn : n < integerBound) (ds : List Char)
    (hds : ∀ c ∈ ds, c = '_' ∨ isDigitOf base c = true) :
    readDigitsFrom? base n ds
      = if digitsValueFrom base n ds < integerBound then some (digitsValueFrom base n ds)
        else none := by
  induction ds generalizing n with
  | nil => rw [readDigitsFrom?, digitsValueFrom_nil, if_pos hn]
  | cons c cs ih =>
    have hcs : ∀ c ∈ cs, c = '_' ∨ isDigitOf base c = true :=
      fun x hx => hds x (List.mem_cons_of_mem _ hx)
    by_cases h : c = '_'
    · subst h
      rw [readDigitsFrom?, if_pos rfl, digitsValueFrom_separator]
      exact ih n hn hcs
    · have hd := (hds c List.mem_cons_self).resolve_left h
      unfold isDigitOf at hd
      rw [readDigitsFrom?, if_neg h, digitsValueFrom_cons base n h]
      cases e : digitValue? c with
      | none => rw [e] at hd; exact absurd hd (by simp)
      | some d =>
        rw [e] at hd
        have hlt : d < base := by simpa using hd
        simp only [Option.getD_some]
        by_cases hin : n * base + d < integerBound
        · rw [if_pos ⟨hlt, hin⟩]
          exact ih _ hin hcs
        · have hle := le_digitsValueFrom base (n * base + d) hb cs
          rw [if_neg (fun hh => hin hh.2), if_neg (by omega)]

/-- a run of digits of the base is read as its value exactly when that has 64 bits -/
theorem readDigits?_eq (base : Nat) (hb : 0 < base) (ds : List Char)
    (hds : ∀ c ∈ ds, c = '_' ∨ isDigitOf base c = true) :
    readDigits? base ds
      = if digitsValue base ds < integerBound then some (digitsValue base ds) else none :=
  readDigitsFrom?_eq base 0 hb (by decide) ds hds

/-! ## decimals -/

/-- all the digits of a decimal as one integer, with the number of them behind the point -/
def readDecimal (whole part : List Char) : Nat × Nat :=
  (digitsValue 10 (whole ++ part), digitCount part)

end ScriptLexer

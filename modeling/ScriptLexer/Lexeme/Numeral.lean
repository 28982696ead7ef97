import ScriptLexer.Scan.Front

/-!
# Numerals

* `decimal`    digits, or digits around a point: the point makes it a float, and either group of
               digits may be empty as long as one is not;
* `numeral`    a number that begins with a digit: `0x` and `0b` change the base;
* `inBase`     the digits behind `$`, `0x` or `0b`, of which there must be one.

An integer that has no 64 bits is an error, a float is the nearest double however many digits it has.
-/

namespace ScriptLexer.Lexeme

/-- the float that two groups of digits around a point stand for -/
def floatOf (whole part : List Char) : Number :=
  let (digits, places) := readDecimal whole part
  .real (.ofDecimal digits places)

/-- the atom of an integer in a base, or the error that it is too large -/
def integer (base : Base) (radix : Radix) (start : Position) (lexeme digits rest : List Char) :
    Front :=
  match readDigits? base.value digits with
  | some n => .atom (.number (.integer (.ofNat n) radix)) lexeme rest
  | none => .fail (.report .integerOverflow start start.offset)

/-- a float whose point comes next, behind the digits `whole` -/
def float (whole rest : List Char) : Front :=
  let part := rest.takeWhile isDecimalPart
  .atom (.number (floatOf whole part)) (whole ++ '.' :: part) (rest.dropWhile isDecimalPart)

/-- a decimal number that begins with the digit `c` -/
def decimal (start : Position) (c : Char) (cs : List Char) : Front :=
  let whole := c :: cs.takeWhile isDecimalPart
  match cs.dropWhile isDecimalPart with
  | '.' :: rest => float whole rest
  | rest => integer .decimal .int start whole whole rest

/-- the digits behind `lead`, which has announced the base -/
def inBase (base : Base) (radix : Radix) (start : Position) (lead cs : List Char) : Front :=
  let digits := cs.takeWhile base.isPart
  if digitCount digits = 0 then .fail (.report (.missingDigits base) start start.offset)
  else integer base radix start (lead ++ digits) digits (cs.dropWhile base.isPart)

/-- a number that begins with the digit `c` -/
def numeral (start : Position) (c : Char) : List Char → Front
  | [] => decimal start c []
  | d :: cs =>
    if c = '0' ∧ (d = 'x' ∨ d = 'X') then inBase .hexadecimal .hex start [c, d] cs
    else if c = '0' ∧ (d = 'b' ∨ d = 'B') then inBase .binary .binary start [c, d] cs
    else decimal start c (d :: cs)

/-! ## nothing is lost -/

theorem integer_takes (base : Base) (radix : Radix) (start : Position)
    {lexeme digits rest cs : List Char} (h : lexeme ++ rest = cs) (hne : lexeme ≠ []) :
    (integer base radix start lexeme digits rest).Takes cs := by
  unfold integer
  split
  · exact ⟨h, hne⟩
  · trivial

theorem float_takes (whole rest : List Char) : (float whole rest).Takes (whole ++ '.' :: rest) := by
  refine ⟨?_, by simp⟩
  rw [List.append_assoc, List.cons_append, List.takeWhile_append_dropWhile]

theorem decimal_takes (start : Position) (c : Char) (cs : List Char) :
    (decimal start c cs).Takes (c :: cs) := by
  have hsplit : (c :: cs.takeWhile isDecimalPart) ++ cs.dropWhile isDecimalPart = c :: cs := by
    rw [List.cons_append, List.takeWhile_append_dropWhile]
  unfold decimal
  simp only
  split
  · rename_i rest h
    rw [← hsplit, h]
    exact float_takes _ rest
  · exact integer_takes _ _ _ hsplit (by simp)

theorem inBase_takes (base : Base) (radix : Radix) (start : Position) {lead : List Char}
    (hne : lead ≠ []) (cs : List Char) : (inBase base radix start lead cs).Takes (lead ++ cs) := by
  unfold inBase
  simp only
  split
  · trivial
  · refine integer_takes _ _ _ ?_ (by simp [hne])
    rw [List.append_assoc, List.takeWhile_append_dropWhile]

theorem numeral_takes (start : Position) (c : Char) (cs : List Char) :
    (numeral start c cs).Takes (c :: cs) := by
  cases cs with
  | nil => exact decimal_takes start c []
  | cons d cs =>
    rw [numeral]
    split
    · exact inBase_takes _ _ _ (List.cons_ne_nil c [d]) cs
    · split
      · exact inBase_takes _ _ _ (List.cons_ne_nil c [d]) cs
      · exact decimal_takes start c (d :: cs)

end ScriptLexer.Lexeme

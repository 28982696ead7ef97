import ScriptLexer.Double.Basic

/-!
# Fixed places

The text of a double with a fixed number of decimal places.  The exact binary value is rounded
once, a tie going to the even neighbour: `0.28125` with four places is `0.2812`.

`roundHalfEven` is the rounding; `roundHalfEven_near` says that it errs by half a unit at most.
-/

namespace ScriptLexer

/-! ## rounding a quotient -/

/-- the integer nearest to `num / den`, the even one of two equally near -/
def roundHalfEven (num den : Nat) : Nat :=
  let floor := num / den
  let left := 2 * (num % den)
  if left < den then floor
  else if den < left then floor + 1
  else floor + floor % 2

/-- twice the error is at most the divisor -/
theorem roundHalfEven_near (num den : Nat) (h : 0 < den) :
    2 * (roundHalfEven num den * den) ≤ 2 * num + den ∧
      2 * num ≤ 2 * (roundHalfEven num den * den) + den := by
  have hd : num / den * den + num % den = num := Nat.div_add_mod' num den
  have hm : num % den < den := Nat.mod_lt _ h
  have hone : (num / den + 1) * den = num / den * den + den := Nat.succ_mul ..
  unfold roundHalfEven
  simp only
  split
  · omega
  · split
    · omega
    · rcases Nat.mod_two_eq_zero_or_one (num / den) with e | e <;> rw [e]
      · rw [Nat.add_zero]; omega
      · omega

/-- a tie goes to the even neighbour -/
theorem roundHalfEven_tie (num den : Nat) (h : 2 * (num % den) = den) :
    roundHalfEven num den % 2 = 0 := by
  unfold roundHalfEven
  simp only
  rw [if_neg (by omega), if_neg (by omega)]
  omega

/-! ## the text -/

/-- `n` in decimal with at least `width` digits -/
def paddedDecimal (width n : Nat) : String :=
  let digits := Nat.toDigits 10 n
  String.ofList (List.replicate (width - digits.length) '0' ++ digits)

/-- a nonnegative ratio with `places` decimal places -/
def fixedRatio (places : Nat) (x : Nat × Nat) : String :=
  let units := roundHalfEven (x.1 * Nat.pow 10 places) x.2
  s!"{units / Nat.pow 10 places}." ++ paddedDecimal places (units % Nat.pow 10 places)

/-- the text of a double with `places` decimal places, never with an exponent -/
def Double.fixed (places : Nat) (d : Double) : String := d.withSign (fixedRatio places)

end ScriptLexer

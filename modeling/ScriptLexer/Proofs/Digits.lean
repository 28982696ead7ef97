import Mathlib.Algebra.Group.Nat.Defs
import ScriptLexer.Number.Digits

/-!
# The value of a run of digits

* `isDigitOf_of_isPart`   what may stand in a run of a base is a digit of the base or the separator;
* `digitsValueFrom_lt`    a run of digits has less than the power of the base that their number
                          gives, separators not counted;
* `digitsValue_append`    two runs, one behind the other, are a number by the power that the second
                          one gives.

So a run of few digits is never too large to be read: `readDigits?_of_few`.
-/

namespace ScriptLexer

/-! ## digits -/

/-- a property of the characters of ASCII can be tested on them -/
theorem forall_ascii {p : Char → Bool} (h : (List.range 128).all (fun n => p (.ofNat n)) = true)
    {c : Char} (hc : c.toNat < 128) : p c = true := by
  have hall := List.all_eq_true.mp h c.toNat (List.mem_range.mpr hc)
  rwa [Char.ofNat_toNat] at hall

theorem isHexDigit_ascii {c : Char} (h : isHexDigit c = true) : c.toNat < 128 := by
  unfold isHexDigit digitValue? at h
  simp only [Char.le_def, UInt32.le_iff_toNat_le] at h
  refine Decidable.byContradiction fun hc => ?_
  have hval : ¬c.val.toNat < 128 := hc
  rw [if_neg (fun h => hval (Nat.lt_of_le_of_lt h.2 (by decide))),
    if_neg (fun h => hval (Nat.lt_of_le_of_lt h.2 (by decide))),
    if_neg (fun h => hval (Nat.lt_of_le_of_lt h.2 (by decide)))] at h
  exact absurd h (by decide)

theorem digitValue?_lt {c : Char} {d : Nat} (h : digitValue? c = some d) : d < 16 := by
  have hc : c.toNat < 128 := isHexDigit_ascii (by rw [isHexDigit, h]; rfl)
  have hall : (List.range 128).all (fun n => (digitValue? (.ofNat n)).all (· < 16)) = true := by
    decide +kernel
  have hval := forall_ascii (p := fun c => (digitValue? c).all (· < 16)) hall hc
  simp only [h] at hval
  exact of_decide_eq_true hval

theorem ne_underscore_of_isHexDigit {c : Char} (h : isHexDigit c = true) : c ≠ '_' := by
  rintro rfl
  exact absurd h (by decide)

theorem isDigitOf_of_isHexDigit {c : Char} (h : isHexDigit c = true) : isDigitOf 16 c = true := by
  obtain ⟨d, hd⟩ := Option.isSome_iff_exists.mp h
  rw [isDigitOf, hd]
  exact decide_eq_true (digitValue?_lt hd)

theorem isDigitOf_of_isDigit {c : Char} (h : c.isDigit = true) : isDigitOf 10 c = true := by
  simp only [Char.isDigit, Bool.and_eq_true, decide_eq_true_eq, ge_iff_le] at h
  have hle : '0' ≤ c ∧ c ≤ '9' := h
  rw [isDigitOf, digitValue?, if_pos hle]
  have hnine : c.toNat ≤ '9'.toNat := UInt32.le_iff_toNat_le.mp h.2
  have hvalue : '9'.toNat = '0'.toNat + 9 := rfl
  exact decide_eq_true (by omega)

/-- a run of a base is made of digits of the base, and of separators -/
theorem isDigitOf_of_isPart (base : Base) {c : Char} (h : base.isPart c = true) :
    c = '_' ∨ isDigitOf base.value c = true := by
  cases base with
  | decimal =>
    rcases Bool.or_eq_true_iff.mp h with h | h
    · exact .inr (isDigitOf_of_isDigit h)
    · exact .inl (by simpa using h)
  | hexadecimal =>
    rcases Bool.or_eq_true_iff.mp h with h | h
    · exact .inr (isDigitOf_of_isHexDigit h)
    · exact .inl (by simpa using h)
  | binary =>
    have h' : c = '0' ∨ c = '1' ∨ c = '_' := by simpa [Base.isPart, isBinaryPart, or_assoc] using h
    rcases h' with rfl | rfl | rfl
    · exact .inr rfl
    · exact .inr rfl
    · exact .inl rfl

/-! ## runs -/

theorem digitCount_separator (cs : List Char) : digitCount ('_' :: cs) = digitCount cs := rfl

theorem digitCount_cons {c : Char} (h : c ≠ '_') (cs : List Char) :
    digitCount (c :: cs) = digitCount cs + 1 := by
  simp [digitCount, digitsOf, h]

theorem digitCount_eq_length {ds : List Char} (h : ∀ c ∈ ds, c ≠ '_') :
    digitCount ds = ds.length := by
  rw [digitCount, digitsOf, List.filter_eq_self.mpr (by simpa using h)]

/-- digits have a value that is less than the power of the base with their number -/
theorem digitsValueFrom_lt (base n : Nat) {ds : List Char}
    (h : ∀ c ∈ ds, c = '_' ∨ isDigitOf base c = true) :
    digitsValueFrom base n ds < (n + 1) * base ^ digitCount ds := by
  induction ds generalizing n with
  | nil =>
    rw [digitsValueFrom_nil, show digitCount [] = 0 from rfl, Nat.pow_zero, Nat.mul_one]
    exact Nat.lt_succ_self n
  | cons c ds ih =>
    have hds : ∀ c ∈ ds, c = '_' ∨ isDigitOf base c = true :=
      fun x hx => h x (List.mem_cons_of_mem c hx)
    by_cases hc : c = '_'
    · subst hc
      rw [digitsValueFrom_separator, digitCount_separator]
      exact ih n hds
    · have hdigit := (h c List.mem_cons_self).resolve_left hc
      unfold isDigitOf at hdigit
      cases hd : digitValue? c with
      | none =>
        rw [hd] at hdigit
        exact absurd hdigit Bool.false_ne_true
      | some d =>
        rw [hd] at hdigit
        have hlt : d < base := of_decide_eq_true hdigit
        rw [digitsValueFrom_cons base n hc, digitCount_cons hc, hd, Option.getD_some]
        have hle : n * base + d + 1 ≤ (n + 1) * base := by
          rw [Nat.succ_mul]
          omega
        calc digitsValueFrom base (n * base + d) ds
            < (n * base + d + 1) * base ^ digitCount ds := ih _ hds
          _ ≤ (n + 1) * base * base ^ digitCount ds := Nat.mul_le_mul_right _ hle
          _ = (n + 1) * base ^ (digitCount ds + 1) := by
            rw [Nat.pow_succ, Nat.mul_assoc, Nat.mul_comm base]

theorem digitsValueFrom_eq (base n : Nat) (ds : List Char) :
    digitsValueFrom base n ds = n * base ^ digitCount ds + digitsValue base ds := by
  induction ds generalizing n with
  | nil => exact (Nat.mul_one n).symm
  | cons c ds ih =>
    by_cases hc : c = '_'
    · subst hc
      exact ih n
    · rw [digitsValue, digitsValueFrom_cons base n hc, digitsValueFrom_cons base 0 hc, ih,
        ih (0 * base + _), digitCount_cons hc, Nat.add_mul, Nat.zero_mul, Nat.zero_add, Nat.pow_succ',
        ← Nat.mul_assoc, Nat.add_assoc]

theorem digitsValue_append (base : Nat) (a b : List Char) :
    digitsValue base (a ++ b) = digitsValue base a * base ^ digitCount b + digitsValue base b := by
  have happend : digitsValue base (a ++ b) = digitsValueFrom base (digitsValue base a) b := by
    rw [digitsValue, digitsValueFrom, digitsOf, List.filter_append, List.foldl_append]
    rfl
  rw [happend, digitsValueFrom_eq]

/-- one more digit, the last one -/
theorem digitsValue_concat (base : Nat) (ds : List Char) {c : Char} {d : Nat}
    (h : digitValue? c = some d) :
    digitsValue base (ds ++ [c]) = digitsValue base ds * base + d := by
  have hc : c ≠ '_' := by
    rintro rfl
    cases h
  have hcount : digitCount [c] = 1 := digitCount_cons hc []
  have hvalue : digitsValue base [c] = d := by
    rw [digitsValue, digitsValueFrom_cons base 0 hc, h, Option.getD_some, digitsValueFrom_nil,
      Nat.zero_mul, Nat.zero_add]
  rw [digitsValue_append, hcount, hvalue, Nat.pow_one]

/-- few digits are always read -/
theorem readDigits?_of_few (base : Base) {ds : List Char} (h : ∀ c ∈ ds, base.isPart c = true)
    (hfew : base.value ^ digitCount ds ≤ integerBound) :
    readDigits? base.value ds = some (digitsValue base.value ds) := by
  have hds : ∀ c ∈ ds, c = '_' ∨ isDigitOf base.value c = true :=
    fun c hc => isDigitOf_of_isPart base (h c hc)
  have hlt : digitsValue base.value ds < base.value ^ digitCount ds := by
    have hlt := digitsValueFrom_lt base.value 0 hds
    rwa [Nat.zero_add, Nat.one_mul] at hlt
  rw [readDigits?_eq base.value base.value_pos ds hds, if_pos (Nat.lt_of_lt_of_le hlt hfew)]

end ScriptLexer

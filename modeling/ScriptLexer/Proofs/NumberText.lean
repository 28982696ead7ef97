import ScriptLexer.Proofs.Colours
import ScriptLexer.Proofs.Escapes
import ScriptLexer.Proofs.Integers

/-!
# The text of an integer is read back

The printer writes a number from its last digit to its first, the scan reads it from the first to the
last and multiplies; both go by the same recursion, `n = n / base * base + n % base`.

* `shownDigit d`          the character of a digit;
* `digitsValue_toDigits`, `digitsValue_baseText`   the numeral of a number has the number for its value;
* `isRun_baseText`        a numeral is a run of digits of its base;
* `scan_integerText`      so it is read, in every notation;
* `scan_text`             the text of an integer is the integer, that of a colour the colour with red and
                          blue exchanged.
-/

namespace ScriptLexer

open Position (after)

/-! ## digits -/

/-- a digit as it is displayed -/
def shownDigit (d : Nat) : Char := (Nat.digitChar d).toUpper

theorem digitValue?_shownDigit {d : Nat} (h : d < 16) : digitValue? (shownDigit d) = some d := by
  have hall : ∀ d < 16, digitValue? (shownDigit d) = some d := by decide
  exact hall d h

theorem isHexDigit_shownDigit {d : Nat} (h : d < 16) : isHexDigit (shownDigit d) = true := by
  rw [isHexDigit, digitValue?_shownDigit h]
  rfl

theorem shownDigit_ne {d : Nat} (h : d < 16) : shownDigit d ≠ '_' :=
  ne_underscore_of_isHexDigit (isHexDigit_shownDigit h)

theorem isPart_shownDigit (base : Base) {d : Nat} (h : d < base.value) :
    base.isPart (shownDigit d) = true := by
  have hall : ∀ d < base.value, base.isPart (shownDigit d) = true := by cases base <;> decide
  exact hall d h

theorem Base.one_lt_value (base : Base) : 1 < base.value := by cases base <;> decide

theorem Base.value_le (base : Base) : base.value ≤ 16 := by cases base <;> decide

/-! ## numerals -/

/-- digits of the base, and nothing else -/
theorem exists_of_mem_toDigits {base n : Nat} (hb : 1 < base) {c : Char}
    (h : c ∈ Nat.toDigits base n) : ∃ d < base, c = Nat.digitChar d := by
  induction n using Nat.strongRecOn with
  | _ n ih =>
  by_cases hn : n < base
  · rw [Nat.toDigits_of_lt_base hn, List.mem_singleton] at h
    exact ⟨n, hn, h⟩
  · have hle := Nat.le_of_not_lt hn
    rw [Nat.toDigits_of_base_le hb hle, List.mem_append, List.mem_singleton] at h
    rcases h with h | h
    · exact ih (n / base) (Nat.div_lt_self (by omega) hb) h
    · exact ⟨n % base, Nat.mod_lt n (by omega), h⟩

/-- the digits of a number have the number for their value -/
theorem digitsValue_toDigits {base : Nat} (hb : 1 < base) (hle : base ≤ 16) (n : Nat) :
    digitsValue base ((Nat.toDigits base n).map Char.toUpper) = n := by
  induction n using Nat.strongRecOn with
  | _ n ih =>
  by_cases hn : n < base
  · have hone := digitsValue_concat base [] (digitValue?_shownDigit (Nat.lt_of_lt_of_le hn hle))
    rw [Nat.toDigits_of_lt_base hn]
    exact hone.trans (by rw [show digitsValue base [] = 0 from rfl, Nat.zero_mul, Nat.zero_add])
  · have hlast : n % base < 16 := Nat.lt_of_lt_of_le (Nat.mod_lt n (by omega)) hle
    rw [Nat.toDigits_of_base_le hb (Nat.le_of_not_lt hn), List.map_append]
    show digitsValue base (_ ++ [shownDigit (n % base)]) = n
    rw [digitsValue_concat base _ (digitValue?_shownDigit hlast),
      ih (n / base) (Nat.div_lt_self (by omega) hb), Nat.div_add_mod']

/-! ## numerals of a width -/

theorem toList_baseText (base width n : Nat) : (baseText base width n).toList
    = List.replicate (width - (Nat.toDigits base n).length) '0'
      ++ (Nat.toDigits base n).map Char.toUpper := by
  rw [baseText, String.toList_ofList, List.length_map]

theorem exists_of_mem_baseText (base : Base) {width n : Nat} {c : Char}
    (h : c ∈ (baseText base.value width n).toList) : ∃ d < base.value, c = shownDigit d := by
  rw [toList_baseText] at h
  rcases List.mem_append.mp h with h | h
  · exact ⟨0, base.value_pos, (List.mem_replicate.mp h).2⟩
  · obtain ⟨x, hx, rfl⟩ := List.mem_map.mp h
    obtain ⟨d, hd, rfl⟩ := exists_of_mem_toDigits base.one_lt_value hx
    exact ⟨d, hd, rfl⟩

/-- zeros in front do not change a value -/
theorem digitsValue_replicate_zero (base k : Nat) :
    digitsValue base (List.replicate k '0') = 0 := by
  induction k with
  | zero => rfl
  | succ k ih =>
    rw [List.replicate_succ']
    have hdigit : digitValue? '0' = some 0 := rfl
    rw [digitsValue_concat base _ hdigit, ih, Nat.zero_mul]

theorem digitsValue_baseText (base : Base) (width n : Nat) :
    digitsValue base.value (baseText base.value width n).toList = n := by
  rw [toList_baseText, digitsValue_append, digitsValue_replicate_zero, Nat.zero_mul, Nat.zero_add,
    digitsValue_toDigits base.one_lt_value base.value_le]

theorem length_baseText (base width n : Nat) :
    (baseText base width n).toList.length = max width (Nat.toDigits base n).length := by
  rw [toList_baseText, List.length_append, List.length_replicate, List.length_map]
  omega

/-- a number below a power has no more digits than that -/
theorem length_baseText_le (base : Base) {width n k : Nat} (hk : 0 < k) (hwidth : width ≤ k)
    (hn : n < base.value ^ k) : (baseText base.value width n).toList.length ≤ k := by
  rw [length_baseText]
  exact max_le hwidth ((Nat.length_toDigits_le_iff base.one_lt_value hk).mpr hn)

theorem digitCount_baseText (base : Base) (width n : Nat) :
    digitCount (baseText base.value width n).toList
      = (baseText base.value width n).toList.length := by
  refine digitCount_eq_length fun c hc => ?_
  obtain ⟨d, hd, rfl⟩ := exists_of_mem_baseText base hc
  exact shownDigit_ne (Nat.lt_of_lt_of_le hd base.value_le)

theorem byteLength_baseText (base : Base) (width n : Nat) :
    byteLength (baseText base.value width n).toList = (baseText base.value width n).toList.length := by
  refine byteLength_eq_length fun c hc => ?_
  obtain ⟨d, hd, rfl⟩ := exists_of_mem_baseText base hc
  exact isHexDigit_ascii (isHexDigit_shownDigit (Nat.lt_of_lt_of_le hd base.value_le))

theorem baseText_ne_nil (base width n : Nat) : (baseText base width n).toList ≠ [] := by
  rw [toList_baseText]
  simp [Nat.toDigits_ne_nil]

/-- a numeral is a run of digits of its base -/
theorem isRun_baseText (base : Base) {lead : List Char} (hlead : lead = [] → base = .decimal)
    (width n : Nat) : IsRun base lead (baseText base.value width n).toList where
  ne_nil := baseText_ne_nil _ _ _
  parts c hc := by
    obtain ⟨d, hd, rfl⟩ := exists_of_mem_baseText base hc
    exact isPart_shownDigit base hd
  digit hnone c hc := by
    obtain rfl := hlead hnone
    obtain ⟨d, hd, rfl⟩ := exists_of_mem_baseText .decimal (List.mem_of_mem_head? hc)
    have hall : ∀ d < 10, (shownDigit d).isDigit = true := by decide
    exact hall d hd

/-! ## the text of a literal -/

/-- a literal that is written as a numeral behind what announces its base is read as that literal -/
theorem scan_integerText {base : Base} {radix : Radix} {lead : String}
    (hform : (base, radix, lead.toList) ∈ notations) {v : UInt64}
    (htext : (Number.integer v radix).text = lead ++ baseText base.value 1 v.toNat) :
    scan (Number.integer v radix).text
      = .ok [⟨.atom (.number (.integer v radix)), .start,
          after (Number.integer v radix).text.toList⟩] := by
  have hsource : (Number.integer v radix).text
      = String.ofList (lead.toList ++ (baseText base.value 1 v.toNat).toList) := by
    rw [htext, String.ofList_append, String.ofList_toList, String.ofList_toList]
  have hleads : ∀ e ∈ notations, byteLength e.2.2 ≤ 2 ∧ (e.2.2 = [] → e.1 = .decimal) := by decide
  have hbytes : byteLength lead.toList ≤ 2 := (hleads _ hform).1
  have hrun := isRun_baseText base (hleads _ hform).2 1 v.toNat
  have hcount : 0 < digitCount (baseText base.value 1 v.toNat).toList := by
    rw [digitCount_baseText]
    exact List.length_pos_iff.mpr hrun.ne_nil
  have hlength : (baseText base.value 1 v.toNat).toList.length ≤ 64 :=
    length_baseText_le base (by decide) (by decide)
      (Nat.lt_of_lt_of_le v.toNat_lt (Nat.pow_le_pow_left base.one_lt_value 64))
  have hlimit : 66 ≤ countLimit := by decide
  rw [hsource, String.toList_ofList]
  refine scan_run hform hrun hcount (digitsValue_baseText base 1 v.toNat) ?_
  rw [byteLength_append, byteLength_baseText]
  omega

/-- the text of a colour has six digits, of which the first and the last pair are exchanged -/
theorem scan_colourText {v w : UInt64} (hv : v.toNat < 2 ^ 24) (hw : swapColour v.toNat = w.toNat) :
    scan (Number.integer v .colour).text
      = .ok [⟨.atom (.number (.integer w .colour)), .start,
          after (Number.integer v .colour).text.toList⟩] := by
  have htext : (Number.integer v .colour).text
      = String.ofList ('#' :: (baseText Base.hexadecimal.value 6 v.toNat).toList) := by
    rw [← List.singleton_append, String.ofList_append, String.ofList_toList]
    rfl
  have hlength : (baseText Base.hexadecimal.value 6 v.toNat).toList.length = 6 := by
    refine Nat.le_antisymm (length_baseText_le .hexadecimal (by decide) (by decide) hv) ?_
    rw [length_baseText]
    exact le_max_left _ _
  have hcount := (digitCount_baseText .hexadecimal 6 v.toNat).trans hlength
  have hparts : ∀ c ∈ (baseText Base.hexadecimal.value 6 v.toNat).toList, isHexPart c = true := by
    intro c hc
    obtain ⟨d, hd, rfl⟩ := exists_of_mem_baseText .hexadecimal hc
    exact isPart_shownDigit .hexadecimal hd
  rw [htext, String.toList_ofList]
  have hvalue : digitsValue 16 (baseText Base.hexadecimal.value 6 v.toNat).toList = v.toNat :=
    digitsValue_baseText .hexadecimal 6 v.toNat
  refine scan_digits hparts hcount (by rw [hvalue, hw]) ?_
  rw [byteLength_cons, byteLength_baseText, hlength]
  decide

/-- The text of an integer is read as one number, which takes all of it and is the integer again.  The
text of a colour is read as the colour with red and blue exchanged, whose text is read as the first. -/
theorem scan_text (v : UInt64) :
    (∀ radix ∈ [Radix.int, .hex, .binary], scan (Number.integer v radix).text
      = .ok [⟨.atom (.number (.integer v radix)), .start,
          after (Number.integer v radix).text.toList⟩]) ∧
    (v.toNat < 2 ^ 24 → ∃ w : UInt64, w.toNat = swapColour v.toNat ∧ w.toNat < 2 ^ 24 ∧
      swapColour w.toNat = v.toNat ∧
      scan (Number.integer v .colour).text
        = .ok [⟨.atom (.number (.integer w .colour)), .start,
            after (Number.integer v .colour).text.toList⟩] ∧
      scan (Number.integer w .colour).text
        = .ok [⟨.atom (.number (.integer v .colour)), .start,
            after (Number.integer w .colour).text.toList⟩]) := by
  constructor
  · simp only [List.mem_cons, List.not_mem_nil, or_false, forall_eq_or_imp, forall_eq]
    refine ⟨@scan_integerText .decimal .int "" (by decide) v ?_,
      @scan_integerText .hexadecimal .hex "0x" (by decide) v rfl,
      @scan_integerText .binary .binary "0b" (by decide) v rfl⟩
    rw [String.empty_append]
    rfl
  · intro hv
    have hlt := swapColour_lt v.toNat
    have hw : (UInt64.ofNat (swapColour v.toNat)).toNat = swapColour v.toNat :=
      UInt64.toNat_ofNat_of_lt' (Nat.lt_trans hlt (by decide))
    have hback : swapColour (swapColour v.toNat) = v.toNat := swapColour_swapColour _ hv
    refine ⟨.ofNat (swapColour v.toNat), hw, by rwa [hw], by rwa [hw], scan_colourText hv hw.symm,
      scan_colourText (by rwa [hw]) (by rw [hw, hback])⟩

/-- the largest integer in each base, and a colour with zeros in front, which comes back -/
theorem scan_text_bounds :
    (∀ radix ∈ [Radix.int, .hex, .binary], scan (Number.integer 0xFFFFFFFFFFFFFFFF radix).text
      = .ok [⟨.atom (.number (.integer 0xFFFFFFFFFFFFFFFF radix)), .start,
          after (Number.integer 0xFFFFFFFFFFFFFFFF radix).text.toList⟩]) ∧
      (Number.integer 0xFFFFFFFFFFFFFFFF .int).text = "18446744073709551615" ∧
      scan "#0080FF" = .ok [⟨.atom (.number (.integer 0xFF8000 .colour)), .start, ⟨7, 0, 0⟩⟩] ∧
      scan "#FF8000" = .ok [⟨.atom (.number (.integer 0x80FF .colour)), .start, ⟨7, 0, 0⟩⟩] := by
  obtain ⟨w, hw, -, -, hthere, hback⟩ := (scan_text 0x80FF).2 (by decide)
  obtain rfl : w = 0xFF8000 := UInt64.toNat_inj.mp (hw.trans (by decide))
  have hfirst : (Number.integer 0x80FF .colour).text = "#0080FF" := by decide +kernel
  have hsecond : (Number.integer 0xFF8000 .colour).text = "#FF8000" := by decide +kernel
  rw [hfirst] at hthere
  rw [hsecond] at hback
  exact ⟨(scan_text 0xFFFFFFFFFFFFFFFF).1, by decide +kernel, hthere, hback⟩

end ScriptLexer

import ScriptLexer.Proofs.Locality
import ScriptLexer.Proofs.Payloads

/-!
# Colours

A source that is `#` and a run of word characters, and no directive by its word, is a colour if the run
is made of six hexadecimal digits and of separators, and is refused otherwise.

* `swapColour_pairs`   the colour of six digits, by its pairs of digits;
* `front_wordRun`      a run behind `#` is read to its end;
* `scan_digits`        a run with six digits is one number;
* `scan_colour`        what becomes of a run, whatever its characters.

The word is taken with all its characters before it is looked at as digits, so no run is cut short by a
letter that is no digit.
-/

namespace ScriptLexer

open Position (after)

/-! ## pairs of digits -/

theorem digitsValue_digitsOf (base : Nat) (ds : List Char) :
    digitsValue base (digitsOf ds) = digitsValue base ds := by
  simp [digitsValue, digitsValueFrom, digitsOf]

theorem mem_digitsOf {c : Char} {ds : List Char} : c ∈ digitsOf ds ↔ c ∈ ds ∧ c ≠ '_' := by
  simp [digitsOf]

/-- two digits are one byte -/
theorem digitsValue_pair_lt {c d : Char} (h : ∀ x ∈ [c, d], isHexPart x = true ∧ x ≠ '_') :
    digitsValue 16 [c, d] < 256 := by
  have hlt : digitsValue 16 [c, d] < (0 + 1) * 16 ^ digitCount [c, d] :=
    digitsValueFrom_lt 16 0 fun x hx => isDigitOf_of_isPart .hexadecimal (h x hx).1
  rw [digitCount_eq_length fun x hx => (h x hx).2] at hlt
  simpa using hlt

/-- six digits as three pairs, the first and the last of which are exchanged -/
theorem swapColour_pairs {run : List Char} (hrun : ∀ c ∈ run, isHexPart c = true)
    {r r' g g' b b' : Char} (hdigits : digitsOf run = [r, r', g, g', b, b']) :
    swapColour (digitsValue 16 run)
      = digitsValue 16 [b, b'] * 65536 + digitsValue 16 [g, g'] * 256 + digitsValue 16 [r, r'] := by
  have hdigit : ∀ x ∈ [r, r'] ++ ([g, g'] ++ [b, b']), isHexPart x = true ∧ x ≠ '_' := by
    intro x hx
    obtain ⟨hmem, hne⟩ := mem_digitsOf.mp (by rw [hdigits]; exact hx)
    exact ⟨hrun x hmem, hne⟩
  have hred : ∀ x ∈ [r, r'], isHexPart x = true ∧ x ≠ '_' := fun x hx =>
    hdigit x (List.mem_append_left _ hx)
  have hgreen : ∀ x ∈ [g, g'], isHexPart x = true ∧ x ≠ '_' := fun x hx =>
    hdigit x (List.mem_append_right _ (List.mem_append_left _ hx))
  have hblue : ∀ x ∈ [b, b'], isHexPart x = true ∧ x ≠ '_' := fun x hx =>
    hdigit x (List.mem_append_right _ (List.mem_append_right _ hx))
  have hcount : ∀ {c d : Char}, (∀ x ∈ [c, d], isHexPart x = true ∧ x ≠ '_') →
      digitCount [c, d] = 2 := fun h => digitCount_eq_length fun x hx => (h x hx).2
  have hvalue : digitsValue 16 run
      = digitsValue 16 [r, r'] * 65536 + digitsValue 16 [g, g'] * 256 + digitsValue 16 [b, b'] := by
    have hsplit : digitsOf run = [r, r'] ++ [g, g'] ++ [b, b'] := hdigits
    rw [← digitsValue_digitsOf, hsplit, digitsValue_append, digitsValue_append, hcount hgreen,
      hcount hblue]
    omega
  rw [hvalue, swapColour_bytes _ _ _ (digitsValue_pair_lt hred) (digitsValue_pair_lt hgreen)
    (digitsValue_pair_lt hblue)]

/-! ## a run and nothing behind it -/

theorem isWordPart_of_isHexPart {c : Char} (h : isHexPart c = true) : isWordPart c = true := by
  rcases Bool.or_eq_true_iff.mp h with hdigit | hscore
  · have hall : (List.range 128).all (fun n => !isHexDigit (.ofNat n) || isWordPart (.ofNat n))
        = true := by decide +kernel
    have hval := forall_ascii (p := fun c => !isHexDigit c || isWordPart c) hall
      (isHexDigit_ascii hdigit)
    simpa [hdigit] using hval
  · rw [isWordPart, hscore, Bool.or_true]

theorem Lexeme.directiveAfter_digits {run : List Char} (hrun : run.all isHexPart = true)
    (scope : Scope) (start : Position) (rest : List Char) :
    directiveAfter scope start run rest = colour start run rest := by
  have hne : ∀ word : List Char, word.all isHexPart = false → run ≠ word := by
    rintro word hword rfl
    exact absurd (hrun.symm.trans hword) (by decide)
  rw [directiveAfter, if_neg (hne _ (by decide)), if_neg (hne _ (by decide)),
    if_neg (hne _ (by decide)), if_pos hrun]

theorem front_wordRun {run : List Char} (hrun : ∀ c ∈ run, isWordPart c = true) (scope : Scope)
    (depth : Nat) (behind : Behind) (start : Position) :
    front scope depth behind start ('#' :: run) = Lexeme.directiveAfter scope start run [] := by
  show Lexeme.directive scope start run = _
  rw [Lexeme.directive_eq, List.takeWhile_eq_self_iff.mpr hrun, List.dropWhile_eq_nil_iff.mpr hrun]

/-- a run of digits behind `#` is a colour, in every scope -/
theorem front_digitRun {run : List Char} (hrun : ∀ c ∈ run, isHexPart c = true) (scope : Scope)
    (depth : Nat) (behind : Behind) (start : Position) :
    front scope depth behind start ('#' :: run) = Lexeme.colour start run [] := by
  rw [front_wordRun fun c hc => isWordPart_of_isHexPart (hrun c hc),
    Lexeme.directiveAfter_digits (List.all_eq_true.mpr hrun)]

/-! ## runs as sources -/

theorem scan_digits {run : List Char} (hrun : ∀ c ∈ run, isHexPart c = true)
    (hcount : digitCount run = 6) {v : UInt64} (hv : swapColour (digitsValue 16 run) = v.toNat)
    (hsize : byteLength ('#' :: run) ≤ countLimit) :
    scan (String.ofList ('#' :: run))
      = .ok [⟨.atom (.number (.integer v .colour)), .start, after ('#' :: run)⟩] := by
  have hread := Lexeme.readDigits?_colour (List.all_eq_true.mpr hrun) hcount
  have hfront : front (.initial .plain) 0 .nothing .start (String.ofList ('#' :: run)).toList
      = .atom (.number (.integer v .colour)) (String.ofList ('#' :: run)).toList [] := by
    rw [String.toList_ofList, front_digitRun hrun, Lexeme.colour]
    simp only [hcount, Lexeme.colourDigits, Nat.lt_irrefl, if_false, hread, hv, UInt64.ofNat_toNat]
  rw [scan_of_atom (by rwa [String.toList_ofList]) (by intro h; cases h) hfront,
    String.toList_ofList]

theorem scan_digits_fail {run : List Char} (hrun : ∀ c ∈ run, isHexPart c = true)
    (hsize : byteLength ('#' :: run) ≤ countLimit) :
    (digitCount run < 6 → scan (String.ofList ('#' :: run))
      = .error (.report (.notEnoughColourDigits (digitCount run)) .start 0)) ∧
    (6 < digitCount run → scan (String.ofList ('#' :: run))
      = .error (.report (.tooManyColourDigits (digitCount run)) .start 0)) := by
  have hsize' : byteLength (String.ofList ('#' :: run)).toList ≤ countLimit := by
    rwa [String.toList_ofList]
  refine ⟨fun hfew => scan_of_fail hsize' ?_, fun hmany => scan_of_fail hsize' ?_⟩
  · rw [String.toList_ofList, front_digitRun hrun, Lexeme.colour]
    exact if_pos hfew
  · rw [String.toList_ofList, front_digitRun hrun, Lexeme.colour]
    exact (if_neg (Nat.lt_asymm hmany)).trans (if_pos hmany)

/-- What becomes of a run of word characters behind `#`.  If all of them are digits or separators, it is
one number exactly when there are six digits, which then takes the whole source and is a colour with its
red and its blue pair exchanged; with fewer or more digits it is refused for their number.  Any other run
that is no directive is refused by its name. -/
theorem scan_colour {run : List Char} (hrun : ∀ c ∈ run, isWordPart c = true)
    (hsize : byteLength ('#' :: run) ≤ countLimit) :
    ((∀ c ∈ run, isHexPart c = true) →
      ((∃ n, scan (String.ofList ('#' :: run))
          = .ok [⟨.atom (.number n), .start, after ('#' :: run)⟩]) ↔ digitCount run = 6) ∧
      (∀ r r' g g' b b', digitsOf run = [r, r', g, g', b, b'] → ∃ v : UInt64,
        v.toNat
          = digitsValue 16 [b, b'] * 65536 + digitsValue 16 [g, g'] * 256 + digitsValue 16 [r, r'] ∧
        scan (String.ofList ('#' :: run))
          = .ok [⟨.atom (.number (.integer v .colour)), .start, after ('#' :: run)⟩]) ∧
      (digitCount run < 6 → scan (String.ofList ('#' :: run))
        = .error (.report (.notEnoughColourDigits (digitCount run)) .start 0)) ∧
      (6 < digitCount run → scan (String.ofList ('#' :: run))
        = .error (.report (.tooManyColourDigits (digitCount run)) .start 0))) ∧
    (¬(∀ c ∈ run, isHexPart c = true) →
      run ∉ ["region".toList, "endregion".toList, "macro".toList] →
      scan (String.ofList ('#' :: run))
        = .error (.report (.unknownDirective (String.ofList run)) .start 0)) := by
  have hvalue : ∃ v : UInt64, v.toNat = swapColour (digitsValue 16 run) :=
    ⟨.ofNat _, UInt64.toNat_ofNat_of_lt' (Nat.lt_trans (swapColour_lt _) (by decide))⟩
  obtain ⟨v, hv⟩ := hvalue
  constructor
  · intro hdigits
    obtain ⟨hfew, hmany⟩ := scan_digits_fail hdigits hsize
    refine ⟨⟨?_, fun hcount => ⟨_, scan_digits hdigits hcount hv.symm hsize⟩⟩, ?_, hfew, hmany⟩
    · rintro ⟨n, hn⟩
      by_contra hcount
      rcases Nat.lt_or_gt_of_ne hcount with hlt | hgt
      · rw [hfew hlt] at hn
        cases hn
      · rw [hmany hgt] at hn
        cases hn
    · intro r r' g g' b b' hsix
      have hcount : digitCount run = 6 := by rw [digitCount, hsix]; rfl
      exact ⟨v, hv.trans (swapColour_pairs hdigits hsix), scan_digits hdigits hcount hv.symm hsize⟩
  · intro hother hword
    have hall : ¬run.all isHexPart = true := fun h => hother (List.all_eq_true.mp h)
    simp only [List.mem_cons, List.not_mem_nil, or_false, not_or] at hword
    refine scan_of_fail (by rwa [String.toList_ofList]) ?_
    rw [String.toList_ofList, front_wordRun hrun, Lexeme.directiveAfter, if_neg hword.1,
      if_neg hword.2.1, if_neg hword.2.2, if_neg hall]
    rfl

/-- six digits with separators on all sides, none, seven, and a word that only begins with digits -/
theorem scan_colour_counts :
    scan "#_Ff_0080_"
        = .ok [⟨.atom (.number (.integer 0x8000FF .colour)), .start, ⟨10, 0, 0⟩⟩] ∧
      scan "#_" = .error (.report (.notEnoughColourDigits 0) .start 0) ∧
      scan "#FF0080A" = .error (.report (.tooManyColourDigits 7) .start 0) ∧
      scan "#FF0080_rgb" = .error (.report (.unknownDirective "FF0080_rgb") .start 0) := by
  have hword : ∀ run : List Char, run.all isWordPart = true → ∀ c ∈ run, isWordPart c = true :=
    fun _ => List.all_eq_true.mp
  have hdigits : ∀ run : List Char, run.all isHexPart = true → ∀ c ∈ run, isHexPart c = true :=
    fun _ => List.all_eq_true.mp
  have hletters : ¬∀ c ∈ "FF0080_rgb".toList, isHexPart c = true :=
    fun h => absurd (List.all_eq_true.mpr h) (by decide)
  obtain ⟨v, hv, hsix⟩ := ((scan_colour (hword "_Ff_0080_".toList (by decide)) (by decide)).1
    (hdigits _ (by decide))).2.1 'F' 'f' '0' '0' '8' '0' rfl
  obtain rfl : v = 0x8000FF := UInt64.toNat_inj.mp (hv.trans (by decide))
  refine ⟨hsix, ((scan_colour (hword "_".toList ?_) ?_).1 (hdigits _ ?_)).2.2.1 ?_,
    ((scan_colour (hword "FF0080A".toList ?_) ?_).1 (hdigits _ ?_)).2.2.2 ?_,
    (scan_colour (hword "FF0080_rgb".toList ?_) ?_).2 hletters ?_⟩
  all_goals decide

end ScriptLexer

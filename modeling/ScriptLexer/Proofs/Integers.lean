import ScriptLexer.Proofs.Payloads

/-!
# Integers, in every notation

A source that is a run of digits, behind what announces their base, is one number: the value of the run.
It is refused if that value has no 64 bits, or if the run is made of separators only.

* `IsRun base lead run`   a run of digits and separators of the base that `lead` announces;
* `front_run`             such a run is read to its end, in every scope;
* `scan_run`              it is one number, as long as the value has 64 bits;
* `scan_integer`          what becomes of a run, whatever its digits.

The digits are read one after the other, and reading stops at the first that makes the number too large.
That this is the same as to judge the value of the whole run is `readDigits?_eq`.
-/

namespace ScriptLexer

open Position (after)

/-- a run of digits and separators that `lead` announces; where nothing does, a digit comes first -/
structure IsRun (base : Base) (lead run : List Char) : Prop where
  ne_nil : run ≠ []
  parts : ∀ c ∈ run, base.isPart c = true
  digit : lead = [] → ∀ c ∈ run.head?, c.isDigit = true

/-! ## what a digit begins -/

theorem ne_of_isDigit {c d : Char} (hc : c.isDigit = true) (hd : d.isDigit = false) : c ≠ d := by
  rintro rfl
  exact absurd (hc.symm.trans hd) (by decide)

theorem classes_of_isDigit {c : Char} (h : c.isDigit = true) :
    isBlank c = false ∧ isWordStart c = false := by
  have hall : (List.range 128).all (fun n => !(Char.ofNat n).isDigit
      || (!isBlank (.ofNat n) && !isWordStart (.ofNat n))) = true := by decide +kernel
  have hascii : c.toNat < 128 := by
    have hdigit := h
    simp only [Char.isDigit, Bool.and_eq_true, decide_eq_true_eq, UInt32.le_iff_toNat_le] at hdigit
    exact Nat.lt_of_le_of_lt hdigit.2 (by decide)
  have hval := forall_ascii (p := fun c => !c.isDigit || (!isBlank c && !isWordStart c)) hall hascii
  simpa [h] using hval

theorem front_digit {c : Char} (hc : c.isDigit = true) (scope : Scope) (depth : Nat) (behind : Behind)
    (start : Position) (cs : List Char) :
    front scope depth behind start (c :: cs) = Lexeme.numeral start c cs := by
  have hne : ∀ {d : Char}, d.isDigit = false → c ≠ d := ne_of_isDigit hc
  rw [front, if_neg (hne rfl), if_neg (hne rfl), if_neg fun h => hne rfl h.1,
    if_neg fun h => hne rfl h.1, if_neg (hne rfl), lexeme, (classes_of_isDigit hc).1,
    (classes_of_isDigit hc).2, if_neg Bool.false_ne_true, if_neg Bool.false_ne_true, if_pos hc]

/-! ## a run and nothing behind it -/

namespace Lexeme

variable {start : Position}

theorem inBase_run (base : Base) (radix : Radix) (lead : List Char) {run : List Char}
    (hrun : ∀ c ∈ run, base.isPart c = true) : inBase base radix start lead run =
      if digitCount run = 0 then .fail (.report (.missingDigits base) start start.offset)
      else integer base radix start (lead ++ run) run [] := by
  rw [inBase, List.takeWhile_eq_self_iff.mpr hrun, List.dropWhile_eq_nil_iff.mpr hrun]

theorem numeral_run {c : Char} {cs : List Char} (hcs : ∀ d ∈ cs, isDecimalPart d = true) :
    numeral start c cs = integer .decimal .int start (c :: cs) (c :: cs) [] := by
  have hdecimal : decimal start c cs = integer .decimal .int start (c :: cs) (c :: cs) [] := by
    rw [decimal, List.takeWhile_eq_self_iff.mpr hcs, List.dropWhile_eq_nil_iff.mpr hcs]
  cases cs with
  | nil => exact hdecimal
  | cons d cs =>
    have hd : isDecimalPart d = true := hcs d List.mem_cons_self
    have hletter : ∀ {x : Char}, isDecimalPart x = false → d ≠ x := by
      rintro x hx rfl
      exact absurd (hd.symm.trans hx) (by decide)
    rw [numeral, if_neg fun h => h.2.elim (hletter rfl) (hletter rfl),
      if_neg fun h => h.2.elim (hletter rfl) (hletter rfl)]
    exact hdecimal

end Lexeme

section

variable {base : Base} {radix : Radix} {lead run : List Char}

/-- a run is read to its end, in every scope -/
theorem front_run (hform : (base, radix, lead) ∈ notations) (hrun : IsRun base lead run)
    (scope : Scope) (depth : Nat) (behind : Behind) (start : Position) :
    front scope depth behind start (lead ++ run) =
      if digitCount run = 0 then .fail (.report (.missingDigits base) start start.offset)
      else Lexeme.integer base radix start (lead ++ run) run [] := by
  obtain ⟨c, cs, rfl⟩ := List.exists_cons_of_ne_nil hrun.ne_nil
  -- a zero in front of a letter changes the base
  have hzero : ∀ cs, front scope depth behind start ('0' :: cs) = Lexeme.numeral start '0' cs :=
    front_digit rfl scope depth behind start
  simp only [notations, List.mem_cons, List.not_mem_nil, or_false, Prod.mk.injEq] at hform
  rcases hform with ⟨rfl, rfl, rfl⟩ | ⟨rfl, rfl, rfl⟩ | ⟨rfl, rfl, rfl⟩ | ⟨rfl, rfl, rfl⟩ |
    ⟨rfl, rfl, rfl⟩ | ⟨rfl, rfl, rfl⟩
  · have hdigit : c.isDigit = true := hrun.digit rfl c rfl
    have hcount : digitCount (c :: cs) ≠ 0 := Nat.ne_of_gt (Lexeme.digitCount_pos hdigit cs)
    rw [if_neg hcount, List.nil_append, front_digit hdigit]
    exact Lexeme.numeral_run fun d hd => hrun.parts d (List.mem_cons_of_mem c hd)
  · have hpart : isHexPart c = true := hrun.parts c List.mem_cons_self
    have hquote : c ≠ '"' := by
      rintro rfl
      exact absurd hpart (by decide)
    rw [← Lexeme.inBase_run .hexadecimal .hex ['$'] hrun.parts]
    show Lexeme.dollar start (c :: cs) = _
    rw [Lexeme.dollar, if_neg hquote, if_pos hpart]
  all_goals
    rw [← Lexeme.inBase_run _ _ _ hrun.parts]
    exact hzero _

/-! ## runs as sources -/

theorem scan_run (hform : (base, radix, lead) ∈ notations) (hrun : IsRun base lead run)
    (hcount : 0 < digitCount run) {v : UInt64} (hv : digitsValue base.value run = v.toNat)
    (hsize : byteLength (lead ++ run) ≤ countLimit) :
    scan (String.ofList (lead ++ run))
      = .ok [⟨.atom (.number (.integer v radix)), .start, after (lead ++ run)⟩] := by
  have hbound : v.toNat < integerBound := v.toNat_lt
  have hread : readDigits? base.value run = some v.toNat := by
    rw [readDigits?_eq base.value base.value_pos run
      fun c hc => isDigitOf_of_isPart base (hrun.parts c hc), hv, if_pos hbound]
  have hfront : front (.initial .plain) 0 .nothing .start (String.ofList (lead ++ run)).toList
      = .atom (.number (.integer v radix)) (String.ofList (lead ++ run)).toList [] := by
    rw [String.toList_ofList, front_run hform hrun, if_neg (Nat.ne_of_gt hcount), Lexeme.integer, hread]
    simp only [UInt64.ofNat_toNat]
  rw [scan_of_atom (by rwa [String.toList_ofList]) (by intro h; cases h) hfront,
    String.toList_ofList]

/-- What becomes of a run of digits in each of the notations: without a digit it is refused; otherwise it
is one number, which takes the whole source, if its value has 64 bits, and too large if it has more. -/
theorem scan_integer (hform : (base, radix, lead) ∈ notations) (hrun : IsRun base lead run)
    (hsize : byteLength (lead ++ run) ≤ countLimit) :
    (digitCount run = 0 → scan (String.ofList (lead ++ run))
      = .error (.report (.missingDigits base) .start 0)) ∧
    (0 < digitCount run → ∀ v : UInt64, digitsValue base.value run = v.toNat →
      scan (String.ofList (lead ++ run))
        = .ok [⟨.atom (.number (.integer v radix)), .start, after (lead ++ run)⟩]) ∧
    (0 < digitCount run → 2 ^ 64 ≤ digitsValue base.value run →
      scan (String.ofList (lead ++ run)) = .error (.report .integerOverflow .start 0)) := by
  have hsize' : byteLength (String.ofList (lead ++ run)).toList ≤ countLimit := by
    rwa [String.toList_ofList]
  refine ⟨fun hcount => scan_of_fail hsize' ?_, fun hcount v hv => scan_run hform hrun hcount hv hsize,
    fun hcount hlarge => scan_of_fail hsize' ?_⟩
  · rw [String.toList_ofList, front_run hform hrun, if_pos hcount]
    rfl
  · have hbound : ¬digitsValue base.value run < integerBound := Nat.not_lt_of_le hlarge
    have hread : readDigits? base.value run = none := by
      rw [readDigits?_eq base.value base.value_pos run
        fun c hc => isDigitOf_of_isPart base (hrun.parts c hc), if_neg hbound]
    rw [String.toList_ofList, front_run hform hrun, if_neg (Nat.ne_of_gt hcount), Lexeme.integer, hread]
    rfl

end

/-- the largest value with separators all around it, the next one behind two zeros, and no digit at all -/
theorem scan_integer_bounds :
    scan "0x_FFFF_FFFF__FFFF_FFFF_"
        = .ok [⟨.atom (.number (.integer 0xFFFFFFFFFFFFFFFF .hex)), .start, ⟨24, 0, 0⟩⟩] ∧
      scan "0_018446744073709551616" = .error (.report .integerOverflow .start 0) ∧
      scan "$__" = .error (.report (.missingDigits .hexadecimal) .start 0) := by
  have hlargest : IsRun .hexadecimal ['0', 'x'] "_FFFF_FFFF__FFFF_FFFF_".toList :=
    ⟨by decide, List.all_eq_true.mp (by decide), fun h => absurd h (by decide)⟩
  have hnext : IsRun .decimal [] "0_018446744073709551616".toList := by
    refine ⟨by decide, List.all_eq_true.mp (by decide), ?_⟩
    rintro - _ ⟨⟩
    rfl
  have hnone : IsRun .hexadecimal ['$'] "__".toList :=
    ⟨by decide, List.all_eq_true.mp (by decide), fun h => absurd h (by decide)⟩
  refine ⟨(@scan_integer .hexadecimal .hex _ _ ?_ hlargest ?_).2.1 ?_ 0xFFFFFFFFFFFFFFFF ?_,
    (@scan_integer .decimal .int _ _ ?_ hnext ?_).2.2 ?_ ?_,
    (@scan_integer .hexadecimal .hex _ _ ?_ hnone ?_).1 ?_⟩
  all_goals decide

end ScriptLexer

import ScriptLexer.Proofs.Contexts
import ScriptLexer.Proofs.Machine.Scan
import ScriptLexer.Proofs.Pairs

/-!
# Errors that no scan comes to

Some errors are there only because a function must say something: for a backslash at the end of a body,
a float without a digit, a colour that is too large for 64 bits, a raw string without its quote.  What
was read before excludes them.

* `Cause.isUnreached`   the causes for which no scan fails;
* `Failure.reaches`     no decision fails for one of them, as a closed body is in pairs of backslashes;
* `Job.Fails.reaches`   nor does a template, as its text is in pairs where its quote closes it;
* `Reached`             what is left, for an error of a source;
* `scan_reached`        so are the errors of the scan, and of the scan by byte offsets, where all of
                        these branches are written out.
-/

namespace ScriptLexer

open Position (after)

/-! ## decisions -/

/-- the causes for which nothing fails, wherever the error stands -/
def Cause.isUnreached : Cause → Bool
  | .escape .empty => true
  | .missingDigits .decimal => true
  | .sourceTooLarge => true
  | _ => false

theorem Cause.isUnreached_escape {cause : EscapeCause} (h : cause ≠ .empty) :
    (Cause.escape cause).isUnreached = false := by
  cases cause with
  | empty => exact absurd rfl h
  | _ => rfl

theorem Failure.reaches {scope : Scope} {depth : Nat} {start : Position} {cs : List Char}
    {e : LexError} (h : Failure scope depth start cs e) : e.cause.isUnreached = false := by
  cases h with
  | @escape cs body rest e hbody hdecode =>
    have hpaired : Paired body := @quotedBody_paired [] cs body rest .nil hbody
    exact Cause.isUnreached_escape (decodeEscapes_paired hpaired hdecode)
  | @noDigits base c cs hbase _ =>
    cases base with
    | decimal => exact absurd rfl hbase
    | _ => rfl
  | _ => rfl

/-! ## the scan -/

theorem Job.Fails.reaches {k : Job} {y : List Char} {e : LexError} (h : k.Fails y e)
    (hk : k.Aligned y) : e.cause.isUnreached = false := by
  cases k with
  | tokens scope st =>
    have hfront : front scope st.depth st.behind st.position y = .fail e := h
    exact (front_failure hfront).reaches
  | template scope start d =>
    cases h.draft with
    | unterminated => rfl
    | lineBreak => rfl
    | escape hdecode =>
      have hpaired : Paired d.numbered.reverse := AlignedBefore.paired_of_hides hk (.inl rfl)
      exact Cause.isUnreached_escape (decodeEscapes_paired hpaired hdecode)

/-- an error of a source, none of those that are there only to be complete: no backslash ends a body,
no float lacks its digits, no colour is too large, no raw string lacks its quote, and the source is not
too large either -/
structure Reached (source : List Char) (e : LexError) : Prop where
  sequence : e.cause ≠ .escape .empty
  digits : e.cause ≠ .missingDigits .decimal
  colour : e.cause = .integerOverflow → ¬TextAt source ['#'] e.position.offset
  raw : ∀ quote, e.cause = .unterminatedRawString quote → ¬TextAt source ['@'] e.position.offset
  size : e.cause ≠ .sourceTooLarge

/-- a number that is too large begins with a digit or with `$`, and a raw string that is not closed is
reported behind its text -/
theorem LexError.PointsInto.reached {source : List Char} {e : LexError}
    (h : e.PointsInto .start source) (hcause : e.cause.isUnreached = false) : Reached source e := by
  obtain ⟨pre, rest, rfl, hposition, hrest⟩ := h
  rw [Position.start_advance] at hposition
  unfold LexError.PointsAt at hrest
  refine ⟨fun h => ?_, fun h => ?_, fun h => ?_, fun quote h => ?_, fun h => ?_⟩
  · rw [h] at hcause
    cases hcause
  · rw [h] at hcause
    cases hcause
  · rw [h] at hrest
    obtain ⟨c, hc, hnumeral⟩ := hrest
    obtain ⟨tail, rfl⟩ := List.head?_eq_some_iff.mp hc
    rw [hposition]
    intro hsign
    have hat : TextAt (pre ++ c :: tail) [c] (after pre).offset := ⟨pre, tail, rfl, rfl⟩
    rw [hat.char_unique hsign] at hnumeral
    exact absurd hnumeral (by decide)
  · rw [h] at hrest
    have hrest : rest = [] := hrest
    rw [hposition, hrest, List.append_nil]
    intro hat
    exact Nat.lt_irrefl _ (hat.lt (List.cons_ne_nil _ _))
  · rw [h] at hcause
    cases hcause

theorem Machine.scan_fail {source : String} {mode : Mode} {e : LexError}
    (h : Machine.scan source mode = Run.fail e) : ScriptLexer.scan source mode = .error e := by
  have hrun := Machine.run_agrees source mode
  unfold Machine.scan at h
  unfold ScriptLexer.scan
  cases hs : scanSource source mode with
  | error e' =>
    rw [hs] at hrun
    simp only at hrun
    rw [hrun, Run.fail_bind] at h
    cases h
    rfl
  | ok s =>
    rw [hs] at hrun
    obtain ⟨m, hm, _⟩ := hrun
    rw [hm] at h
    cases h

/-- Whatever the source and the mode, neither scan comes to an error that is there only to be
complete. -/
theorem scan_reached {source : String} {mode : Mode} {e : LexError}
    (hsize : byteLength source.toList ≤ countLimit)
    (h : Machine.scan source mode = Run.fail e ∨ scan source mode = .error e) :
    Reached source.toList e := by
  have hscan : scan source mode = .error e := h.elim Machine.scan_fail id
  rw [scan_error_iff hsize] at hscan
  have hpoints : e.PointsInto .start source.toList := scanTokens_points hscan
  obtain ⟨x, y, outer, k, hxy, henters, hfails⟩ :=
    errs_iff_enters.mp (Job.errs_tokens.mpr hscan)
  exact hpoints.reached (hfails.reaches (henters.aligned trivial))

/-- backslashes in front of sections hide the numbers `0` and `2`, and the template ends too early for the
digits of the last sequence -/
theorem scan_reached_numbers :
    ∃ e, scan "$\"\\\x7b\x7d\x7b\x7d\\x\x7b\x7d\"" = .error e ∧
      e.cause = .escape (.notEnoughDigits 'x' 2 1) ∧
      byteLength "$\"\\\x7b\x7d\x7b\x7d\\x\x7b\x7d\"".toList ≤ countLimit ∧
      Reached "$\"\\\x7b\x7d\x7b\x7d\\x\x7b\x7d\"".toList e := by
  refine ⟨(LexError.report (.escape (.notEnoughDigits 'x' 2 1)) ⟨0, 0, 0⟩ 0).withContext
    (.insideTemplate 0), ?h, rfl, ?hsize, scan_reached ?hsize (.inr ?h)⟩
  case h => decide +kernel
  case hsize => decide +kernel

end ScriptLexer

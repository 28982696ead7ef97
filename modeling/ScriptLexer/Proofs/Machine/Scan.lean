import ScriptLexer.Proofs.Machine.Steps

/-!
# The scan by byte offsets is the library's

A turn takes at least one character, so a scan that may take more turns than there are characters never
runs out of them.

* `Machine.scanBody_ends`   a list ends as the library's scan does;
* `scan_checked`            no check fails, and the result is the library's.
-/

namespace ScriptLexer

open Position (after)

namespace Machine

variable {m : Machine} {depth : Nat} {st st' : State} {a b x y : List Char}
  {r : Run LexError (Exit × Machine)}

/-- what follows a turn decides how the list ends -/
theorem Ends.of_turn (h : scanTokens m.scope st b = scanTokens m.scope st' y) (hb : b = x ++ y)
    (hcount : st'.count = st.count + x.length) (hr : Ends m st' (a ++ x) y r) : Ends m st a b r := by
  unfold Ends at hr ⊢
  rw [h]
  cases hs : scanTokens m.scope st' y with
  | error e =>
    rw [hs] at hr
    exact hr
  | ok s =>
    rw [hs] at hr
    obtain ⟨x', y', hxy, hcount', hstop, hend, hr⟩ := hr
    rw [List.append_assoc] at hstop hr
    refine ⟨x ++ x', y', by rw [hb, hxy, List.append_assoc], ?_, hstop, hend, hr⟩
    rw [hcount', hcount, List.length_append, Nat.add_assoc]

/-- with more turns than characters the machine ends as the library does -/
theorem scanBody_ends {n : Nat} (h : Agrees m depth st a) (hline : st.behind = .lineEnd → b = [])
    (hn : b.length < n) (hfit : byteLength (a ++ b) ≤ countLimit) :
    Ends m st a b (scanBody n depth (m.stand st.tokens a b)) := by
  induction n generalizing m depth st a b with
  | zero => exact absurd hn (Nat.not_lt_zero _)
  | succ n ih =>
    -- an inner list is shorter, so the turns that are left are enough for it
    have hscan : Scans (scanBody n 0) n := fun m a b hb hfit hinside =>
      ih (agrees_start hinside) Behind.noConfusion hb hfit
    have hleads := leads_turn hscan h hline (Nat.le_of_lt_succ hn) hfit
    rw [scanBody]
    generalize (turn (scanBody n 0) depth (m.stand st.tokens a b) : Run LexError Next) = t at hleads ⊢
    cases hleads with
    | fails h =>
      unfold Ends
      rw [h]
      rfl
    | @ends s x y h hb hcount hstop hend =>
      unfold Ends
      rw [h]
      exact ⟨x, y, hb, hcount, hstop, hend, rfl⟩
    | @goes st' depth x y h hb hx hcount hagrees hbehind =>
      subst hb
      have hshort := List.length_pos_iff.mpr hx
      rw [List.length_append] at hn
      rw [← List.append_assoc] at hfit
      exact Ends.of_turn h rfl hcount (ih hagrees hbehind (by omega) hfit)

/-- a scan leaves the machine on the line that it ended on -/
theorem position_leave (m : Machine) (ts : List Token) {e : Exit}
    (hfit : byteLength (a ++ e.text) ≤ countLimit) :
    (m.leave ts a e y).position = (after a).along e.text := by
  cases e with
  | endOfInput =>
    rw [Exit.text, List.append_nil] at hfit
    exact position_stand hfit
  | newline => exact position_standAtBreak hfit
  | brace =>
    rw [Exit.text] at hfit ⊢
    rw [← Position.advance_eq_along (after a) ['}'] (by decide), Position.advance_after]
    exact position_stand hfit

/-- where the machine stands at the end of a source, unless that has an error -/
theorem run_leaves (source : String) (mode : Mode) :
    match scanSource source mode with
    | .error e => run source mode = Run.fail e
    | .ok s => ∃ x y, source.toList = x ++ (s.exit.text ++ y) ∧ s.stop = after x ∧
      (s.exit = .endOfInput → y = []) ∧ byteLength (x ++ s.exit.text) ≤ countLimit ∧
      run source mode = .ok ((start source.toList mode).leave s.tokens.reverse x s.exit y) := by
  have hlength : (start source.toList mode).reader.length = source.utf8ByteSize :=
    byteLength_toList source
  unfold run toEnd scanSource
  simp only [hlength, settle_run]
  by_cases hsize : countLimit < source.utf8ByteSize
  · rw [if_pos hsize, if_pos hsize]
  rw [if_neg hsize, if_neg hsize]
  have hfit : byteLength source.toList ≤ countLimit := by
    rw [byteLength_toList]
    exact Nat.le_of_not_lt hsize
  have hinside : (start source.toList mode).mode = .macroBody →
      (start source.toList mode).inMacro = true := fun h => beq_iff_eq.mpr h
  have hends := scanBody_ends (agrees_start (a := []) hinside) Behind.noConfusion
    (Nat.lt_succ_self source.toList.length) hfit
  replace hends : (start source.toList mode).Ends (.start .start) [] source.toList
    (scanBody (start source.toList mode).reader.turns 0 (start source.toList mode)) := hends
  have hscope : (start source.toList mode).scope = .initial mode := rfl
  unfold Ends at hends
  rw [hscope] at hends
  cases hs : scanTokens (.initial mode) (.start .start) source.toList with
  | error e =>
    rw [hs] at hends
    simp only at hends ⊢
    rw [hends]
    rfl
  | ok s =>
    rw [hs] at hends
    obtain ⟨x, y, hxy, -, hstop, hend, hr⟩ := hends
    rw [List.nil_append] at hstop hr
    refine ⟨x, y, hxy, hstop, hend, ?_, ?_⟩
    · rw [hxy, ← List.append_assoc] at hfit
      exact Nat.le_trans (byteLength_le_append _ y) hfit
    · rw [hr]
      rfl

/-- at the end of a source the machine has the tokens of the library, and stands where their list ends -/
theorem run_agrees (source : String) (mode : Mode) :
    match scanSource source mode with
    | .error e => run source mode = Run.fail e
    | .ok s => ∃ m, run source mode = .ok m ∧ m.tokens = s.tokens.reverse ∧
      m.position = s.endPosition := by
  have hleaves := run_leaves source mode
  cases hs : scanSource source mode with
  | error e =>
    rw [hs] at hleaves
    exact hleaves
  | ok s =>
    rw [hs] at hleaves
    obtain ⟨x, y, -, hstop, -, hfit, hr⟩ := hleaves
    have hend : s.endPosition = (after x).along s.exit.text := by
      rw [← hstop, Scan.endPosition]
      cases s.exit <;> rfl
    refine ⟨_, hr, ?_, ?_⟩
    · cases s.exit <;> rfl
    · rw [hend]
      exact position_leave _ _ hfit

end Machine

/-- no check of the machine fails, whatever the source and the mode, and the machine gives what the
library gives: tokens, or an error -/
theorem scan_checked (source : String) (mode : Mode) :
    Machine.scan source mode = Run.ofExcept (scan source mode) ∧
      Machine.scanToEnd source mode = Run.ofExcept (scanToEnd source mode) ∧
      ∀ f, Machine.scan source mode ≠ Run.fault f ∧ Machine.scanToEnd source mode ≠ Run.fault f := by
  have hrun := Machine.run_agrees source mode
  have hagree : Machine.scan source mode = Run.ofExcept (scan source mode) ∧
      Machine.scanToEnd source mode = Run.ofExcept (scanToEnd source mode) := by
    unfold Machine.scan Machine.scanToEnd scan scanToEnd
    cases hs : scanSource source mode with
    | error e =>
      rw [hs] at hrun
      simp only at hrun
      rw [hrun]
      exact ⟨rfl, rfl⟩
    | ok s =>
      rw [hs] at hrun
      obtain ⟨m, hm, htokens, hposition⟩ := hrun
      rw [hm]
      simp only [Run.ok_bind, hposition, Run.token_eq (Nat.le_refl _), htokens, List.reverse_cons,
        List.reverse_reverse]
      exact ⟨rfl, rfl⟩
  refine ⟨hagree.1, hagree.2, fun f => ⟨?_, ?_⟩⟩
  · rw [hagree.1]
    exact Run.ofExcept_ne_fault _ f
  · rw [hagree.2]
    exact Run.ofExcept_ne_fault _ f

end ScriptLexer

import ScriptLexer.Proofs.Machine.Scan
import ScriptLexer.Proofs.TruePositions

/-!
# The mark of the end

`scanToEnd` gives what `scan` gives, and one more token, where the reader has stopped: at the end of the
text, behind the brace that ended a section, or behind the line break that ended the body of a macro.

That line break is read, but whoever asked for the body has to count it, and here nobody does.  So the
mark is placed truly, but for one case: behind a line break it is still on the line in front of that.

* `StopsBehind`             where the scan of a source stops, and why;
* `scanToEnd_endMark`       the mark, for every source and mode;
* `scanToEnd_endMark_break` behind a line break it is not placed truly.
-/

namespace ScriptLexer

open Position (after)

/-- what may end a scan that begins in a mode -/
def Exit.Ends (mode : Mode) : Exit → Prop
  | .endOfInput => mode ≠ .interpolation
  | .newline => mode = .macroBody
  | .brace => mode = .interpolation

/-- the scan of the source has read `x`, and the brace or line break that ended it, and has left `y` -/
structure StopsBehind (source : String) (mode : Mode) (x : List Char) (e : Exit) (y : List Char) :
    Prop where
  text : source.toList = x ++ e.text ++ y
  reader : ∃ m, Machine.run source mode = .ok m ∧ m.reader = .between (x ++ e.text) y
  rule : e.Ends mode
  ending : e = .endOfInput → y = []

theorem Machine.reader_leave (m : Machine) (ts : List Token) (a : List Char) (e : Exit)
    (y : List Char) : (m.leave ts a e y).reader = .between (a ++ e.text) y := by
  cases e with
  | endOfInput => rw [Exit.text, List.append_nil]; rfl
  | newline => rfl
  | brace => rfl

theorem exit_of_initial {mode : Mode} {st : State} {cs : List Char} {s : Scan}
    (h : scanTokens (.initial mode) st cs = .ok s) : s.exit.Ends mode := by
  obtain ⟨depth, rest, hends⟩ := scanTokens_endsAt h
  cases he : s.exit with
  | endOfInput =>
    rw [he] at hends
    exact hends.2
  | newline =>
    rw [he] at hends
    exact hends.2
  | brace =>
    rw [he] at hends
    have hbare := hends.2
    rw [Scope.isBareSection, Bool.and_eq_true, beq_iff_eq] at hbare
    exact hbare.1

theorem stopsBehind_of_scanSource {source : String} {mode : Mode} {s : Scan}
    (h : scanSource source mode = .ok s) :
    ∃ x y, StopsBehind source mode x s.exit y ∧ s.stop = after x := by
  have hleaves := Machine.run_leaves source mode
  rw [h] at hleaves
  obtain ⟨x, y, htext, hstop, hend, -, hrun⟩ := hleaves
  have htokens : scanTokens (.initial mode) (.start .start) source.toList = .ok s := by
    unfold scanSource at h
    split at h
    · cases h
    · exact h
  refine ⟨x, y, ?_, hstop⟩
  exact {
    text := by rw [htext, List.append_assoc]
    reader := ⟨_, hrun, Machine.reader_leave _ _ _ _ _⟩
    rule := exit_of_initial htokens
    ending := hend }

/-- but for a line break, the mark is behind all that was read -/
theorem endPosition_of_ne_newline {s : Scan} {x : List Char} (hstop : s.stop = after x)
    (h : s.exit ≠ .newline) : s.endPosition = after (x ++ s.exit.text) := by
  rw [Scan.endPosition, hstop]
  cases he : s.exit with
  | endOfInput => rw [Exit.text, List.append_nil]
  | newline => exact (h he).elim
  | brace =>
    rw [Exit.text, ← Position.advance_after, Position.advance_eq_along (after x) ['}'] (by decide)]

/-- The mark of the end follows the tokens of the scan, and an error is the error of the scan.  The mark
stands where the reader has stopped: at a true position, unless that is behind a line break; there its line
is the one that the break has ended. -/
theorem scanToEnd_endMark (source : String) (mode : Mode) :
    match scan source mode with
    | .error e => scanToEnd source mode = .error e
    | .ok ts => ∃ x e y p, StopsBehind source mode x e y ∧
      scanToEnd source mode = .ok (ts ++ [⟨.atom .endOfInput, p, p⟩]) ∧
      p.offset = byteLength (x ++ e.text) ∧
      if e = .newline then p.line = x.count '\n' ∧ p.lineStart = (after x).lineStart
      else p = after (x ++ e.text) := by
  unfold scan scanToEnd
  cases hs : scanSource source mode with
  | error e => rfl
  | ok s =>
    obtain ⟨x, y, hstops, hstop⟩ := stopsBehind_of_scanSource hs
    refine ⟨x, s.exit, y, s.endPosition, hstops, rfl, ?_⟩
    by_cases he : s.exit = .newline
    · rw [if_pos he, Scan.endPosition, he, hstop]
      exact ⟨(byteLength_append x ['\n']).symm, rfl, rfl⟩
    · rw [if_neg he, endPosition_of_ne_newline hstop he]
      exact ⟨rfl, rfl⟩

/-- behind a line break, the line that was counted is one too few -/
theorem scanToEnd_endMark_break :
    ∃ p, scanToEnd "a\nb" .macroBody
        = .ok [⟨.atom (.identifier "a"), ⟨0, 0, 0⟩, ⟨1, 0, 0⟩⟩, ⟨.atom .endOfInput, p, p⟩] ∧
      p.offset = byteLength "a\n".toList ∧ p.line + 1 = "a\n".toList.count '\n' ∧
      ¬p.IsTrue "a\nb".toList := by
  refine ⟨⟨2, 0, 0⟩, by decide +kernel, by decide +kernel, by decide +kernel, ?_⟩
  rintro ⟨pre, post, htext, hp⟩
  have hoffset : byteLength ['a', '\n'] = byteLength pre := congrArg Position.offset hp
  obtain ⟨rfl, -⟩ := append_inj_of_byteLength (v := ['b']) htext hoffset
  exact absurd hp (by decide)

end ScriptLexer

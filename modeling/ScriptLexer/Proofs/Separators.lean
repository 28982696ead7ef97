import ScriptLexer.Proofs.Embed
import ScriptLexer.Proofs.Origin
import ScriptLexer.Proofs.Relocate

/-!
# Texts behind a separator

A line break, or a run of blanks, cuts a source in two that are scanned apart.  The tokens of the
first part stay as they are, those of the second part are embedded behind the separator, and so is
an error of the second part.

A text is open-ended if its last token takes the rest of its line and has come to the end of the
text.  Then a blank behind it still belongs to that token, and a line break behind it is no token.

* `OpenEnded`         that property, read off the tokens;
* `State.Recalls`     the state of a scan knows it, by what lies behind (`Behind.lineEnd`);
* `Separable`         what a scan makes of the text with a separator and another text behind it.
-/

namespace ScriptLexer

open Position (after)

/-! ## open ends -/

/-- a token of this kind takes the rest of its line -/
def Kind.TakesLine : Kind → Prop
  | .atom (.comment .line _) => True
  | .atom (.region _) => True
  | .atom (.endRegion _) => True
  | .macroDef _ => True
  | _ => False

/-- the last token takes the rest of its line and stops at the end of the text -/
def OpenEnded (text : List Char) (ts : List Token) : Prop :=
  ∃ t, ts.getLast? = some t ∧ t.kind.TakesLine ∧ t.stop.offset = byteLength text

theorem Kind.takesLine_iff (k : Kind) : k.TakesLine ↔ k.behind = .lineEnd := by
  cases k with
  | template t => simp [Kind.TakesLine, Kind.behind]
  | macroDef m => simp [Kind.TakesLine, Kind.behind]
  | atom a =>
    cases a with
    | comment style text => cases style <;> simp [Kind.TakesLine, Kind.behind, Atom.behind]
    | number n =>
      simp only [Kind.TakesLine, Kind.behind, Atom.behind, false_iff]
      split <;> simp
    | _ => simp [Kind.TakesLine, Kind.behind, Atom.behind]

instance (k : Kind) : Decidable k.TakesLine := decidable_of_iff' _ k.takesLine_iff

/-- what lies behind is `b` exactly if the last token leaves `b` behind it and stops there -/
structure State.Recalls (b : Behind) (st : State) : Prop where
  last : ∀ t ∈ st.tokens.head?, t.stop.offset ≤ st.position.offset
  behind : st.behind = b ↔
    ∃ t, st.tokens.head? = some t ∧ t.kind.behind = b ∧ t.stop.offset = st.position.offset

namespace State

variable {b : Behind}

theorem recalls_start (hb : b ≠ .nothing) (p : Position) : (State.start p).Recalls b where
  last t h := nomatch h
  behind := by simp [State.start, hb.symm]

theorem Recalls.skip {st : State} (hb : b ≠ .nothing) (h : st.Recalls b) (c : Char) :
    (st.skip c).Recalls b := by
  have hlt : st.position.offset < (st.skip c).position.offset := by
    rw [State.skip, Position.offset_next]
    exact Nat.lt_add_of_pos_right c.utf8Size_pos
  constructor
  · exact fun t ht => Nat.le_trans (h.last t ht) (Nat.le_of_lt hlt)
  · constructor
    · exact fun hbehind => (hb hbehind.symm).elim
    · rintro ⟨t, ht, _, hstop⟩
      have := h.last t ht
      omega

theorem recalls_push (b : Behind) (st : State) (k : Kind) (text : List Char) :
    (st.push k text).Recalls b := by
  have hstop : (stopOf k st.position text).offset = (st.push k text).position.offset := by
    rw [offset_stopOf, State.push, Position.offset_advance]
  constructor
  · rintro t ⟨⟩
    exact Nat.le_of_eq hstop
  · refine ⟨fun hk => ⟨_, rfl, hk, hstop⟩, ?_⟩
    rintro ⟨t, ⟨⟩, hk, _⟩
    exact hk

end State

/-- the state of a list of tokens recalls whether its last token has taken the line -/
def Job.Remembers : Job → Prop
  | .tokens _ st => st.Recalls .lineEnd
  | .template _ _ _ => True

theorem Reads.remembers {j j' : Job} {x y : List Char} (h : Reads j x y j') :
    j.Remembers → j'.Remembers := by
  induction h with
  | done => exact id
  | blank _ _ ih => exact fun hj => ih (State.Recalls.skip (by decide) hj _)
  | atom _ _ ih => exact fun _ => ih (State.recalls_push _ _ _ _)
  | template _ _ _ _ _ ih => exact fun _ => ih (State.recalls_push _ _ _ _)
  | macroDef _ _ _ _ _ ih => exact fun _ => ih (State.recalls_push _ _ _ _)
  | text _ _ ih => exact fun _ => ih trivial
  | braces _ _ _ _ ih => exact fun _ => ih trivial

/-- a plain scan that succeeds is a run over the whole source -/
theorem scan_plain_reads {source : String} {ts : List Token} (h : scan source = .ok ts) :
    ∃ st, Reads (.begin (.initial .plain) .start) source.toList []
      (.tokens (.initial .plain) st) ∧ ts = st.tokens.reverse := by
  obtain ⟨_, x, y, st, e, hxy, hx, hexit, hts⟩ := scan_reads h
  have hends := (front_exit_iff _ _ _ _ _ _).mp hexit
  obtain rfl : y = [] := by
    cases e with
    | endOfInput => exact hends.1
    | newline => exact absurd hends.2 (by decide)
    | brace => exact absurd hends.2 (by simp [Scope.isBareSection, Scope.initial])
  rw [List.append_nil] at hxy
  exact ⟨st, hxy ▸ hx, hts⟩

theorem Reads.position_after {scope : Scope} {st : State} {x y : List Char}
    (h : Reads (.begin scope .start) x y (.tokens scope st)) : st.position = after x := by
  rw [show st.position = _ from h.position_eq]
  exact Position.start_advance x

/-- the state at the end of a text knows whether the text is open-ended -/
theorem Reads.behind_iff {scope : Scope} {st : State} {x y : List Char}
    (h : Reads (.begin scope .start) x y (.tokens scope st)) :
    st.behind = .lineEnd ↔ OpenEnded x st.tokens.reverse := by
  have hst : st.Recalls .lineEnd := h.remembers (State.recalls_start (by decide) .start)
  rw [hst.behind, OpenEnded, h.position_after, List.getLast?_reverse]
  simp only [Kind.takesLine_iff]
  rfl

/-! ## over the separator -/

/-- in a plain scope a line break is a token unless the token in front of it took the line -/
theorem scanTokens_newline (st : State) (cs : List Char) :
    scanTokens (.initial .plain) st ('\n' :: cs) =
      if st.behind = .lineEnd then scanTokens (.initial .plain) (st.skip '\n') cs
      else scanTokens (.initial .plain) (st.push (.atom .newline) ['\n']) cs := by
  have hfront : front (.initial .plain) st.depth st.behind st.position ('\n' :: cs)
      = if st.behind = .lineEnd then .blank '\n' cs else .atom .newline ['\n'] cs := rfl
  rw [scanTokens_eq, hfront]
  by_cases h : st.behind = .lineEnd
  · rw [if_pos h, if_pos h]
  · rw [if_neg h, if_neg h]

theorem isBlank_iff (c : Char) :
    isBlank c = true ↔ c = ' ' ∨ c = '\t' ∨ c = '\x0b' ∨ c = '\x0c' := by
  simp [isBlank, or_assoc]

theorem front_blank {c : Char} (hc : isBlank c = true) (scope : Scope) (depth : Nat)
    (behind : Behind) (start : Position) (cs : List Char) :
    front scope depth behind start (c :: cs) = .blank c cs := by
  rcases (isBlank_iff c).mp hc with rfl | rfl | rfl | rfl <;> rfl

/-- more characters without a token -/
def State.skipAll (st : State) (w : List Char) : State := w.foldl State.skip st

theorem State.skipAll_tokens (st : State) (w : List Char) : (st.skipAll w).tokens = st.tokens := by
  induction w generalizing st with
  | nil => rfl
  | cons c w ih => exact ih (st.skip c)

theorem State.skipAll_position (st : State) (w : List Char) :
    (st.skipAll w).position = st.position.advance w := by
  induction w generalizing st with
  | nil => rfl
  | cons c w ih => exact ih (st.skip c)

theorem State.skipAll_count (st : State) (w : List Char) :
    (st.skipAll w).count = st.count + w.length := by
  induction w generalizing st with
  | nil => rfl
  | cons c w ih =>
    rw [List.length_cons, Nat.add_comm w.length, ← Nat.add_assoc]
    exact ih (st.skip c)

theorem State.skipAll_behind (st : State) {w : List Char} (hw : w ≠ []) :
    (st.skipAll w).behind = .nothing := by
  induction w generalizing st with
  | nil => exact absurd rfl hw
  | cons c w ih =>
    cases w with
    | nil => rfl
    | cons d w => exact ih (st.skip c) (List.cons_ne_nil d w)

theorem scanTokens_blanks (scope : Scope) (st : State) {w : List Char}
    (hw : ∀ c ∈ w, isBlank c = true) (cs : List Char) :
    scanTokens scope st (w ++ cs) = scanTokens scope (st.skipAll w) cs := by
  induction w generalizing st with
  | nil => rfl
  | cons c w ih =>
    rw [List.cons_append, scanTokens_eq, front_blank (hw c List.mem_cons_self)]
    exact ih (st.skip c) fun d hd => hw d (List.mem_cons_of_mem c hd)

/-! ## the second text -/

/-- the result of a scan of a text that begins at `base`, behind the tokens `before` -/
def resultBehind (before : List Token) (base : Position) :
    Except LexError (List Token) → Except LexError (List Token) :=
  moveResult base fun ts => before ++ embedTokens base ts

/-- from a state with nothing behind it the scan goes on as from the beginning of a source -/
theorem scanTokens_goesOn {st : State} (h : st.behind = .nothing) (cs : List Char) :
    (scanTokens (.initial .plain) st cs).map Scan.tokens = resultBehind st.tokens.reverse
      st.position ((scanTokens (.initial .plain) (.start .start) cs).map Scan.tokens) := by
  have hst : State.Moved st.position st.tokens st.count (.initial .plain) (.start .start) st :=
    ⟨rfl, (Nat.zero_add _).symm, (Position.embed_start _).symm, h, fun h => absurd h (by decide)⟩
  rw [scanTokens_embed (Scope.moved_initial st.position) hst cs]
  cases scanTokens (.initial .plain) (.start .start) cs <;> rfl

/-- the same in any mode, of scans that succeed: errors may tell where the scope begins -/
theorem scanTokens_goesOn_iff {mode : Mode} {st : State} (hbehind : st.behind = .nothing)
    (hdepth : st.depth = 0) (cs : List Char) (ts : List Token) :
    (∃ s, scanTokens (.initial mode) st cs = .ok s ∧ s.tokens = ts) ↔
      ∃ s, scanTokens (.initial mode) (.start .start) cs = .ok s ∧
        ts = st.tokens.reverse ++ embedTokens st.position s.tokens := by
  -- the scope moved along with the text: where it begins only matters to errors
  obtain ⟨there, hmoved, hthere, hhere⟩ : ∃ there, (Scope.initial mode).Moved st.position there ∧
      (Scope.initial mode).Eases there ∧ there.Eases (.initial mode) :=
    ⟨⟨mode, 0 + st.position.offset, mode == .macroBody⟩, ⟨rfl, rfl, fun _ => rfl⟩, ⟨rfl, id⟩,
      ⟨rfl, id⟩⟩
  have hst : State.Moved st.position st.tokens st.count (.initial mode) (.start .start) st :=
    ⟨rfl, (Nat.zero_add _).symm, (Position.embed_start _).symm, hbehind, fun _ => hdepth⟩
  have hembed := scanTokens_embed hmoved hst cs
  constructor
  · rintro ⟨s, hs, rfl⟩
    rw [scanTokens_ease hthere hs] at hembed
    cases halone : scanTokens (.initial mode) (.start .start) cs with
    | error e =>
      rw [halone] at hembed
      cases hembed
    | ok s' =>
      rw [halone] at hembed
      cases hembed
      exact ⟨s', rfl, rfl⟩
  · rintro ⟨s, hs, rfl⟩
    rw [hs] at hembed
    exact ⟨_, scanTokens_ease hhere hembed, rfl⟩

/-- two texts with a separator between them, over which the scan gets from the end of the first text
with nothing behind it -/
theorem scan_append_separator {a s b : String} {st st' : State}
    (ha : Reads (.begin (.initial .plain) .start) a.toList [] (.tokens (.initial .plain) st))
    (hbreak : Break (s.toList ++ b.toList))
    (hline : st.behind = .lineEnd → LineEnd (s.toList ++ b.toList))
    (hs : scanTokens (.initial .plain) st (s.toList ++ b.toList)
      = scanTokens (.initial .plain) st' b.toList)
    (hst : st'.behind = .nothing) (hsize : (a ++ s ++ b).utf8ByteSize ≤ countLimit) :
    scan (a ++ s ++ b) = resultBehind st'.tokens.reverse st'.position (scan b) := by
  have hlist : (a ++ s ++ b).toList = a.toList ++ (s.toList ++ b.toList) := by simp
  rw [← byteLength_toList] at hsize
  have hb : byteLength b.toList ≤ countLimit := by
    rw [hlist, byteLength_append, byteLength_append] at hsize
    omega
  have hrun := (ha.relocate (Scope.eases_refl _) (.inl hbreak) fun h _ => hline h).run_eq
  have hscan : scanTokens (.initial .plain) (.start .start) (a ++ s ++ b).toList
      = scanTokens (.initial .plain) st' b.toList := by
    rw [← hs, hlist]
    exact Job.run_tokens_inj hrun
  rw [scan_eq hsize, scan_eq hb, hscan]
  exact scanTokens_goesOn hst b.toList

/-- what a scan makes of a text behind which a separator and another text stand, if its own tokens
are `ts` -/
structure Separable (a : String) (ts : List Token) : Prop where
  /-- behind a closed end a line break is a token -/
  newline : ¬OpenEnded a.toList ts → ∀ b : String, (a ++ "\n" ++ b).utf8ByteSize ≤ countLimit →
    scan (a ++ "\n" ++ b) = resultBehind
      (ts ++ [⟨.atom .newline, after a.toList, (after a.toList).along ['\n']⟩])
      ⟨a.utf8ByteSize + 1, a.toList.count '\n' + 1, a.utf8ByteSize + 1⟩ (scan b)
  /-- behind an open end it is none -/
  openEnded : OpenEnded a.toList ts → ∀ b : String, (a ++ "\n" ++ b).utf8ByteSize ≤ countLimit →
    scan (a ++ "\n" ++ b) = resultBehind ts
      ⟨a.utf8ByteSize + 1, a.toList.count '\n' + 1, a.utf8ByteSize + 1⟩ (scan b)
  /-- blanks separate behind a closed end -/
  blanks : ¬OpenEnded a.toList ts → ∀ w b : String, w ≠ "" → (∀ c ∈ w.toList, isBlank c = true) →
    (a ++ w ++ b).utf8ByteSize ≤ countLimit →
    scan (a ++ w ++ b) = resultBehind ts (after (a ++ w).toList) (scan b)

/-- scanning is compositional across separators -/
theorem scan_separable {a : String} {ts : List Token} (h : scan a = .ok ts) : Separable a ts := by
  obtain ⟨st, ha, rfl⟩ := scan_plain_reads h
  have hposition := ha.position_after
  have hopen := ha.behind_iff
  have hnext : st.position.next '\n'
      = ⟨a.utf8ByteSize + 1, a.toList.count '\n' + 1, a.utf8ByteSize + 1⟩ := by
    rw [hposition, Position.next_newline, ← byteLength_toList]
    rfl
  have hend : ∀ b : String, LineEnd ("\n".toList ++ b.toList) := fun b => lineEnd_cons.mpr rfl
  refine ⟨fun hclosed b hsize => ?_, fun hline b hsize => ?_, fun hclosed w b hne hw hsize => ?_⟩
  · have hs := (scanTokens_newline st b.toList).trans (if_neg fun h => hclosed (hopen.mp h))
    rw [scan_append_separator ha (hend b).toBreak (fun _ => hend b) hs rfl hsize, ← hnext,
      ← hposition]
    simp only [State.push, List.reverse_cons, stopOf_newline]
    rfl
  · have hs := (scanTokens_newline st b.toList).trans (if_pos (hopen.mpr hline))
    rw [scan_append_separator ha (hend b).toBreak (fun _ => hend b) hs rfl hsize, ← hnext]
    rfl
  · have hne' : w.toList ≠ [] := fun h => hne (String.toList_eq_nil_iff.mp h)
    obtain ⟨c, cs, hcs⟩ := List.exists_cons_of_ne_nil hne'
    have hbreak : Break (w.toList ++ b.toList) := by
      rw [hcs, List.cons_append, break_cons]
      have hc : isBlank c = true := hw c (hcs ▸ List.mem_cons_self)
      rcases (isBlank_iff c).mp hc with rfl | rfl | rfl | rfl <;> decide
    rw [scan_append_separator ha hbreak (fun h => (hclosed (hopen.mp h)).elim)
      (scanTokens_blanks _ st hw b.toList) (st.skipAll_behind hne') hsize,
      State.skipAll_tokens, State.skipAll_position, hposition, Position.advance_after,
      String.toList_append]

/-- behind an open end and behind a closed one -/
theorem scan_separable_comment :
    (∃ ts, scan "a // b" = .ok ts ∧ OpenEnded "a // b".toList ts ∧ Separable "a // b" ts) ∧
      ∃ ts, scan "a" = .ok ts ∧ ¬OpenEnded "a".toList ts ∧ Separable "a" ts := by
  have hopen : scan "a // b" = .ok [⟨.atom (.identifier "a"), ⟨0, 0, 0⟩, ⟨1, 0, 0⟩⟩,
      ⟨.atom (.comment .line " b"), ⟨2, 0, 0⟩, ⟨6, 0, 0⟩⟩] := scan_of_toOption (by decide +kernel)
  have hclosed : scan "a" = .ok [⟨.atom (.identifier "a"), ⟨0, 0, 0⟩, ⟨1, 0, 0⟩⟩] :=
    scan_of_toOption (by decide +kernel)
  refine ⟨⟨_, hopen, ⟨_, rfl, trivial, rfl⟩, scan_separable hopen⟩, _, hclosed, ?_,
    scan_separable hclosed⟩
  rintro ⟨t, ⟨⟩, htakes, _⟩
  exact htakes

end ScriptLexer

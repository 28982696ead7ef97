import ScriptLexer.Proofs.Origin

/-!
# Line bookkeeping is exact

A position is true of a source when its line and the beginning of that line are what counting the
line breaks in front of it gives.  A scan never counts so: it carries a position along, through
comments, raw strings, joined lines, macro bodies and sections.

`scan_positions_true` says that all the same every token of a scan's result is placed truly, at any
depth.  The only position that is not true is where the token of a line break stops, because that is
counted on the line that it ends.
-/

namespace ScriptLexer

namespace Position

/-- the position of the end of an initial part of the source -/
def IsTrue (source : List Char) (p : Position) : Prop :=
  ∃ pre post, source = pre ++ post ∧ p = after pre

theorem hasColumn_after (cs : List Char) : (after cs).HasColumn := by
  rw [← start_advance]
  exact hasColumn_advance start cs (Nat.le_refl 0)

theorem IsTrue.hasColumn {source : List Char} {p : Position} (h : p.IsTrue source) :
    p.HasColumn := by
  obtain ⟨pre, post, _, rfl⟩ := h
  exact hasColumn_after pre

theorem hasColumn_along {p : Position} (h : p.HasColumn) (cs : List Char) :
    (p.along cs).HasColumn :=
  Nat.le_trans h (Nat.le_add_right _ _)

/-- on a line the beginning of the line stays -/
theorem sameLine_advance (p : Position) {cs : List Char} (h : '\n' ∉ cs) :
    (p.advance cs).line = p.line ∧ (p.advance cs).lineStart = p.lineStart := by
  rw [advance_eq_along p cs h]
  exact ⟨rfl, rfl⟩

end Position

/-- the positions of a token are true, those of the names in a macro header included -/
structure PlacedTruly (source : List Char) (t : Token) : Prop where
  start : t.start.IsTrue source
  stop : t.kind ≠ .atom .newline → t.stop.IsTrue source
  /-- a line break stops on the line that it ends -/
  newline : t.kind = .atom .newline → t.stop = ⟨t.stop.offset, t.start.line, t.start.lineStart⟩
  names : ∀ m, t.kind = .macroDef m → m.nameStart.IsTrue source ∧ m.nameStop.IsTrue source ∧
    m.nameStop.line = m.nameStart.line ∧ m.nameStop.lineStart = m.nameStart.lineStart
  columns : t.start.HasColumn ∧ t.stop.HasColumn ∧
    ∀ m, t.kind = .macroDef m → m.nameStart.HasColumn ∧ m.nameStop.HasColumn

open Position (after)

/-- a token with no names of its own is placed truly if its text stands where it should -/
theorem placedTruly_of_text {source pre text rest : List Char} {k : Kind}
    (hsource : source = pre ++ text ++ rest) (hk : ∀ m, k ≠ .macroDef m) :
    PlacedTruly source ⟨k, after pre, stopOf k (after pre) text⟩ := by
  have hstart : (after pre).IsTrue source := ⟨pre, text ++ rest, by simp [hsource], rfl⟩
  by_cases hn : k = .atom .newline
  · subst hn
    rw [stopOf_newline]
    exact {
      start := hstart
      stop := fun h => absurd rfl h
      newline := fun _ => rfl
      names := fun m h => absurd h (hk m)
      columns := ⟨hstart.hasColumn, Position.hasColumn_along hstart.hasColumn text,
        fun m h => absurd h (hk m)⟩ }
  · have hstop : ((after pre).advance text).IsTrue source :=
      ⟨pre ++ text, rest, hsource, Position.advance_after pre text⟩
    rw [stopOf_of_ne hn]
    exact {
      start := hstart
      stop := fun _ => hstop
      newline := fun h => absurd h hn
      names := fun m h => absurd h (hk m)
      columns := ⟨hstart.hasColumn, hstop.hasColumn, fun m h => absurd h (hk m)⟩ }

theorem Arises.placedTruly {source : List Char} {t : Token} (h : Arises source t) :
    PlacedTruly source t := by
  cases h with
  | atom hsource _ => exact placedTruly_of_text hsource (fun m h => nomatch h)
  | template hsource _ _ => exact placedTruly_of_text hsource (fun m h => nomatch h)
  | @macroDef scope depth behind pre body rest header st e hsource hfront _ _ =>
    have hplaced := front_header hfront
    have hnameStart : header.nameStart = after (pre ++ header.lead) := by
      rw [hplaced.nameStart, Position.advance_after]
    have hnameStop : header.nameStop = after (pre ++ header.lead ++ header.names) := by
      rw [hplaced.nameStop, hnameStart, Position.advance_after]
    have hstart : (after pre).IsTrue source :=
      ⟨pre, _, by rw [hsource, List.append_assoc], rfl⟩
    have hstop : (stopOf (.macroDef (header.define body st.tokens.reverse)) (after pre)
        (header.lead ++ (header.names ++ body))).IsTrue source :=
      ⟨_, rest, hsource, Position.advance_after _ _⟩
    have hfirst : header.nameStart.IsTrue source :=
      ⟨_, header.names ++ body ++ rest, by simp [hsource], hnameStart⟩
    have hlast : header.nameStop.IsTrue source :=
      ⟨_, body ++ rest, by simp [hsource], hnameStop⟩
    have hline := Position.sameLine_advance header.nameStart hplaced.oneLine
    rw [← hplaced.nameStop] at hline
    exact {
      start := hstart
      stop := fun _ => hstop
      newline := fun h => nomatch h
      names := by
        rintro m ⟨⟩
        exact ⟨hfirst, hlast, hline⟩
      columns := by
        refine ⟨hstart.hasColumn, hstop.hasColumn, ?_⟩
        rintro m ⟨⟩
        exact ⟨hfirst.hasColumn, hlast.hasColumn⟩ }

/-- the tokens of a scan are placed truly, at any depth -/
theorem scan_positions_true {source : String} {mode : Mode} {ts : List Token}
    (h : scan source mode = .ok ts) {t : Token} (ht : Occurs t ts) :
    PlacedTruly source.toList t :=
  (scan_arises h ht).placedTruly

/-- on the second line, in a section of a template in a macro body -/
theorem scan_positions_true_section :
    ∃ ts t, scan "#macro M $\"\x7b\nb\x7d\"" = .ok ts ∧ Occurs t ts ∧ t.start = ⟨13, 1, 13⟩ ∧
      PlacedTruly "#macro M $\"\x7b\nb\x7d\"".toList t := by
  refine ⟨[⟨.macroDef ⟨"M", none, "M $\"\x7b\nb\x7d\"", ⟨7, 0, 0⟩, ⟨8, 0, 0⟩,
    [⟨.template ⟨"\x7b\nb\x7d", "0", [⟨⟨11, 15⟩, ⟨0, 4⟩,
      [⟨.atom .newline, ⟨12, 0, 0⟩, ⟨13, 0, 0⟩⟩,
        ⟨.atom (.identifier "b"), ⟨13, 1, 13⟩, ⟨14, 1, 13⟩⟩]⟩]⟩, ⟨9, 0, 0⟩, ⟨16, 1, 13⟩⟩]⟩,
    ⟨0, 0, 0⟩, ⟨16, 1, 13⟩⟩], ⟨.atom (.identifier "b"), ⟨13, 1, 13⟩, ⟨14, 1, 13⟩⟩, ?h, ?ht, rfl,
    scan_positions_true ?h ?ht⟩
  case h => exact scan_of_toOption (by decide +kernel)
  case ht =>
    refine .inside List.mem_cons_self List.mem_cons_self ?_
    refine .inside List.mem_cons_self List.mem_cons_self ?_
    exact .here (List.mem_cons_of_mem _ List.mem_cons_self)

end ScriptLexer

import ScriptLexer.Proofs.Embed
import ScriptLexer.Proofs.Relocate
import ScriptLexer.Proofs.Sections
import ScriptLexer.Proofs.Slices
import ScriptLexer.Proofs.TruePositions

/-!
# Bodies and sections scanned on their own

The body of a macro definition is a source of its own, in the mode of a body, and so is what stands
between the braces of a section, with its closing brace, in the mode of a section.  `scan_subscans`
says that scanning them so gives the tokens that the definition or the section holds, embedded where
the text stands.

The list inside was read in a scope that lies somewhere in the source, perhaps in another body, and
in front of whatever follows it there.  `Reads.relocate` takes the run out of that place, and
`Reads.scan_elsewhere` takes it to the beginning of a source.
-/

namespace ScriptLexer

open Position (after)

/-- what a run from `p` to the end of its scope makes is what a scan of the text alone makes, embedded
at `p` -/
theorem Reads.scan_elsewhere {scope scope' : Scope} {p : Position} {x y : List Char} {st : State}
    {e : Exit} (h : Reads (.begin scope' p) x y (.tokens scope' st))
    (hexit : front scope' st.depth st.behind st.position y = .exit e) (hs : scope.Moved p scope') :
    ∃ s, scanTokens scope (.start .start) (x ++ y) = .ok s ∧
      st.tokens.reverse = embedTokens p s.tokens := by
  have hthere : scanTokens scope' (.start p) (x ++ y) = .ok (st.finish e) := h.scanTokens_ok hexit
  have hembed := scanTokens_embed hs (State.moved_start p _ .start) (x ++ y)
  rw [Position.embed_start, hthere] at hembed
  cases hhere : scanTokens scope (.start .start) (x ++ y) with
  | error e =>
    rw [hhere] at hembed
    cases hembed
  | ok s =>
    rw [hhere] at hembed
    exact ⟨s, rfl, congrArg Scan.tokens (Except.ok.inj hembed)⟩

/-- the same of a mode and a whole source -/
theorem Reads.scan_mode {scope' : Scope} {mode : Mode} {p : Position} {x y : List Char} {st : State}
    {e : Exit} (h : Reads (.begin scope' p) x y (.tokens scope' st))
    (hexit : front scope' st.depth st.behind st.position y = .exit e)
    (hs : (Scope.initial mode).Moved p scope') (hsize : byteLength (x ++ y) ≤ countLimit) :
    ∃ us, scan (String.ofList (x ++ y)) mode = .ok us ∧ st.tokens.reverse = embedTokens p us := by
  obtain ⟨s, hs, htokens⟩ := h.scan_elsewhere hexit hs
  refine ⟨s.tokens, ?_, htokens⟩
  rw [scan_ok_iff (by rwa [String.toList_ofList]), String.toList_ofList]
  exact ⟨s, hs, rfl⟩

/-- what a token holds is what scans of the texts inside it give, embedded where these stand -/
structure Rescans (source : List Char) (t : Token) : Prop where
  macroDef : ∀ m, t.kind = .macroDef m →
    ∃ body us, slice? source m.nameStop.offset t.stop.offset = some body ∧
      scan (String.ofList body) .macroBody = .ok us ∧ m.body = embedTokens m.nameStop us
  template : ∀ p, t.kind = .template p → ∀ s ∈ p.sections,
    ∃ e inner q us, s.expression? = some e ∧ slice? source e.start e.stop = some inner ∧
      q.IsTrue source ∧ q.offset = e.start ∧
      scan (String.ofList (inner ++ ['}'])) .interpolation = .ok us ∧ s.tokens = embedTokens q us

theorem Arises.rescans_macroDef {source : List Char} {t : Token} (h : Arises source t)
    (hsize : byteLength source ≤ countLimit) {m : MacroDef Token} (hk : t.kind = .macroDef m) :
    ∃ body us, slice? source m.nameStop.offset t.stop.offset = some body ∧
      scan (String.ofList body) .macroBody = .ok us ∧ m.body = embedTokens m.nameStop us := by
  cases h with
  | atom _ _ => cases hk
  | template _ _ _ => cases hk
  | @macroDef scope depth behind pre body rest header st e hsource hfront hbody hexit =>
    cases hk
    have hplaced := front_header hfront
    have hnameStop : header.nameStop = after (pre ++ header.lead ++ header.names) := by
      rw [hplaced.nameStop, hplaced.nameStart, Position.advance_after, Position.advance_after]
    -- the body reaches to the end of a line, so it may as well reach to the end of a text
    have hrun : Reads (.begin (.bodyAt (0 + header.nameStop.offset)) header.nameStop) body []
        (.tokens (.bodyAt (0 + header.nameStop.offset)) st) :=
      hbody.relocate ⟨rfl, id⟩ (.inl break_nil) fun _ _ => lineEnd_nil
    obtain ⟨e', hend⟩ := (body_exit_iff (0 + header.nameStop.offset) st.depth st.behind st.position
      []).mpr lineEnd_nil
    have hfits : byteLength (body ++ []) ≤ countLimit := by
      rw [hsource] at hsize
      simp only [byteLength_append, byteLength_nil] at hsize ⊢
      omega
    have hmoved : (Scope.initial .macroBody).Moved header.nameStop
        (.bodyAt (0 + header.nameStop.offset)) := Scope.moved_bodyAt header.nameStop 0
    obtain ⟨us, hscan, htokens⟩ := hrun.scan_mode hend hmoved hfits
    rw [List.append_nil] at hscan
    refine ⟨body, us, ?_, hscan, htokens⟩
    refine slice?_eq_some_iff.mpr ⟨pre ++ header.lead ++ header.names, rest, ?_, ?_, ?_⟩
    · rw [hsource]
      simp
    · show _ = header.nameStop.offset
      rw [hnameStop]
      rfl
    · rw [offset_stopOf]
      simp only [byteLength_append]
      show _ = byteLength pre + _
      omega

theorem Arises.rescans_section {source : List Char} {t : Token} (h : Arises source t)
    (hsize : byteLength source ≤ countLimit) {p : Template Token} (hk : t.kind = .template p)
    {s : Section Token} (hs : s ∈ p.sections) :
    ∃ e inner q us, s.expression? = some e ∧ slice? source e.start e.stop = some inner ∧
      q.IsTrue source ∧ q.offset = e.start ∧
      scan (String.ofList (inner ++ ['}'])) .interpolation = .ok us ∧
      s.tokens = embedTokens q us := by
  obtain ⟨scope, pre, inner, rest, st, hsource, habsolute, htokens, hrun, hexit⟩ := h.section hk hs
  have hbrace := (front_exit_iff _ _ _ _ _ _).mp hexit
  have hsplit : source = pre ++ ['{'] ++ inner ++ ('}' :: rest) := by
    rw [hsource]
    simp
  -- a section that stands in no macro body, in front of nothing but its brace
  let scope' : Scope := ⟨.interpolation, 0 + (after (pre ++ ['{'])).offset, false⟩
  have hmoved : (Scope.initial .interpolation).Moved (after (pre ++ ['{'])) scope' :=
    ⟨rfl, rfl, fun _ => rfl⟩
  have hrun' : Reads (.begin scope' (after (pre ++ ['{']))) inner ['}'] (.tokens scope' st) := by
    refine hrun.relocate ⟨rfl, fun h => absurd h Bool.false_ne_true⟩
      (.inl (break_cons.mpr (by decide))) ?_
    exact fun _ h => absurd (lineEnd_cons.mp h) (by decide)
  have hexit' : front scope' st.depth st.behind st.position ['}'] = .exit .brace :=
    (front_exit_iff _ _ _ _ _ _).mpr ⟨rfl, hbrace.2⟩
  have hfits : byteLength (inner ++ ['}']) ≤ countLimit := by
    rw [hsplit] at hsize
    simp only [byteLength_append, byteLength_cons, byteLength_nil] at hsize ⊢
    omega
  obtain ⟨us, hscan, hus⟩ := hrun'.scan_mode hexit' hmoved hfits
  have hwhole : byteLength (pre ++ ['{'] ++ (inner ++ '}' :: rest)) ≤ countLimit := by
    rw [← List.append_assoc, ← hsplit]
    exact hsize
  have hexpression := Section.expression?_eq habsolute hwhole
  refine ⟨_, inner, after (pre ++ ['{']), us, hexpression, ?_, ?_, rfl, hscan, htokens.trans hus⟩
  · rw [hsplit]
    exact slice?_append _ _ _
  · exact ⟨pre ++ ['{'], inner ++ '}' :: rest, by rw [hsplit]; simp, rfl⟩

/-- scans of the texts inside the tokens of a tree give what the tokens hold -/
theorem scan_subscans {source : String} {mode : Mode} {ts : List Token}
    (h : scan source mode = .ok ts) {t : Token} (ht : Occurs t ts) : Rescans source.toList t := by
  obtain ⟨hsize, _⟩ := scan_reads h
  have harises := scan_arises h ht
  exact ⟨fun m hk => harises.rescans_macroDef hsize hk,
    fun p hk s hs => harises.rescans_section hsize hk hs⟩

/-- a macro body with a template in it, whose section reaches over two lines -/
theorem scan_subscans_body :
    ∃ ts, scan "#macro M $\"\x7b\nb\x7d\"" = .ok ts ∧
      ∃ t u, Occurs t ts ∧ Occurs u ts ∧ (∃ m, t.kind = .macroDef m ∧ m.body = [u]) ∧
        (∃ p, u.kind = .template p ∧ p.sections.length = 1) ∧
        Rescans "#macro M $\"\x7b\nb\x7d\"".toList t ∧
        Rescans "#macro M $\"\x7b\nb\x7d\"".toList u := by
  have ht : ∀ t : Token, Occurs t [t] := fun t => .here List.mem_cons_self
  refine ⟨_, ?h, _, _, ht ⟨.macroDef ⟨"M", none, "M $\"\x7b\nb\x7d\"", ⟨7, 0, 0⟩, ⟨8, 0, 0⟩,
    [⟨.template ⟨"\x7b\nb\x7d", "0", [⟨⟨11, 15⟩, ⟨0, 4⟩,
      [⟨.atom .newline, ⟨12, 0, 0⟩, ⟨13, 0, 0⟩⟩,
        ⟨.atom (.identifier "b"), ⟨13, 1, 13⟩, ⟨14, 1, 13⟩⟩]⟩]⟩, ⟨9, 0, 0⟩, ⟨16, 1, 13⟩⟩]⟩,
    ⟨0, 0, 0⟩, ⟨16, 1, 13⟩⟩, .inside List.mem_cons_self List.mem_cons_self (ht _), ⟨_, rfl, rfl⟩,
    ⟨_, rfl, rfl⟩, scan_subscans ?h (ht _),
    scan_subscans ?h (.inside List.mem_cons_self List.mem_cons_self (ht _))⟩
  case h => exact scan_of_toOption (by decide +kernel)

end ScriptLexer

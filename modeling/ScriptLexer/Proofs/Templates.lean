import ScriptLexer.Proofs.Origin
import ScriptLexer.Proofs.Splice

/-!
# Templates are well formed

A template is read into a draft, piece by piece; each piece adds text, or a section with the tokens
that a scan of its own has found.  `Draft.Sound` is what every piece keeps:

* `Draft.Sound.addText`, `Draft.Sound.addBraces`   one piece;
* `Reads.sound`                                    a run over the text of a template;
* `Arises.wellFormed`, `scan_templates`            the templates of a source.

The sections are numbered in the text that is decoded.  The draft writes each number as it comes to
the section, and `replaceBackward?_of_fill?` says that replacing them in the finished text, the last
one first, would give the same.
-/

namespace ScriptLexer

open Position (after)

/-- no line break, no opening brace, and a quote only right behind a backslash -/
structure Plain (text : List Char) : Prop where
  chars : ∀ c ∈ text, c ≠ '\n' ∧ c ≠ '{'
  quotes : ∀ u v, text = u ++ '"' :: v → ∃ u', u = u' ++ ['\\']

theorem plain_nil : Plain [] := ⟨fun _ h => absurd h List.not_mem_nil, fun u v h => by simp at h⟩

theorem Plain.append {a b : List Char} (ha : Plain a) (hb : Plain b) : Plain (a ++ b) := by
  refine ⟨fun c hc => (List.mem_append.mp hc).elim (ha.chars c) (hb.chars c), fun u v h => ?_⟩
  rcases List.append_eq_append_iff.mp h with ⟨w, rfl, hb'⟩ | ⟨w, ha', hw⟩
  · obtain ⟨u', rfl⟩ := hb.quotes w v hb'
    exact ⟨a ++ u', (List.append_assoc _ _ _).symm⟩
  · cases w with
    | nil =>
      obtain ⟨u', hu'⟩ := hb.quotes [] v hw.symm
      simp at hu'
    | cons c w =>
      obtain ⟨rfl, rfl⟩ := List.cons.inj hw
      exact ha.quotes u w ha'

/-- text that a template takes as it stands -/
theorem plain_of_piece {cs taken rest : List Char} (h : piece cs = .text taken rest) :
    Plain taken := by
  unfold piece at h
  split at h
  · cases h
  · cases h
  · cases h
  · cases h
  · cases h
    refine ⟨by simp, fun u v hu => ?_⟩
    match u, hu with
    | [b], hu => exact ⟨[], by rw [← (List.cons.inj hu).1]; rfl⟩
    | _ :: _ :: _, hu => simp at hu
  · cases h
    refine ⟨by simp, fun u v hu => ?_⟩
    match u, hu with
    | [_], hu => simp at hu
    | _ :: _ :: _, hu => simp at hu
  · rename_i c rest' hnewline hquote hbrace _ _
    cases h
    refine ⟨fun d hd => ?_, fun u v hu => ?_⟩
    · obtain rfl := List.mem_singleton.mp hd
      exact ⟨hnewline, hbrace⟩
    · match u, hu with
      | [], hu => exact absurd (List.cons.inj hu).1 hquote
      | _ :: _, hu => simp at hu

/-! ## drafts -/

/-- the places of the sections in the text so far -/
def Draft.spans (d : Draft) : List Span := d.sections.reverse.map Section.relative

/-- a section lies between braces of the text `lexeme`, which begins at `base` in a source -/
structure Section.Braced (base : Nat) (lexeme : List Char) (s : Section Token) : Prop where
  shifted : s.absolute = s.relative.shift base
  braces : ∃ inner, slice? lexeme s.relative.start s.relative.stop = some ('{' :: inner ++ ['}'])

/-- what a draft of a template holds fits together; the text begins at `base` in a source -/
structure Draft.Sound (base : Nat) (d : Draft) : Prop where
  size : d.size = byteLength d.lexeme.reverse
  sections : ∀ s ∈ d.sections, s.Braced base d.lexeme.reverse
  numbered : fill? (Nat.toDigits 10) d.lexeme.reverse d.spans = some d.numbered.reverse
  cut : ∃ text, fill? (fun _ => []) d.lexeme.reverse d.spans = some text ∧ Plain text

theorem Section.Braced.append {base : Nat} {lexeme : List Char} {s : Section Token}
    (h : s.Braced base lexeme) (w : List Char) : s.Braced base (lexeme ++ w) := by
  obtain ⟨inner, hinner⟩ := h.braces
  exact ⟨h.shifted, inner, slice?_append_right hinner w⟩

/-- the braces themselves are two bytes -/
theorem Section.Braced.two_le {base : Nat} {lexeme : List Char} {s : Section Token}
    (h : s.Braced base lexeme) : s.relative.start + 2 ≤ s.relative.stop := by
  obtain ⟨inner, hinner⟩ := h.braces
  obtain ⟨u, v, _, hu, hlen⟩ := slice?_eq_some_iff.mp hinner
  have hopen : ('{' : Char).utf8Size = 1 := rfl
  have hclose : ('}' : Char).utf8Size = 1 := rfl
  rw [List.cons_append, byteLength_cons, byteLength_append, byteLength_cons, byteLength_nil] at hlen
  omega

namespace Draft

variable {base : Nat} {d : Draft}

theorem sound_start (base : Nat) (p : Position) : (Draft.start p).Sound base where
  size := rfl
  sections _ h := absurd h List.not_mem_nil
  numbered := rfl
  cut := ⟨[], rfl, plain_nil⟩

theorem Sound.addText (h : d.Sound base) {text : List Char} (hplain : Plain text) :
    (d.addText text).Sound base := by
  have hlexeme : (d.addText text).lexeme.reverse = d.lexeme.reverse ++ text := by simp [Draft.addText]
  have hnumbered : (d.addText text).numbered.reverse = d.numbered.reverse ++ text := by
    simp [Draft.addText]
  have hspans : (d.addText text).spans = d.spans := rfl
  refine ⟨?_, fun s hs => ?_, ?_, ?_⟩
  · rw [hlexeme, byteLength_append, ← h.size]
    rfl
  · rw [hlexeme]
    exact (h.sections s hs).append text
  · rw [hlexeme, hnumbered, hspans]
    exact fill?_append_text h.numbered text
  · obtain ⟨cut, hcut, hp⟩ := h.cut
    rw [hlexeme, hspans]
    exact ⟨cut ++ text, fill?_append_text hcut text, hp.append hplain⟩

theorem Sound.addSection (h : d.Sound base) (inner : List Char) (ts : List Token) :
    (d.addSection base inner ts).Sound base := by
  have hlexeme : (d.addSection base inner ts).lexeme.reverse
      = d.lexeme.reverse ++ ('{' :: inner ++ ['}']) := by simp [Draft.addSection]
  have hnumbered : (d.addSection base inner ts).numbered.reverse
      = d.numbered.reverse ++ Nat.toDigits 10 d.spans.length := by
    simp [Draft.addSection, Draft.spans]
  have hspans : (d.addSection base inner ts).spans = d.spans ++
      [⟨byteLength d.lexeme.reverse,
        byteLength d.lexeme.reverse + byteLength ('{' :: inner ++ ['}'])⟩] := by
    rw [← h.size]
    simp [Draft.addSection, Draft.spans]
  refine ⟨?_, fun s hs => ?_, ?_, ?_⟩
  · rw [hlexeme, byteLength_append, ← h.size]
    rfl
  · rw [hlexeme]
    rcases List.mem_cons.mp hs with rfl | hs
    · refine ⟨rfl, inner, ?_⟩
      show slice? _ d.size (d.size + byteLength ('{' :: inner ++ ['}'])) = _
      rw [h.size]
      exact slice?_eq_some_iff.mpr ⟨d.lexeme.reverse, [], (List.append_nil _).symm, rfl, rfl⟩
    · exact (h.sections s hs).append _
  · rw [hlexeme, hnumbered, hspans]
    exact fill?_append_span h.numbered _
  · obtain ⟨cut, hcut, hp⟩ := h.cut
    rw [hlexeme, hspans]
    refine ⟨cut ++ [], fill?_append_span hcut _, ?_⟩
    rw [List.append_nil]
    exact hp

end Draft

/-- the draft of a job, if it has one, fits together -/
def Job.Sound : Job → Prop
  | .tokens _ _ => True
  | .template _ start d => d.Sound (start.offset + byteLength Front.templateOpening)

/-- a run keeps it -/
theorem Reads.sound {j j' : Job} {x y : List Char} (h : Reads j x y j') :
    j.Sound → j'.Sound := by
  induction h with
  | done => exact id
  | blank _ _ ih => exact fun _ => ih trivial
  | atom _ _ ih => exact fun _ => ih trivial
  | template _ _ _ _ _ ih => exact fun _ => ih trivial
  | macroDef _ _ _ _ _ ih => exact fun _ => ih trivial
  | text hpiece _ ih => exact fun hj => ih (Draft.Sound.addText hj (plain_of_piece hpiece))
  | @braces scope start d st inner x y j _ _ _ _ ih =>
    exact fun hj => ih (Draft.Sound.addSection hj inner st.tokens.reverse)

/-! ## the templates of a source -/

/-- what a template in a source holds fits together, and it is what stands there -/
structure Template.WellFormed (source : List Char) (t : Token) (p : Template Token) : Prop where
  /-- one list of tokens for each section; that is so by the shape of the data, in which a section
  carries its own tokens -/
  lists : (Kind.template p).inner.length = p.sections.length
  text : t.text? source = some (Front.templateOpening ++ p.lexeme.toList ++ ['"'])
  ordered : (p.sections.map Section.relative).Pairwise fun a b => a.stop ≤ b.start
  /-- each section has its two braces at least, in the text of the template and in the source -/
  sections : ∀ s ∈ p.sections, s.relative.start + 2 ≤ s.relative.stop ∧
    s.absolute = s.relative.shift (t.start.offset + 2) ∧
    ∃ inner, slice? p.lexeme.toList s.relative.start s.relative.stop = some ('{' :: inner ++ ['}']) ∧
      slice? source s.absolute.start s.absolute.stop = some ('{' :: inner ++ ['}'])
  cut : ∃ text, fill? (fun _ => []) p.lexeme.toList (p.sections.map Section.relative) = some text ∧
    Plain text
  /-- one pass that writes the number of each section in its place, and replacing them one after
  another from the last to the first, give the same text, and that is decoded -/
  decoded : ∃ text,
    fill? (Nat.toDigits 10) p.lexeme.toList (p.sections.map Section.relative) = some text ∧
    replaceBackward? (Nat.toDigits 10) p.lexeme.toList (p.sections.map Section.relative)
      = some text ∧
    decodeEscapes text = .ok p.decoded.toList

theorem Draft.finish_decoded {d : Draft} {start : Position} {t : TemplateScan}
    (h : d.finish start = .ok t) : t.template.lexeme.toList = d.lexeme.reverse ∧
      decodeEscapes d.numbered.reverse = .ok t.template.decoded.toList := by
  unfold Draft.finish at h
  simp only at h
  split at h
  · rename_i text htext
    cases h
    exact ⟨String.toList_ofList, by rw [htext, String.toList_ofList]⟩
  · cases h

theorem Reads.lexeme_eq {scope : Scope} {start : Position} {d : Draft} {x y : List Char}
    (h : Reads (.beginTemplate scope start) x y (.template scope start d)) :
    d.lexeme.reverse = x := by
  rw [h.advanced.2.2.1]
  simp [Draft.start]

theorem Arises.wellFormed {source : List Char} {t : Token} (h : Arises source t)
    {p : Template Token} (hk : t.kind = .template p) : p.WellFormed source t := by
  cases h with
  | atom _ _ => cases hk
  | macroDef _ _ _ _ => cases hk
  | @template scope pre body rest d r hsource hbody hfinish =>
    cases hk
    have hsound : d.Sound ((after pre).offset + byteLength Front.templateOpening) :=
      hbody.sound (Draft.sound_start _ _)
    obtain ⟨hlexeme, hdecoded⟩ := Draft.finish_decoded hfinish
    have hspans : r.template.sections.map Section.relative = d.spans := by
      rw [Draft.finish_sections hfinish]
      rfl
    have htext : Located.text? (⟨.template r.template, after pre, stopOf (.template r.template)
        (after pre) (Front.templateOpening ++ body ++ ['"'])⟩ : Token) source
        = some (Front.templateOpening ++ r.template.lexeme.toList ++ ['"']) := by
      rw [hsource, Located.text?_append rfl rfl, hlexeme, hbody.lexeme_eq]
    refine ⟨List.length_map _, htext, ?_, fun s hs => ?_, ?_, ?_⟩
    · rw [hspans]
      exact fill?_ordered hsound.numbered
    · rw [Draft.finish_sections hfinish] at hs
      have hbraced := hsound.sections s (List.mem_reverse.mp hs)
      obtain ⟨inner, hinner⟩ := hbraced.braces
      rw [← hlexeme] at hinner
      refine ⟨hbraced.two_le, hbraced.shifted, inner, hinner, ?_⟩
      -- the text of the template begins behind its opening
      have hslice : slice? source ((after pre).offset + byteLength Front.templateOpening)
          ((after pre).offset + byteLength Front.templateOpening
            + byteLength r.template.lexeme.toList) = some r.template.lexeme.toList := by
        rw [hsource, hlexeme, hbody.lexeme_eq]
        refine slice?_eq_some_iff.mpr ⟨pre ++ Front.templateOpening, '"' :: rest, by simp, ?_, ?_⟩
        · exact byteLength_append _ _
        · rw [byteLength_append]
          rfl
      rw [hbraced.shifted]
      exact slice?_slice? hslice hinner
    · rw [hspans, hlexeme]
      exact hsound.cut
    · rw [hspans, hlexeme]
      exact ⟨_, hsound.numbered, replaceBackward?_of_fill? hsound.numbered, hdecoded⟩

/-- every template of a scan's result is well formed, at any depth -/
theorem scan_templates {source : String} {mode : Mode} {ts : List Token}
    (h : scan source mode = .ok ts) {t : Token} (ht : Occurs t ts) {p : Template Token}
    (hk : t.kind = .template p) : p.WellFormed source.toList t :=
  (scan_arises h ht).wellFormed hk

/-- eleven sections, so that the last number has two digits; the last section spans two lines -/
theorem scan_templates_numbers :
    ∃ ts t p, scan "$\"\x7b\x7d\x7b\x7d\x7b\x7d\x7b\x7d\x7b\x7d\x7b\x7d\x7b\x7d\x7b\x7d\x7b\x7d\x7b\x7d \\\"\x7b\n\x7d\"" = .ok ts ∧
      Occurs t ts ∧ t.kind = .template p ∧ p.sections.length = 11 ∧ p.decoded = "0123456789 \"10" ∧
      p.WellFormed "$\"\x7b\x7d\x7b\x7d\x7b\x7d\x7b\x7d\x7b\x7d\x7b\x7d\x7b\x7d\x7b\x7d\x7b\x7d\x7b\x7d \\\"\x7b\n\x7d\"".toList t := by
  let first : List (Section Token) :=
    (List.range 10).map fun i => ⟨⟨2 + 2 * i, 4 + 2 * i⟩, ⟨2 * i, 2 * i + 2⟩, []⟩
  let last : Section Token := ⟨⟨25, 28⟩, ⟨23, 26⟩, [⟨.atom .newline, ⟨26, 0, 0⟩, ⟨27, 0, 0⟩⟩]⟩
  let p : Template Token := ⟨"\x7b\x7d\x7b\x7d\x7b\x7d\x7b\x7d\x7b\x7d\x7b\x7d\x7b\x7d\x7b\x7d\x7b\x7d\x7b\x7d \\\"\x7b\n\x7d",
    "0123456789 \"10", first ++ [last]⟩
  let t : Token := ⟨.template p, ⟨0, 0, 0⟩, ⟨29, 1, 27⟩⟩
  have h : scan "$\"\x7b\x7d\x7b\x7d\x7b\x7d\x7b\x7d\x7b\x7d\x7b\x7d\x7b\x7d\x7b\x7d\x7b\x7d\x7b\x7d \\\"\x7b\n\x7d\"" = .ok [t] :=
    scan_of_toOption (by decide +kernel)
  have ht : Occurs t [t] := .here List.mem_cons_self
  exact ⟨[t], t, p, h, ht, rfl, rfl, rfl, scan_templates h ht rfl⟩

end ScriptLexer

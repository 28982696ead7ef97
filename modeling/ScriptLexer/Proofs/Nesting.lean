import ScriptLexer.Proofs.Origin

/-!
# Spans are ordered and nested

* `Between lo hi ts`   the tokens of a list lie between two offsets, none is empty, and each ends
                       before the next one begins;
* `Job.Nested lo j`    the same of what a job has made so far: the invariant of a run
                       (`Reads.nested`);
* `WellNested`         what holds of each token list of a tree.

`scan_wellNested` is the result: the top of the tree, the bodies and the sections are all well
nested, whatever the source and the mode it begins in.
-/

namespace ScriptLexer

open Position (after)

/-! ## lists between two offsets -/

/-- the tokens lie between two offsets, none is empty, and each ends before the next begins -/
structure Between (lo hi : Nat) (ts : List Token) : Prop where
  nonempty : ∀ t ∈ ts, t.start.offset < t.stop.offset
  inside : ∀ t ∈ ts, lo ≤ t.start.offset ∧ t.stop.offset ≤ hi
  ordered : ts.Pairwise fun a b => a.stop.offset ≤ b.start.offset

namespace Between

variable {lo lo' hi hi' : Nat} {ts : List Token} {t : Token}

theorem nil (lo hi : Nat) : Between lo hi [] :=
  ⟨fun _ h => absurd h List.not_mem_nil, fun _ h => absurd h List.not_mem_nil, .nil⟩

theorem mono (h : Between lo hi ts) (hlo : lo' ≤ lo) (hhi : hi ≤ hi') : Between lo' hi' ts where
  nonempty := h.nonempty
  inside u hu := ⟨Nat.le_trans hlo (h.inside u hu).1, Nat.le_trans (h.inside u hu).2 hhi⟩
  ordered := h.ordered

theorem concat (h : Between lo hi ts) (hlo : lo ≤ hi) (hstart : hi ≤ t.start.offset)
    (hne : t.start.offset < t.stop.offset) : Between lo t.stop.offset (ts ++ [t]) := by
  have hts : Between lo t.stop.offset ts := h.mono (Nat.le_refl _) (by omega)
  refine ⟨fun u hu => ?_, fun u hu => ?_, ?_⟩
  · rcases List.mem_append.mp hu with hu | hu
    · exact hts.nonempty u hu
    · obtain rfl := List.mem_singleton.mp hu
      exact hne
  · rcases List.mem_append.mp hu with hu | hu
    · exact hts.inside u hu
    · obtain rfl := List.mem_singleton.mp hu
      exact ⟨Nat.le_trans hlo hstart, Nat.le_refl _⟩
  · refine List.pairwise_append.mpr ⟨h.ordered, List.pairwise_singleton _ _, fun a ha b hb => ?_⟩
    obtain rfl := List.mem_singleton.mp hb
    exact Nat.le_trans (h.inside a ha).2 hstart

end Between

/-- a section lies between two offsets, and its tokens lie between its braces -/
structure SectionBetween (lo hi : Nat) (s : Section Token) : Prop where
  inside : lo ≤ s.absolute.start ∧ s.absolute.stop ≤ hi
  braces : s.absolute.start + 2 ≤ s.absolute.stop
  tokens : Between (s.absolute.start + 1) (s.absolute.stop - 1) s.tokens

/-! ## the invariant of a run -/

/-- what a job has made so far lies between `lo` and the place it has come to -/
def Job.Nested (lo : Nat) : Job → Prop
  | .tokens _ st => lo ≤ st.position.offset ∧ Between lo st.position.offset st.tokens.reverse
  | .template _ start d =>
    lo = start.offset + byteLength Front.templateOpening ∧ d.position.offset = lo + d.size ∧
      ∀ s ∈ d.sections, SectionBetween lo d.position.offset s

namespace Job

theorem nested_begin (scope : Scope) (p : Position) : (Job.begin scope p).Nested p.offset :=
  ⟨Nat.le_refl _, Between.nil _ _⟩

theorem nested_beginTemplate (scope : Scope) (start : Position) :
    (Job.beginTemplate scope start).Nested
      (start.offset + byteLength Front.templateOpening) :=
  ⟨rfl, Position.offset_advance _ _, fun _ h => absurd h List.not_mem_nil⟩

theorem Nested.skip {lo : Nat} {scope : Scope} {st : State}
    (h : (Job.tokens scope st).Nested lo) (c : Char) : (Job.tokens scope (st.skip c)).Nested lo := by
  have hle : st.position.offset ≤ (st.skip c).position.offset := by
    rw [State.skip, Position.offset_next]
    exact Nat.le_add_right _ _
  exact ⟨Nat.le_trans h.1 hle, h.2.mono (Nat.le_refl _) hle⟩

theorem Nested.push {lo : Nat} {scope : Scope} {st : State}
    (h : (Job.tokens scope st).Nested lo) (k : Kind) {text : List Char} (hne : text ≠ []) :
    (Job.tokens scope (st.push k text)).Nested lo := by
  have hpos := byteLength_pos hne
  have hstop : (st.push k text).position.offset = (stopOf k st.position text).offset := by
    rw [State.push, offset_stopOf, Position.offset_advance]
  have hlt : st.position.offset < (stopOf k st.position text).offset := by
    rw [offset_stopOf]
    omega
  refine ⟨?_, ?_⟩
  · rw [hstop]
    exact Nat.le_trans h.1 (Nat.le_of_lt hlt)
  · rw [hstop, State.push, List.reverse_cons]
    exact Between.concat (t := ⟨k, st.position, stopOf k st.position text⟩) h.2 h.1
      (Nat.le_refl _) hlt

theorem Nested.addText {lo : Nat} {scope : Scope} {start : Position} {d : Draft}
    (h : (Job.template scope start d).Nested lo) (text : List Char) :
    (Job.template scope start (d.addText text)).Nested lo := by
  obtain ⟨hlo, hoffset, hsections⟩ := h
  have hmove : (d.addText text).position.offset = d.position.offset + byteLength text :=
    Position.offset_advance _ _
  refine ⟨hlo, ?_, fun s hs => ?_⟩
  · rw [hmove, hoffset, Nat.add_assoc]
    rfl
  · have hin := (hsections s hs).inside
    exact ⟨⟨hin.1, by omega⟩, (hsections s hs).braces, (hsections s hs).tokens⟩

/-- the braces of a section are one byte each, so the tokens that lie between `lo + 1` and the
closing brace lie between the braces -/
theorem Nested.addBraces {lo : Nat} {scope : Scope} {start : Position} {d : Draft}
    (h : (Job.template scope start d).Nested lo) (inner : List Char) {ts : List Token}
    (hts : Between (d.position.offset + 1) (d.position.offset + 1 + byteLength inner) ts) :
    (Job.template scope start (d.addBraces start inner ts)).Nested lo := by
  obtain ⟨rfl, hoffset, hsections⟩ := h
  have hbraces : byteLength ('{' :: inner ++ ['}']) = byteLength inner + 2 := by
    have hopen : ('{' : Char).utf8Size = 1 := rfl
    have hclose : ('}' : Char).utf8Size = 1 := rfl
    rw [List.cons_append, byteLength_cons, byteLength_append, byteLength_cons, byteLength_nil]
    omega
  have hmove : (d.addBraces start inner ts).position.offset
      = d.position.offset + (byteLength inner + 2) := by
    rw [← hbraces]
    exact Position.offset_advance _ _
  refine ⟨rfl, ?_, fun s hs => ?_⟩
  · rw [hmove, hoffset]
    show _ = _ + (d.size + byteLength ('{' :: inner ++ ['}']))
    omega
  rcases List.mem_cons.mp hs with rfl | hs
  · have hstart : d.size + (start.offset + byteLength Front.templateOpening)
        = d.position.offset := by omega
    have hstop : d.size + byteLength ('{' :: inner ++ ['}'])
        + (start.offset + byteLength Front.templateOpening)
        = d.position.offset + (byteLength inner + 2) := by omega
    refine ⟨?_, ?_, ?_⟩
    · rw [hmove]
      show _ ≤ d.size + _ ∧ d.size + byteLength _ + _ ≤ _
      omega
    · show d.size + _ + 2 ≤ d.size + byteLength _ + _
      omega
    · show Between (d.size + _ + 1) (d.size + byteLength _ + _ - 1) ts
      rw [hstart, hstop, show d.position.offset + (byteLength inner + 2) - 1
        = d.position.offset + 1 + byteLength inner by omega]
      exact hts
  · have hin := (hsections s hs).inside
    exact ⟨⟨hin.1, by omega⟩, (hsections s hs).braces, (hsections s hs).tokens⟩

end Job

theorem Reads.nested {j j' : Job} {x y : List Char} (h : Reads j x y j') :
    ∀ lo, j.Nested lo → j'.Nested lo := by
  induction h with
  | done => exact fun _ hj => hj
  | blank _ _ ih => exact fun lo hj => ih lo (hj.skip _)
  | @atom scope st a text x y j hfront _ ih =>
    have htakes := front_takes scope st.depth st.behind st.position (text ++ (x ++ y))
    rw [hfront] at htakes
    exact fun lo hj => ih lo (hj.push _ htakes.2)
  | template _ _ _ _ _ ih => exact fun lo hj => ih lo (hj.push _ (by simp))
  | macroDef hfront _ _ _ _ ih =>
    have hne := (front_header hfront).names_ne_nil
    exact fun lo hj => ih lo (hj.push _ (by simp [hne]))
  | text _ _ ih => exact fun lo hj => ih lo (hj.addText _)
  | @braces scope start d st inner x y j hinner _ _ ihinner ih =>
    have hbetween := (ihinner _ (Job.nested_begin _ _)).2
    have hcount : st.position.offset = d.position.offset + 1 + byteLength inner := by
      rw [show st.position = _ from hinner.position_eq, Position.offset_advance]
      rfl
    rw [hcount] at hbetween
    exact fun lo hj => ih lo (hj.addBraces inner hbetween)

/-! ## every list of a tree -/

/-- the token is a nonempty piece of the source, between two characters -/
structure Stands (source : List Char) (t : Token) : Prop where
  nonempty : t.start.offset < t.stop.offset
  inSource : t.stop.offset ≤ byteLength source
  startBoundary : IsBoundary source t.start.offset
  stopBoundary : IsBoundary source t.stop.offset
  text : ∃ text, t.text? source = some text ∧ text ≠ []

/-- every token of the tree over `ts` lies between the offsets -/
def LiesBetween (lo hi : Nat) (ts : List Token) : Prop :=
  ∀ t, Occurs t ts → lo ≤ t.start.offset ∧ t.stop.offset ≤ hi

/-- what holds of each token list of a tree: its tokens are pieces of the source, one behind the
other; what a macro definition holds lies behind its names, and what a section holds lies between
its braces, strictly inside of the template -/
structure WellNested (source : List Char) (ts : List Token) : Prop where
  stands : ∀ t ∈ ts, Stands source t
  ordered : ts.Pairwise fun a b => a.stop.offset ≤ b.start.offset
  macroDef : ∀ t ∈ ts, ∀ m, t.kind = .macroDef m →
    t.start.offset < m.nameStart.offset ∧ m.nameStart.offset < m.nameStop.offset ∧
      LiesBetween m.nameStop.offset t.stop.offset m.body
  template : ∀ t ∈ ts, ∀ p, t.kind = .template p → ∀ s ∈ p.sections, ∃ e, s.expression? = some e ∧
    t.start.offset < e.start ∧ e.start ≤ e.stop ∧ e.stop < t.stop.offset ∧
      LiesBetween e.start e.stop s.tokens

theorem Arises.stands {source : List Char} {t : Token} (h : Arises source t) :
    Stands source t := by
  obtain ⟨pre, text, rest, rfl, hne, hstart, hstop⟩ := h.exists_text
  have hpos := byteLength_pos hne
  have hstart' : t.start.offset = byteLength pre := by rw [hstart]; rfl
  have hstop' : t.stop.offset = byteLength (pre ++ text) := by
    rw [hstop, offset_stopOf, byteLength_append]
    rfl
  have hboundary : ∀ a b : List Char, IsBoundary (a ++ b) (byteLength a) := fun a b => by
    rw [IsBoundary, charIndex?_append]
    rfl
  refine ⟨?_, ?_, ?_, ?_, text, Located.text?_append hstart hstop rest, hne⟩
  · rw [hstart', hstop', byteLength_append]
    omega
  · rw [hstop', byteLength_append (pre ++ text)]
    exact Nat.le_add_right _ _
  · rw [hstart', List.append_assoc]
    exact hboundary _ _
  · rw [hstop']
    exact hboundary _ _

theorem Arises.macroDef_between {source : List Char} {t : Token} {m : MacroDef Token}
    (h : Arises source t) (hk : t.kind = .macroDef m) :
    t.start.offset < m.nameStart.offset ∧ m.nameStart.offset < m.nameStop.offset ∧
      Between m.nameStop.offset t.stop.offset m.body := by
  cases h with
  | atom _ _ => cases hk
  | template _ _ _ => cases hk
  | @macroDef scope depth behind pre body rest header st e hsource hfront hbody hexit =>
    cases hk
    have hplaced := front_header hfront
    have htakes := front_takes scope depth behind (after pre)
      (header.lead ++ header.names ++ (body ++ rest))
    rw [hfront] at htakes
    have hlead := byteLength_pos htakes.2
    have hnames := byteLength_pos hplaced.names_ne_nil
    have hnameStart : header.nameStart.offset = byteLength pre + byteLength header.lead := by
      rw [hplaced.nameStart, Position.offset_advance]
      rfl
    have hnameStop : header.nameStop.offset
        = header.nameStart.offset + byteLength header.names := by
      rw [hplaced.nameStop, Position.offset_advance]
    have hstop : st.position.offset = header.nameStop.offset + byteLength body := by
      rw [show st.position = _ from hbody.position_eq, Position.offset_advance]
      rfl
    have hbetween := (hbody.nested _ (Job.nested_begin _ _)).2
    refine ⟨?_, ?_, ?_⟩
    · show byteLength pre < header.nameStart.offset
      omega
    · show header.nameStart.offset < header.nameStop.offset
      omega
    · refine hbetween.mono (Nat.le_refl _) (Nat.le_of_eq ?_)
      rw [offset_stopOf, byteLength_append, byteLength_append]
      show _ = byteLength pre + _
      omega

theorem Arises.template_between {source : List Char} {t : Token} {p : Template Token}
    (h : Arises source t) (hk : t.kind = .template p) {s : Section Token} (hs : s ∈ p.sections) :
    t.start.offset + 2 ≤ s.absolute.start ∧ s.absolute.start + 2 ≤ s.absolute.stop ∧
      s.absolute.stop < t.stop.offset ∧
      Between (s.absolute.start + 1) (s.absolute.stop - 1) s.tokens := by
  cases h with
  | atom _ _ => cases hk
  | macroDef _ _ _ _ => cases hk
  | @template scope pre body rest d t hsource hbody hfinish =>
    cases hk
    have hopening : byteLength Front.templateOpening = 2 := rfl
    obtain ⟨_, _, hsections⟩ := hbody.nested _ (Job.nested_beginTemplate _ _)
    rw [Draft.finish_sections hfinish] at hs
    have hsection := hsections s (List.mem_reverse.mp hs)
    have hposition : d.position.offset = byteLength pre + 2 + byteLength body := by
      rw [show d.position = _ from hbody.position_eq, Position.offset_advance]
      show ((after pre).advance Front.templateOpening).offset + _ = _
      rw [Position.offset_advance, hopening]
      rfl
    have hstop : (stopOf (.template t.template) (after pre)
        (Front.templateOpening ++ body ++ ['"'])).offset = d.position.offset + 1 := by
      rw [offset_stopOf, byteLength_append, byteLength_append, hposition, hopening]
      show byteLength pre + (2 + byteLength body + 1) = _
      omega
    refine ⟨hsection.inside.1, hsection.braces, ?_, hsection.tokens⟩
    rw [hstop]
    exact Nat.lt_succ_of_le hsection.inside.2

theorem Arises.inner_between {source : List Char} {t : Token} (h : Arises source t)
    {l : List Token} (hl : l ∈ t.kind.inner) : Between t.start.offset t.stop.offset l := by
  cases hk : t.kind with
  | atom a =>
    rw [hk] at hl
    cases hl
  | template p =>
    rw [hk] at hl
    obtain ⟨s, hs, rfl⟩ := List.mem_map.mp hl
    obtain ⟨hstart, hbraces, hstop, hbetween⟩ := h.template_between hk hs
    exact hbetween.mono (by omega) (by omega)
  | macroDef m =>
    rw [hk] at hl
    obtain rfl := List.mem_singleton.mp hl
    obtain ⟨hstart, hnames, hbetween⟩ := h.macroDef_between hk
    exact hbetween.mono (by omega) (Nat.le_refl _)

/-- what lies between two offsets at the top does so at any depth -/
theorem Between.liesBetween {source : List Char} {lo hi : Nat} {ts : List Token}
    (h : Between lo hi ts) (harises : ∀ t, Occurs t ts → Arises source t) :
    LiesBetween lo hi ts := by
  intro t ht
  induction ht generalizing lo hi with
  | here hmem => exact h.inside t hmem
  | @inside u l ts hu hl hin ih =>
    have hinner := ih ((harises u (.here hu)).inner_between hl)
      fun v hv => harises v (.inside hu hl hv)
    have houter := h.inside u hu
    omega

theorem Between.wellNested {source : List Char} {lo hi : Nat} {ts : List Token}
    (h : Between lo hi ts) (harises : ∀ t, Occurs t ts → Arises source t)
    (hsize : byteLength source ≤ countLimit) : WellNested source ts where
  stands t ht := (harises t (.here ht)).stands
  ordered := h.ordered
  macroDef t ht m hk := by
    obtain ⟨hstart, hnames, hbetween⟩ := (harises t (.here ht)).macroDef_between hk
    refine ⟨hstart, hnames, hbetween.liesBetween fun u hu => harises u (.inside ht ?_ hu)⟩
    rw [hk]
    exact List.mem_cons_self
  template t ht p hk s hs := by
    have ha := harises t (.here ht)
    have hstands := ha.stands.inSource
    obtain ⟨hstart, hbraces, hstop, hbetween⟩ := ha.template_between hk hs
    refine ⟨⟨s.absolute.start + 1, s.absolute.stop - 1⟩, ?_, ?_, ?_, ?_, ?_⟩
    · rw [Section.expression?, Span.inner?, if_pos (by omega)]
    · show t.start.offset < s.absolute.start + 1
      omega
    · show s.absolute.start + 1 ≤ s.absolute.stop - 1
      omega
    · show s.absolute.stop - 1 < t.stop.offset
      omega
    · refine hbetween.liesBetween fun u hu => harises u (.inside ht ?_ hu)
      rw [hk]
      exact List.mem_map_of_mem hs

/-- every token list of the tree that a scan makes is well nested -/
theorem scan_wellNested {source : String} {mode : Mode} {ts l : List Token}
    (h : scan source mode = .ok ts) (hl : IsListOf l ts) : WellNested source.toList l := by
  have harises := fun t => scan_arises h (t := t)
  obtain ⟨hsize, x, y, st, e, hxy, hx, _, rfl⟩ := scan_reads h
  rcases hl with rfl | ⟨u, hu, hl⟩
  · exact (hx.nested _ (Job.nested_begin _ _)).2.wellNested harises hsize
  · exact ((harises u hu).inner_between hl).wellNested
      (fun t ht => harises t (hu.trans hl ht)) hsize

/-- in a section of a template in a macro body -/
theorem scan_wellNested_section :
    ∃ ts l, scan "#macro M $\"\x7b\nb\x7d\"" = .ok ts ∧ IsListOf l ts ∧ l.length = 2 ∧
      WellNested "#macro M $\"\x7b\nb\x7d\"".toList l := by
  refine ⟨[⟨.macroDef ⟨"M", none, "M $\"\x7b\nb\x7d\"", ⟨7, 0, 0⟩, ⟨8, 0, 0⟩,
    [⟨.template ⟨"\x7b\nb\x7d", "0", [⟨⟨11, 15⟩, ⟨0, 4⟩,
      [⟨.atom .newline, ⟨12, 0, 0⟩, ⟨13, 0, 0⟩⟩,
        ⟨.atom (.identifier "b"), ⟨13, 1, 13⟩, ⟨14, 1, 13⟩⟩]⟩]⟩, ⟨9, 0, 0⟩, ⟨16, 1, 13⟩⟩]⟩,
    ⟨0, 0, 0⟩, ⟨16, 1, 13⟩⟩],
    [⟨.atom .newline, ⟨12, 0, 0⟩, ⟨13, 0, 0⟩⟩, ⟨.atom (.identifier "b"), ⟨13, 1, 13⟩, ⟨14, 1, 13⟩⟩],
    ?h, ?hl, rfl, scan_wellNested ?h ?hl⟩
  case h => exact scan_of_toOption (by decide +kernel)
  case hl =>
    exact .inr ⟨_, .inside List.mem_cons_self List.mem_cons_self (.here List.mem_cons_self),
      List.mem_cons_self⟩

end ScriptLexer

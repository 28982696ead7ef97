import ScriptLexer.Proofs.Origin

/-!
# Where the sections of a template come from

A run over the text of a template reads each section between its braces, in a run of its own.
`SectionRead` keeps that run with the place of the braces; `Reads.sectionsRead` says that every
section of a draft was read so.

`Arises.section` says the same of the sections of a template in a source.
-/

namespace ScriptLexer

open Position (after)

/-- the section `s` was read between braces: the opening one stands at `p`, `size` bytes into the text
of the template that begins at `start`, `inner` lies between them, and `rest` behind them -/
structure SectionRead (scope : Scope) (start p : Position) (size : Nat) (inner rest : List Char)
    (s : Section Token) : Prop where
  relative : s.relative = ⟨size, size + byteLength ('{' :: inner ++ ['}'])⟩
  absolute : s.absolute = s.relative.shift (start.offset + byteLength Front.templateOpening)
  run : ∃ st, s.tokens = st.tokens.reverse ∧
    Reads (.begin (scope.sectionAt p.offset) (p.next '{')) inner ('}' :: rest)
      (.tokens (scope.sectionAt p.offset) st) ∧
    front (scope.sectionAt p.offset) st.depth st.behind st.position ('}' :: rest) = .exit .brace

/-- the sections that were added while the text `x` was read in front of `y` -/
def Job.SectionsRead (x y : List Char) : Job → Job → Prop
  | .template scope start d, .template _ _ d' => ∀ s ∈ d'.sections, s ∈ d.sections ∨
    ∃ u inner v, x = u ++ ('{' :: inner ++ ['}']) ++ v ∧
      SectionRead scope start (d.position.advance u) (d.size + byteLength u) inner (v ++ y) s
  | _, _ => True

theorem Reads.sectionsRead {j j' : Job} {x y : List Char} (h : Reads j x y j') :
    j.SectionsRead x y j' := by
  induction h with
  | @done j y =>
    cases j with
    | tokens scope st => trivial
    | template scope start d => exact fun s hs => .inl hs
  | blank _ _ _ => trivial
  | atom _ _ _ => trivial
  | template _ _ _ _ _ _ => trivial
  | macroDef _ _ _ _ _ _ => trivial
  | @text scope start d taken x y j hpiece _ ih =>
    cases j with
    | tokens scope' st => trivial
    | template scope' start' d' =>
      intro s hs
      rcases ih s hs with hs | ⟨u, inner, v, rfl, hread⟩
      · exact .inl hs
      · refine .inr ⟨taken ++ u, inner, v, by simp, ?_⟩
        rw [Position.advance_append, byteLength_append, ← Nat.add_assoc]
        exact hread
  | @braces scope start d st inner x y j hinner hexit _ _ ih =>
    cases j with
    | tokens scope' st => trivial
    | template scope' start' d' =>
      intro s hs
      rcases ih s hs with hs | ⟨u, inner', v, rfl, hread⟩
      · -- the section that this step adds, or one that was there before
        rcases List.mem_cons.mp hs with rfl | hs
        · exact .inr ⟨[], inner, x, rfl, rfl, rfl, st, rfl, hinner, hexit⟩
        · exact .inl hs
      · refine .inr ⟨'{' :: inner ++ ['}'] ++ u, inner', v, by simp, ?_⟩
        rw [Position.advance_append, byteLength_append, ← Nat.add_assoc]
        exact hread

/-- between its braces a section encloses the text that stands there -/
theorem Section.expression?_eq {s : Section Token} {pre inner rest : List Char}
    (h : s.absolute = ⟨byteLength pre, byteLength pre + byteLength ('{' :: inner ++ ['}'])⟩)
    (hsize : byteLength (pre ++ ['{'] ++ rest) ≤ countLimit) :
    s.expression? = some ⟨byteLength (pre ++ ['{']), byteLength (pre ++ ['{']) + byteLength inner⟩ := by
  have hopen : ('{' : Char).utf8Size = 1 := rfl
  have hclose : ('}' : Char).utf8Size = 1 := rfl
  have hpre : byteLength (pre ++ ['{']) = byteLength pre + 1 := by
    rw [byteLength_append, byteLength_cons, byteLength_nil, hopen]
  have hwhole : byteLength ('{' :: inner ++ ['}']) = byteLength inner + 2 := by
    rw [List.cons_append, byteLength_cons, byteLength_append, byteLength_cons, byteLength_nil, hopen,
      hclose]
    omega
  have hlimit : byteLength pre + 1 ≤ countLimit := by
    rw [byteLength_append, hpre] at hsize
    omega
  have hstop : 1 ≤ byteLength pre + byteLength ('{' :: inner ++ ['}']) := by omega
  rw [Section.expression?, h, Span.inner?, if_pos ⟨hlimit, hstop⟩, hpre, hwhole]
  congr 2
  show byteLength pre + (byteLength inner + 2) - 1 = byteLength pre + 1 + byteLength inner
  omega

/-- each section of a template in a source was read between two braces of the source -/
theorem Arises.section {source : List Char} {t : Token} (h : Arises source t) {p : Template Token}
    (hk : t.kind = .template p) {s : Section Token} (hs : s ∈ p.sections) :
    ∃ (scope : Scope) (pre inner rest : List Char) (st : State),
      source = pre ++ ('{' :: inner ++ ['}']) ++ rest ∧
      s.absolute = ⟨byteLength pre, byteLength pre + byteLength ('{' :: inner ++ ['}'])⟩ ∧
      s.tokens = st.tokens.reverse ∧
      Reads (.begin (scope.sectionAt (byteLength pre)) (after (pre ++ ['{']))) inner
        ('}' :: rest) (.tokens (scope.sectionAt (byteLength pre)) st) ∧
      front (scope.sectionAt (byteLength pre)) st.depth st.behind st.position ('}' :: rest)
        = .exit .brace := by
  cases h with
  | atom _ _ => cases hk
  | macroDef _ _ _ _ => cases hk
  | @template scope pre body rest d t hsource hbody hfinish =>
    cases hk
    rw [Draft.finish_sections hfinish] at hs
    rcases hbody.sectionsRead s (List.mem_reverse.mp hs) with hs | ⟨u, inner, v, rfl, hread⟩
    · cases hs
    · change SectionRead scope (after pre) (((after pre).advance Front.templateOpening).advance u)
        (0 + byteLength u) inner (v ++ '"' :: rest) s at hread
      rw [Position.advance_after, Position.advance_after, Nat.zero_add] at hread
      obtain ⟨hrelative, habsolute, st, htokens, hrun, hexit⟩ := hread
      refine ⟨scope, pre ++ Front.templateOpening ++ u, inner, v ++ '"' :: rest, st, ?_, ?_,
        htokens, ?_, hexit⟩
      · rw [hsource]
        simp
      · have hplace : byteLength (pre ++ Front.templateOpening ++ u)
            = byteLength u + (byteLength pre + byteLength Front.templateOpening) := by
          rw [byteLength_append, byteLength_append]
          omega
        rw [habsolute, hrelative, hplace]
        show Span.mk _ (byteLength u + _ + (byteLength pre + _)) = _
        congr 1
        omega
      · rw [Position.after_append_singleton]
        exact hrun

end ScriptLexer

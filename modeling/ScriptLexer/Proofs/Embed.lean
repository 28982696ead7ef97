import ScriptLexer.Proofs.EmbedFront
import ScriptLexer.Proofs.Run

/-!
# Scans at another place

The tokens that a scan makes of a text do not depend on where the text stands, nor on what was
scanned in front of it: read on at `base`, behind the tokens `outer` and `n` characters, it gives the
tokens of the text alone, embedded at `base` and put behind the others.  The same of errors.

* `State.Moved`         a state of the scan at `base` against one of the scan of the text alone;
* `scanTokens_embed`    the statement for lists of tokens, `scanTemplate_embed` that for templates.
-/

namespace ScriptLexer

/-! ## tokens and kinds -/

section
variable (base : Position)

theorem embedTokens_reverse (ts : List Token) :
    embedTokens base ts.reverse = (embedTokens base ts).reverse := by
  simp only [embedTokens_eq_map, List.map_reverse]

/-- a section of a text that begins at `base` in a source, as a section in the source -/
def Section.embed (s : Section Token) : Section Token :=
  ⟨s.absolute.shift base.offset, s.relative, embedTokens base s.tokens⟩

theorem embedSections_eq_map (ss : List (Section Token)) :
    embedSections base ss = ss.map (Section.embed base) := by
  induction ss with
  | nil => rfl
  | cons s ss ih => rw [List.map_cons, ← ih]; rfl

theorem Kind.behind_embed (k : Kind) : (k.embed base).behind = k.behind := by
  cases k <;> rfl

theorem braceDepth_embed (depth : Nat) (k : Kind) :
    braceDepth depth (k.embed base) = braceDepth depth k := by
  cases k <;> rfl

theorem Position.embed_along (p : Position) (text : List Char) :
    base.embed (p.along text) = (base.embed p).along text := by
  simp only [Position.embed, Position.along]
  congr 1
  omega

theorem stopOf_embed (k : Kind) (p : Position) (text : List Char) :
    stopOf (k.embed base) (base.embed p) text = base.embed (stopOf k p text) := by
  unfold stopOf
  cases k with
  | atom a =>
    rw [Kind.embed]
    split
    · exact (Position.embed_along base p text).symm
    · exact (Position.embed_advance base p text).symm
  | template t => exact (Position.embed_advance base p text).symm
  | macroDef m => exact (Position.embed_advance base p text).symm

end

/-! ## states, drafts and results -/

/-- `st'` is the state `st` of a text that begins at `base`, behind the tokens `outer` and `n`
characters; open braces count in a section only -/
structure State.Moved (base : Position) (outer : List Token) (n : Nat) (scope : Scope)
    (st st' : State) : Prop where
  tokens : st'.tokens = embedTokens base st.tokens ++ outer
  count : st'.count = st.count + n
  position : st'.position = base.embed st.position
  behind : st'.behind = st.behind
  depth : scope.mode = .interpolation → st'.depth = st.depth

/-- the scan of a text that begins at `base`, behind the tokens `outer` and `n` characters -/
def Scan.embed (base : Position) (outer : List Token) (n : Nat) (s : Scan) : Scan :=
  ⟨outer.reverse ++ embedTokens base s.tokens, s.count + n, base.embed s.stop, s.exit⟩

def Draft.embed (base : Position) (d : Draft) : Draft :=
  { d with sections := embedSections base d.sections, position := base.embed d.position }

def TemplateScan.embed (base : Position) (t : TemplateScan) : TemplateScan :=
  { t with template := { t.template with sections := embedSections base t.template.sections } }

section
variable {base : Position}

theorem State.moved_start (base : Position) (scope : Scope) (p : Position) :
    State.Moved base [] 0 scope (.start p) (.start (base.embed p)) :=
  ⟨rfl, rfl, rfl, rfl, fun _ => rfl⟩

namespace State.Moved

variable {outer : List Token} {n : Nat} {scope : Scope} {st st' : State}

theorem skip (h : State.Moved base outer n scope st st') (c : Char) :
    State.Moved base outer n scope (st.skip c) (st'.skip c) where
  tokens := h.tokens
  count := by
    simp only [State.skip, h.count]
    omega
  position := by simp only [State.skip, h.position, Position.embed_next]
  behind := rfl
  depth := h.depth

theorem push (h : State.Moved base outer n scope st st') (k : Kind) (text : List Char) :
    State.Moved base outer n scope (st.push k text) (st'.push (k.embed base) text) where
  tokens := by
    simp only [State.push, h.tokens, h.position, stopOf_embed]
    rfl
  count := by
    simp only [State.push, h.count]
    omega
  position := by simp only [State.push, h.position, Position.embed_advance]
  behind := Kind.behind_embed base k
  depth hm := by simp only [State.push, h.depth hm, braceDepth_embed]

theorem finish (h : State.Moved base outer n scope st st') (e : Exit) :
    st'.finish e = (st.finish e).embed base outer n := by
  simp only [State.finish, Scan.embed, h.tokens, h.count, h.position, List.reverse_append,
    embedTokens_reverse]

end State.Moved

namespace Draft

theorem embed_start (p : Position) : (Draft.start p).embed base = .start (base.embed p) := rfl

theorem addText_embed (d : Draft) (text : List Char) :
    (d.addText text).embed base = (d.embed base).addText text := by
  simp only [Draft.embed, Draft.addText, Position.embed_advance]

theorem addBraces_embed (d : Draft) (start : Position) (inner : List Char) (ts : List Token) :
    (d.addBraces start inner ts).embed base
      = (d.embed base).addBraces (base.embed start) inner (embedTokens base ts) := by
  simp only [Draft.embed, Draft.addBraces, Draft.addSection, Position.embed_advance,
    embedSections_eq_map, List.map_cons, List.length_map]
  simp only [Section.embed, Span.shift, Position.embed, Nat.add_assoc, Nat.add_comm base.offset]

theorem finish_embed (d : Draft) (start : Position) :
    (d.embed base).finish (base.embed start)
      = moveResult base (TemplateScan.embed base) (d.finish start) := by
  unfold Draft.finish
  simp only [Draft.embed]
  split
  · simp only [moveResult, TemplateScan.embed, embedSections_eq_map, List.map_reverse]
  · rw [moveResult, LexError.ofEscape_embed]
    rfl

end Draft

end

/-! ## the scan -/

mutual

/-- a text is scanned behind other tokens as it is scanned alone, with every place moved -/
theorem scanTokens_embed {base : Position} {s s' : Scope} (hs : s.Moved base s')
    {outer : List Token} {n : Nat} {st st' : State} (hst : State.Moved base outer n s st st')
    (cs : List Char) :
    scanTokens s' st' cs = moveResult base (Scan.embed base outer n) (scanTokens s st cs) := by
  -- both scans decide the same; what they then do is the same by the induction hypotheses
  have htakes := front_takes s st.depth st.behind st.position cs
  have hfront : front s' st'.depth st'.behind st'.position cs
      = (front s st.depth st.behind st.position cs).embed base := by
    rw [hst.position, hst.behind]
    exact front_embed hs hst.depth st.behind st.position cs
  rw [scanTokens_eq, scanTokens_eq s st, hfront]
  cases hf : front s st.depth st.behind st.position cs with
  | fail e => rfl
  | exit e => exact congrArg Except.ok (hst.finish e)
  | blank c rest =>
    rw [hf] at htakes
    have := htakes.blank_lt
    exact scanTokens_embed hs (hst.skip c) rest
  | atom a text rest =>
    rw [hf] at htakes
    have := htakes.atom_lt
    exact scanTokens_embed hs (hst.push (.atom a) text) rest
  | template rest =>
    rw [hf] at htakes
    have := htakes.template_lt
    have ht := scanTemplate_embed hs st.position
      (.start (st.position.advance Front.templateOpening)) rest
    rw [Draft.embed_start, Position.embed_advance, ← hst.position] at ht
    simp only [Front.embed]
    rw [ht]
    cases scanTemplate s st.position (.start (st.position.advance Front.templateOpening)) rest with
    | error e => rfl
    | ok t =>
      have hlt : (rest.drop (t.body.length + 1)).length < cs.length := by
        rw [List.length_drop]
        omega
      exact scanTokens_embed hs (hst.push (.template t.template)
        (Front.templateOpening ++ t.body ++ ['"'])) _
  | macroDef header rest =>
    rw [hf] at htakes
    have := htakes.macroDef_lt
    have hb := scanTokens_embed (Scope.moved_bodyAt base header.nameStart.offset)
      (State.moved_start base _ header.nameStop) rest
    simp only [Front.embed]
    have hoffset : (header.embed base).nameStart.offset
        = header.nameStart.offset + base.offset := rfl
    rw [hoffset, show (header.embed base).nameStop = base.embed header.nameStop from rfl, hb]
    cases scanTokens (.bodyAt header.nameStart.offset) (.start header.nameStop) rest with
    | error e => rfl
    | ok b =>
      have hlt : (rest.drop b.count).length < cs.length := by
        rw [List.length_drop]
        omega
      exact scanTokens_embed hs (hst.push (.macroDef (header.define (rest.take b.count) b.tokens))
        (header.lead ++ (header.names ++ rest.take b.count))) _
termination_by cs.length

/-- the same of a template -/
theorem scanTemplate_embed {base : Position} {s s' : Scope} (hs : s.Moved base s')
    (start : Position) (d : Draft) (cs : List Char) :
    scanTemplate s' (base.embed start) (d.embed base) cs
      = moveResult base (TemplateScan.embed base) (scanTemplate s start d cs) := by
  have htakes := piece_takes cs
  rw [scanTemplate_eq, scanTemplate_eq s start]
  cases hp : piece cs with
  | fail cause =>
    simp only [moveResult, LexError.report_embed]
    rfl
  | quote rest => exact d.finish_embed start
  | text taken rest =>
    rw [hp] at htakes
    have := htakes.text_lt
    simp only
    rw [← Draft.addText_embed]
    exact scanTemplate_embed hs start (d.addText taken) rest
  | brace rest =>
    rw [hp] at htakes
    have := htakes.brace_lt
    have hi := scanTokens_embed (hs.sectionAt base d.position.offset)
      (State.moved_start base _ (d.position.next '{')) rest
    rw [Position.embed_next] at hi
    simp only
    rw [show (d.embed base).position = base.embed d.position from rfl,
      show (base.embed d.position).offset = d.position.offset + base.offset from rfl, hi]
    cases scanTokens (s.sectionAt d.position.offset) (.start (d.position.next '{')) rest with
    | error e => rfl
    | ok b =>
      have hlt : (rest.drop (b.count + 1)).length < cs.length := by
        rw [List.length_drop]
        omega
      simp only [moveResult]
      rw [show (b.embed base [] 0).tokens = embedTokens base b.tokens from rfl,
        show (b.embed base [] 0).count = b.count from rfl, ← Draft.addBraces_embed]
      exact scanTemplate_embed hs start _ _
termination_by cs.length

end

end ScriptLexer

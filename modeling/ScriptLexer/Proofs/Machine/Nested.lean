import ScriptLexer.Machine.Scan
import ScriptLexer.Proofs.Machine.Escapes
import ScriptLexer.Proofs.Machine.Lines
import ScriptLexer.Proofs.Templates

/-!
# Inner lists by byte offsets

The scan of a list is a parameter here.  `Scans scan n` is what is known of it: in front of less than
`n` characters it ends as the library does.  From that follows what the machine does over a whole
template and over a whole definition of a macro.
-/

namespace ScriptLexer

open Position (after)

/-- the text that ends a scan and that the machine takes with it -/
def Exit.text : Exit → List Char
  | .endOfInput => []
  | .newline => ['\n']
  | .brace => ['}']

theorem scanTokens_endsAt {scope : Scope} {st : State} {cs : List Char} {s : Scan}
    (h : scanTokens scope st cs = .ok s) : ∃ depth rest, scope.EndsAt depth rest s.exit := by
  obtain ⟨x, y, st', e, -, -, hexit, rfl⟩ := scanTokens_reads h
  exact ⟨_, _, (front_exit_iff _ _ _ _ _ _).mp hexit⟩

theorem exit_of_sectionAt {scope : Scope} {start : Nat} {st : State} {cs : List Char} {s : Scan}
    (h : scanTokens (scope.sectionAt start) st cs = .ok s) : s.exit = .brace := by
  obtain ⟨depth, rest, hends⟩ := scanTokens_endsAt h
  cases he : s.exit with
  | brace => rfl
  | endOfInput =>
    rw [he] at hends
    exact absurd rfl hends.2
  | newline =>
    rw [he] at hends
    exact absurd hends.2 (by simp [Scope.sectionAt])

theorem exit_of_bodyAt {start : Nat} {st : State} {cs : List Char} {s : Scan}
    (h : scanTokens (.bodyAt start) st cs = .ok s) : s.exit ≠ .brace := by
  obtain ⟨depth, rest, hends⟩ := scanTokens_endsAt h
  intro hexit
  rw [hexit] at hends
  exact absurd hends.2 (by simp [Scope.isBareSection, Scope.bodyAt])

namespace Machine

variable {m : Machine} {ts : List Token} {a b : List Char}

/-! ## the end of a list -/

/-- where a scan leaves the machine: behind the brace that ended it, or behind the line break, which is
not counted -/
def leave (m : Machine) (ts : List Token) (a : List Char) (e : Exit) (y : List Char) : Machine :=
  match e with
  | .endOfInput => m.stand ts a y
  | .newline => m.standAtBreak ts a y
  | .brace => m.stand ts (a ++ ['}']) y

/-- the machine, having read `a` and made the tokens of `st`, ends as the scan of `b` does -/
def Ends (m : Machine) (st : State) (a b : List Char) (r : Run LexError (Exit × Machine)) : Prop :=
  match scanTokens m.scope st b with
  | .error e => r = Run.fail e
  | .ok s => ∃ x y, b = x ++ (s.exit.text ++ y) ∧ s.count = st.count + x.length ∧
      s.stop = after (a ++ x) ∧ (s.exit = .endOfInput → y = []) ∧
      r = .ok (s.exit, m.leave s.tokens.reverse (a ++ x) s.exit y)

/-- in front of less than `n` characters the scanner ends as the library does -/
def Scans (scan : Scanner) (n : Nat) : Prop :=
  ∀ (m : Machine) (a b : List Char), b.length < n → byteLength (a ++ b) ≤ countLimit →
    (m.mode = .macroBody → m.inMacro = true) →
    m.Ends (.start (after a)) a b (scan (m.stand [] a b))

/-! ## a list inside another one -/

/-- the outer list is as it was -/
theorem scanNested_stand {scan : Scanner} {n : Nat} (hscan : Scans scan n) (m : Machine)
    (ts : List Token) (mode : Mode) (scopeStart : Nat) (hb : b.length < n)
    (hfit : byteLength (a ++ b) ≤ countLimit) (hinside : mode = .macroBody → m.inMacro = true) :
    match scanTokens ⟨mode, scopeStart, m.inMacro⟩ (.start (after a)) b with
    | .error e => (m.stand ts a b).scanNested scan mode scopeStart = Run.fail e
    | .ok s => ∃ x y, b = x ++ (s.exit.text ++ y) ∧ s.count = x.length ∧
        (s.exit = .endOfInput → y = []) ∧
        (m.stand ts a b).scanNested scan mode scopeStart
          = .ok ((s.tokens, s.exit), m.leave ts (a ++ x) s.exit y) := by
  let inner : Machine := { m with mode, scopeStart, pending := ts :: m.pending }
  have hends := hscan inner a b hb hfit hinside
  have hcall : (m.stand ts a b).scanNested scan mode scopeStart
      = scan (inner.stand [] a b) >>= fun r =>
        .ok ((r.2.tokens.reverse, r.1), r.2.resume m.mode m.scopeStart) := rfl
  unfold Ends at hends
  have hscope : inner.scope = ⟨mode, scopeStart, m.inMacro⟩ := rfl
  rw [hscope] at hends
  rw [hcall]
  cases hs : scanTokens ⟨mode, scopeStart, m.inMacro⟩ (.start (after a)) b with
  | error e =>
    rw [hs] at hends
    simp only at hends ⊢
    rw [hends]
    rfl
  | ok s =>
    rw [hs] at hends
    obtain ⟨x, y, hxy, hcount, -, hend, hr⟩ := hends
    refine ⟨x, y, hxy, hcount.trans (Nat.zero_add _), hend, ?_⟩
    rw [hr, Run.ok_bind]
    cases hexit : s.exit with
    | endOfInput => simp [leave, resume, stand, inner]
    | newline => simp [leave, resume, standAtBreak, moved, stand, inner]
    | brace => simp [leave, resume, stand, inner]

/-! ## templates -/

/-- one turn of the loop does what the next piece says -/
theorem templateLoop_succ {scan : Scanner} {start : Position} {bodyStart n : Nat}
    {sections : List (Section Token)} (hfit : byteLength (a ++ b) ≤ countLimit) :
    templateLoop scan start bodyStart (n + 1) sections (m.stand ts a b) =
      match piece b with
      | .fail cause => Run.fail (.report cause (after a) start.offset)
      | .quote rest => .ok (sections, m.stand ts (a ++ ['"']) rest)
      | .text taken rest =>
        templateLoop scan start bodyStart n sections (m.stand ts (a ++ taken) rest)
      | .brace rest =>
        (m.stand ts (a ++ ['{']) rest).eatSection scan (after a) bodyStart sections >>= fun r =>
          templateLoop scan start bodyStart n r.1 r.2 := by
  have hhere : (m.stand ts a b).position = after a :=
    position_stand (Nat.le_trans (byteLength_le_append a b) hfit)
  rw [templateLoop, hhere]
  simp only [perform_run, settle_run]
  fun_cases piece b with
  | case1 =>
    rw [read_stand_nil]
    rfl
  | case2 rest =>
    rw [read_stand_newline]
    rfl
  | case3 rest =>
    rw [read_stand_cons (by decide)]
    rfl
  | case4 rest =>
    rw [read_stand_cons (by decide)]
    rfl
  | case5 rest =>
    rw [read_stand_cons (by decide), Run.ok_bind]
    simp only [Char.reduceEq, reduceIte, Run.ok_bind, List.append_assoc, List.cons_append,
      List.nil_append, eatIf_stand_pos (p := fun c => c == '"' || c == '\\') (c := '"') (by decide) rfl]
  | case6 rest =>
    rw [read_stand_cons (by decide), Run.ok_bind]
    simp only [Char.reduceEq, reduceIte, Run.ok_bind, List.append_assoc, List.cons_append,
      List.nil_append, eatIf_stand_pos (p := fun c => c == '"' || c == '\\') (c := '\\') (by decide) rfl]
  | case7 c rest hbreak hquote hbrace hescquote hescslash =>
    rw [read_stand_cons hbreak, Run.ok_bind]
    by_cases hslash : c = '\\'
    · subst hslash
      have hno : ∀ d ∈ rest.head?, (d == '"' || d == '\\') = false := by
        intro d hd
        obtain ⟨rest', rfl⟩ := List.head?_eq_some_iff.mp hd
        have hdquote : d ≠ '"' := fun e => hescquote rest' rfl (by rw [e])
        have hdslash : d ≠ '\\' := fun e => hescslash rest' rfl (by rw [e])
        simp [hdquote, hdslash]
      simp only [Char.reduceEq, reduceIte, Run.ok_bind, eatIf_stand_neg hno]
    · simp only [if_neg hbreak, if_neg hquote, if_neg hslash, if_neg hbrace]

/-- a section leads from one draft to the next; `a` is the text in front of that of the template -/
theorem eatSection_stand {scan : Scanner} {n : Nat} (hscan : Scans scan n) (m : Machine)
    (ts : List Token) {d : Draft} (hsize : d.size = byteLength d.lexeme.reverse) (hb : b.length < n)
    (hfit : byteLength (a ++ d.lexeme.reverse ++ '{' :: b) ≤ countLimit) :
    match scanTokens (m.scope.sectionAt (after (a ++ d.lexeme.reverse)).offset)
      (.start ((after (a ++ d.lexeme.reverse)).next '{')) b with
    | .error e =>
      (m.stand ts (a ++ d.lexeme.reverse ++ ['{']) b).eatSection scan
        (after (a ++ d.lexeme.reverse)) (byteLength a) d.sections = Run.fail e
    | .ok s => ∃ x y, b = x ++ '}' :: y ∧ s.count = x.length ∧
      (m.stand ts (a ++ d.lexeme.reverse ++ ['{']) b).eatSection scan
          (after (a ++ d.lexeme.reverse)) (byteLength a) d.sections
        = .ok ((d.addSection (byteLength a) x s.tokens).sections,
            m.stand ts (a ++ (d.addSection (byteLength a) x s.tokens).lexeme.reverse) y) := by
  have hwhole : a ++ d.lexeme.reverse ++ ['{'] ++ b = a ++ d.lexeme.reverse ++ '{' :: b := by simp
  have hbase : byteLength a ≤ countLimit := by
    rw [byteLength_append, byteLength_append] at hfit
    omega
  have hnested := scanNested_stand hscan m ts .interpolation (after (a ++ d.lexeme.reverse)).offset hb
    (by rw [hwhole]; exact hfit) nofun
  have hscope : (⟨.interpolation, (after (a ++ d.lexeme.reverse)).offset, m.inMacro⟩ : Scope)
      = m.scope.sectionAt (after (a ++ d.lexeme.reverse)).offset := rfl
  rw [hscope, Position.after_append_singleton] at hnested
  rw [eatSection, scanNested_run]
  simp only [settle_run]
  cases hs : scanTokens (m.scope.sectionAt (after (a ++ d.lexeme.reverse)).offset)
      (.start ((after (a ++ d.lexeme.reverse)).next '{')) b with
  | error e =>
    rw [hs] at hnested
    simp only at hnested ⊢
    rw [hnested]
    rfl
  | ok s =>
    rw [hs] at hnested
    obtain ⟨x, y, hxy, hcount, -, hr⟩ := hnested
    rw [exit_of_sectionAt hs] at hxy hr
    refine ⟨x, y, hxy, hcount, ?_⟩
    have htext : a ++ d.lexeme.reverse ++ ['{'] ++ x ++ ['}']
        = a ++ (d.addSection (byteLength a) x s.tokens).lexeme.reverse := by
      simp [Draft.addSection]
    have hleave : m.leave ts (a ++ d.lexeme.reverse ++ ['{'] ++ x) .brace y
        = m.stand ts (a ++ (d.addSection (byteLength a) x s.tokens).lexeme.reverse) y := by
      rw [← htext]
      rfl
    have hfit' : byteLength (a ++ (d.addSection (byteLength a) x s.tokens).lexeme.reverse)
        ≤ countLimit := by
      have hsplit : a ++ d.lexeme.reverse ++ '{' :: b
          = a ++ d.lexeme.reverse ++ ['{'] ++ x ++ ['}'] ++ y := by
        rw [hxy]
        simp [Exit.text]
      rw [← htext]
      rw [hsplit] at hfit
      exact Nat.le_trans (byteLength_le_append _ y) hfit
    have hspan : (⟨byteLength (a ++ d.lexeme.reverse),
        byteLength (a ++ (d.addSection (byteLength a) x s.tokens).lexeme.reverse)⟩ : Span)
        = (⟨d.size, d.size + byteLength ('{' :: x ++ ['}'])⟩ : Span).shift (byteLength a) := by
      rw [← htext, Span.shift, hsize]
      simp only [byteLength_append, byteLength_cons, byteLength_nil, List.cons_append]
      congr 1 <;> omega
    have hhere : (after (a ++ d.lexeme.reverse)).offset = byteLength (a ++ d.lexeme.reverse) := rfl
    rw [hr, Run.ok_bind, hleave]
    simp only [offset_stand hfit', hhere, hspan, toCount_eq hbase, Run.relativeTo_shift, Run.ok_bind]
    rfl

/-- the machine, in front of the text `b` of a template that begins behind `a`, makes the template or
its error -/
def MakesTemplate (m : Machine) (ts : List Token) (a b : List Char)
    (result : Except LexError TemplateScan) (r : Run LexError Machine) : Prop :=
  match result with
  | .error e => r = Run.fail e
  | .ok t => ∃ rest, b = t.body ++ '"' :: rest ∧
    r = .ok (m.stand (⟨.template t.template, after a, stopOf (.template t.template) (after a)
      (Front.templateOpening ++ t.body ++ ['"'])⟩ :: ts)
      (a ++ (Front.templateOpening ++ t.body ++ ['"'])) rest)

theorem closeTemplate_stand (m : Machine) (ts : List Token) {d : Draft} {base : Nat}
    (hd : d.Sound base)
    (hfit : byteLength (a ++ Front.templateOpening ++ d.lexeme.reverse ++ ['"']) ≤ countLimit) :
    m.MakesTemplate ts a (d.lexeme.reverse ++ '"' :: b) (d.finish (after a))
      (closeTemplate (after a) (byteLength (a ++ Front.templateOpening)) d.sections
        (m.stand ts (a ++ Front.templateOpening ++ d.lexeme.reverse ++ ['"']) b)) := by
  have htext : a ++ Front.templateOpening ++ d.lexeme.reverse ++ ['"']
      = a ++ (Front.templateOpening ++ d.lexeme.reverse ++ ['"']) := by simp
  have hslice : ((m.stand ts (a ++ Front.templateOpening ++ d.lexeme.reverse ++ ['"']) b).sliceBack
      (byteLength (a ++ Front.templateOpening)) 1 : Run LexError _) = .ok d.lexeme.reverse :=
    sliceBack_stand rfl _ _
  have hspans : d.sections.reverse.map Section.relative = d.spans := rfl
  rw [closeTemplate, hslice, Run.ok_bind, hspans, Run.replaceBackward_eq hd.numbered, Run.ok_bind,
    decode_eq, Draft.finish]
  cases hdecode : decodeEscapes d.numbered.reverse with
  | error e => rfl
  | ok text =>
    refine ⟨b, rfl, ?_⟩
    simp only [Run.ofExcept_ok, Run.withError_ok, Run.ok_bind]
    rw [htext] at hfit ⊢
    exact push_stand (by simp) hfit

/-- the loop and what follows it make the template that the library makes of a draft and the text in
front of it -/
theorem templateLoop_stand {scan : Scanner} {n : Nat} (hscan : Scans scan n) (m : Machine)
    (ts : List Token) (a : List Char) {k : Nat} (d : Draft) (b : List Char) (hk : b.length < k)
    (hb : b.length < n) (hd : d.Sound (byteLength (a ++ Front.templateOpening)))
    (hposition : d.position = after (a ++ Front.templateOpening ++ d.lexeme.reverse))
    (hfit : byteLength (a ++ Front.templateOpening ++ d.lexeme.reverse ++ b) ≤ countLimit) :
    m.MakesTemplate ts a (d.lexeme.reverse ++ b) (scanTemplate m.scope (after a) d b)
      (templateLoop scan (after a) (byteLength (a ++ Front.templateOpening)) k d.sections
          (m.stand ts (a ++ Front.templateOpening ++ d.lexeme.reverse) b) >>= fun r =>
        closeTemplate (after a) (byteLength (a ++ Front.templateOpening)) r.1 r.2) := by
  induction k generalizing d b with
  | zero => exact absurd hk (Nat.not_lt_zero _)
  | succ k ih =>
    have htakes := piece_takes b
    rw [templateLoop_succ hfit, scanTemplate_eq]
    cases hpiece : piece b with
    | fail cause =>
      show Run.fail _ = Run.fail _
      rw [hposition]
    | quote rest =>
      rw [hpiece] at htakes
      obtain rfl : '"' :: rest = b := htakes
      refine closeTemplate_stand m ts hd (Nat.le_trans (byteLength_le_append _ rest) ?_)
      rw [List.append_assoc _ ['"'] rest]
      exact hfit
    | text taken rest =>
      rw [hpiece] at htakes
      have hshort := htakes.text_lt
      obtain ⟨rfl, -⟩ := htakes
      have hlexeme : (d.addText taken).lexeme.reverse = d.lexeme.reverse ++ taken := by
        simp [Draft.addText]
      have hnext := ih (d.addText taken) rest (by omega) (by omega) (hd.addText (plain_of_piece hpiece))
      rw [hlexeme, List.append_assoc d.lexeme.reverse, ← List.append_assoc _ d.lexeme.reverse taken]
        at hnext
      refine hnext ?_ ?_
      · rw [← Position.advance_after, ← hposition]
        rfl
      · rw [List.append_assoc _ taken rest]
        exact hfit
    | brace rest =>
      rw [hpiece] at htakes
      have hshort := htakes.brace_lt
      obtain rfl : '{' :: rest = b := htakes
      have hsection := eatSection_stand hscan m ts (a := a ++ Front.templateOpening) hd.size
        (b := rest) (by omega) hfit
      rw [← hposition] at hsection
      simp only [← hposition]
      cases hs : scanTokens (m.scope.sectionAt d.position.offset) (.start (d.position.next '{'))
          rest with
      | error e =>
        rw [hs] at hsection
        simp only at hsection
        rw [hsection]
        rfl
      | ok s =>
        rw [hs] at hsection
        obtain ⟨x, y, rfl, hcount, hr⟩ := hsection
        have hbraces : d.addBraces (after a) (List.take s.count (x ++ '}' :: y)) s.tokens
            = d.addSection (byteLength (a ++ Front.templateOpening)) x s.tokens := by
          rw [hcount, List.take_left, byteLength_append]
          rfl
        have hdrop : (x ++ '}' :: y).drop (s.count + 1) = y := by
          rw [hcount]
          exact List.drop_length_add_append 1
        have hlexeme : (d.addSection (byteLength (a ++ Front.templateOpening)) x s.tokens).lexeme.reverse
            = d.lexeme.reverse ++ ('{' :: x ++ ['}']) := by simp [Draft.addSection]
        have hwhole : a ++ Front.templateOpening ++ (d.lexeme.reverse ++ ('{' :: x ++ ['}'])) ++ y
            = a ++ Front.templateOpening ++ d.lexeme.reverse ++ '{' :: (x ++ '}' :: y) := by simp
        have htext : d.lexeme.reverse ++ ('{' :: x ++ ['}']) ++ y
            = d.lexeme.reverse ++ '{' :: (x ++ '}' :: y) := by simp
        simp only [List.length_append, List.length_cons] at hk hb
        have hnext := ih (d.addSection (byteLength (a ++ Front.templateOpening)) x s.tokens) y
          (by omega) (by omega) (hd.addSection x s.tokens)
        rw [hlexeme, hwhole, htext] at hnext
        simp only [hbraces, hdrop, hr, Run.ok_bind, hlexeme]
        refine hnext ?_ hfit
        rw [← List.append_assoc, ← Position.advance_after, ← hposition]
        rfl

theorem templateLiteral_stand {scan : Scanner} {n : Nat} (hscan : Scans scan n) (m : Machine)
    (ts : List Token) (hb : b.length < n)
    (hfit : byteLength (a ++ Front.templateOpening ++ b) ≤ countLimit) :
    m.MakesTemplate ts a b
      (scanTemplate m.scope (after a) (.start ((after a).advance Front.templateOpening)) b)
      (templateLiteral scan (after a) (m.stand ts (a ++ Front.templateOpening) b)) := by
  have hloop := templateLoop_stand hscan m ts a (.start ((after a).advance Front.templateOpening)) b
    (Reader.turns_between (a ++ Front.templateOpening) b) hb (Draft.sound_start _ _)
  simp only [Draft.start, List.reverse_nil, List.append_nil] at hloop
  exact hloop (Position.advance_after a _) hfit

/-! ## macro definitions -/

theorem setMacro_stand (m : Machine) (ts : List Token) (a b : List Char) (inMacro : Bool) :
    (m.stand ts a b).setMacro inMacro = (m.setMacro inMacro).stand ts a b := rfl

theorem setMacro_leave (hinside : m.inMacro = false) (e : Exit) :
    ((m.setMacro true).leave ts a e b).setMacro false = m.leave ts a e b := by
  have hback : (m.setMacro true).setMacro false = m := by
    cases m
    subst hinside
    rfl
  have hleave : ((m.setMacro true).leave ts a e b).setMacro false
      = ((m.setMacro true).setMacro false).leave ts a e b := by
    cases e <;> rfl
  rw [hleave, hback]

theorem define_stand (m : Machine) (ts : List Token) {header : MacroHeader}
    (hplaced : header.Placed (after a)) {x y : List Char} {e : Exit} (he : e ≠ .brace)
    (body : List Token)
    (hfit : byteLength (a ++ (header.lead ++ (header.names ++ x)) ++ e.text) ≤ countLimit) :
    (m.leave ts (a ++ (header.lead ++ (header.names ++ x))) e y).define (after a) (.ofHeader header)
        body e =
      .ok (m.stand (⟨.macroDef (header.define x body), after a,
          stopOf (.macroDef (header.define x body)) (after a) (header.lead ++ (header.names ++ x))⟩ :: ts)
        (a ++ (header.lead ++ (header.names ++ x)) ++ e.text) y) := by
  have hstart : header.nameStart.offset = byteLength (a ++ header.lead) := by
    rw [hplaced.nameStart, Position.advance_after]
    rfl
  have hwhole : a ++ (header.lead ++ (header.names ++ x)) = a ++ header.lead ++ (header.names ++ x) :=
    (List.append_assoc _ _ _).symm
  have hfit' := Nat.le_trans (byteLength_le_append _ e.text) hfit
  have hstop : stopOf (.macroDef (header.define x body)) (after a)
      (header.lead ++ (header.names ++ x)) = after (a ++ (header.lead ++ (header.names ++ x))) := by
    rw [stopOf_of_ne (by simp), Position.advance_after]
  have hslice : ∀ v, (Run.slice (a ++ (header.lead ++ (header.names ++ x)) ++ v)
      (byteLength (a ++ header.lead)) (byteLength (a ++ (header.lead ++ (header.names ++ x)))) :
      Run LexError _) = .ok (header.names ++ x) := by
    intro v
    rw [hwhole, byteLength_append (a ++ header.lead)]
    exact Run.slice_eq (slice?_append _ _ _)
  have hle : (after a).offset ≤ byteLength (a ++ (header.lead ++ (header.names ++ x))) :=
    byteLength_le_append a _
  rw [define, hstop]
  cases e with
  | brace => exact (he rfl).elim
  | endOfInput =>
    have hoffset : (m.leave ts (a ++ (header.lead ++ (header.names ++ x))) .endOfInput y).offset
        = byteLength (a ++ (header.lead ++ (header.names ++ x))) := offset_stand hfit'
    rw [if_neg (by decide), hoffset, Run.pure_eq, Run.ok_bind]
    show (Run.slice (a ++ (header.lead ++ (header.names ++ x)) ++ y) header.nameStart.offset _
      >>= fun _ => _) = _
    rw [hstart, hslice y, Run.ok_bind]
    show (Run.token _ (after a) (after (a ++ (header.lead ++ (header.names ++ x)))) >>= fun _ => _) = _
    rw [Run.token_eq hle, Run.ok_bind, if_neg (by decide), Exit.text, List.append_nil]
    rfl
  | newline =>
    have hoffset : (m.leave ts (a ++ (header.lead ++ (header.names ++ x))) .newline y).offset
        = byteLength (a ++ (header.lead ++ (header.names ++ x))) + 1 := offset_standAtBreak hfit
    rw [if_pos rfl, hoffset, Run.subtract_eq (Nat.le_add_left 1 _), Nat.add_sub_cancel, Run.ok_bind]
    show (Run.slice (a ++ (header.lead ++ (header.names ++ x)) ++ ['\n'] ++ y) header.nameStart.offset _
      >>= fun _ => _) = _
    rw [hstart, List.append_assoc _ ['\n'] y, hslice (['\n'] ++ y), Run.ok_bind]
    show (Run.token _ (after a) (after (a ++ (header.lead ++ (header.names ++ x)))) >>= fun _ => _) = _
    rw [Run.token_eq hle, Run.ok_bind, if_pos rfl]
    exact newLine_stand hfit

/-- the machine makes the macro definition of a header, or an error that its body has -/
def MakesMacro (m : Machine) (ts : List Token) (a : List Char) (header : MacroHeader)
    (rest : List Char) (r : Run LexError Machine) : Prop :=
  match scanTokens (.bodyAt header.nameStart.offset) (.start header.nameStop) rest with
  | .error e => r = Run.fail e
  | .ok s => ∃ x y, rest = x ++ (s.exit.text ++ y) ∧ s.count = x.length ∧ s.exit ≠ .brace ∧
    (s.exit = .endOfInput → y = []) ∧
    r = .ok (m.stand (⟨.macroDef (header.define x s.tokens), after a,
        stopOf (.macroDef (header.define x s.tokens)) (after a) (header.lead ++ (header.names ++ x))⟩
          :: ts)
      (a ++ (header.lead ++ (header.names ++ x)) ++ s.exit.text) y)

theorem macroDirective_stand {scan : Scanner} {n : Nat} (hscan : Scans scan n)
    (ts : List Token) (hinside : m.inMacro = false) {lead : List Char} (hlead : lead ≠ [])
    (hb : (lead ++ b).length ≤ n) (hfit : byteLength (a ++ lead ++ b) ≤ countLimit) :
    (∃ e, Lexeme.macroHeader (after a) lead b = .fail e ∧
      macroDirective scan (after a) (m.stand ts (a ++ lead) b) = Run.fail e) ∨
    (∃ header rest, Lexeme.macroHeader (after a) lead b = .macroDef header rest ∧
      m.MakesMacro ts a header rest (macroDirective scan (after a) (m.stand ts (a ++ lead) b))) := by
  have hno : (m.stand ts (a ++ lead) b).inMacro = false := hinside
  rw [macroDirective, hno]
  simp only [Bool.false_eq_true, reduceIte, perform_run, macroBody_run, macroBody]
  rcases names_stand m ts hfit with ⟨e, hheader, hr⟩ | ⟨header, rest, hheader, hr⟩
  · exact .inl ⟨e, hheader, by rw [hr]; rfl⟩
  refine .inr ⟨header, rest, hheader, ?_⟩
  rw [hr]
  have hplaced := Lexeme.macroHeader_placed hheader
  have htakes := Lexeme.macroHeader_takes (after a) hlead b
  rw [hheader] at htakes
  obtain ⟨hsplit, -⟩ := htakes
  have hwhole : a ++ (header.lead ++ header.names) ++ rest = a ++ lead ++ b := by
    rw [List.append_assoc, hsplit, List.append_assoc]
  have hstop : after (a ++ (header.lead ++ header.names)) = header.nameStop := by
    rw [hplaced.nameStop, hplaced.nameStart, Position.advance_after, Position.advance_after,
      List.append_assoc]
  have hshort : rest.length < n := by
    have hne := List.length_pos_iff.mpr hplaced.names_ne_nil
    rw [← hsplit] at hb
    simp only [List.length_append] at hb
    omega
  have hnested := scanNested_stand hscan (m.setMacro true) ts .macroBody header.nameStart.offset hshort
    (by rw [hwhole]; exact hfit) (fun _ => rfl)
  have hscope : (⟨.macroBody, header.nameStart.offset, (m.setMacro true).inMacro⟩ : Scope)
      = .bodyAt header.nameStart.offset := rfl
  have hstart : (Names.ofHeader header).start.offset = header.nameStart.offset := rfl
  rw [hstop, hscope] at hnested
  unfold MakesMacro
  simp only [Run.ok_bind, setMacro_stand, hstart]
  cases hs : scanTokens (.bodyAt header.nameStart.offset) (.start header.nameStop) rest with
  | error e =>
    rw [hs] at hnested
    simp only at hnested ⊢
    rw [hnested]
    rfl
  | ok s =>
    rw [hs] at hnested
    obtain ⟨x, y, hxy, hcount, hend, hr⟩ := hnested
    have hbrace := exit_of_bodyAt hs
    have htext :
        a ++ (header.lead ++ header.names) ++ x = a ++ (header.lead ++ (header.names ++ x)) := by
      simp
    have hfit' : byteLength (a ++ (header.lead ++ (header.names ++ x)) ++ s.exit.text) ≤ countLimit := by
      rw [← hwhole, hxy, ← List.append_assoc, ← List.append_assoc, htext] at hfit
      exact Nat.le_trans (byteLength_le_append _ y) hfit
    refine ⟨x, y, hxy, hcount, hbrace, hend, ?_⟩
    simp only [hr, Run.ok_bind, setMacro_leave hinside, htext]
    exact define_stand m ts hplaced hbrace s.tokens hfit'

end Machine

end ScriptLexer

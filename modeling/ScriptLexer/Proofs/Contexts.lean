import ScriptLexer.Proofs.Causes

/-!
# Errors name their constructs

The context of an error has the offset at which a construct begins, and that construct stands there.

* `LexError.Within scope start cs e`   what the context of a decision to fail is about: the scope as a
                                       whole, or a lexeme that begins at `start`; see `front_within`;
* `Context.Names source p`             what a context says of the source, for an error at the offset
                                       `p`;
* `NamesConstruct source scopes e`     the same, with what the context says of the scopes around.

`scan_contexts` says that all errors name their constructs so, but for one: a macro definition in a
macro body.  Its context says that it names the macro body, and the offset is that of the innermost
scope.  These are the same only where no section lies between (`scan_nestedMacro`).
-/

namespace ScriptLexer

open Position (after)

/-! ## what a decision to fail names -/

/-- what is wrong with the scope, or with something that the scope does not admit -/
def Cause.isOfScope : Cause → Bool
  | .unclosedInterpolation => true
  | .quoteInInterpolation => true
  | .nestedMacro => true
  | .unexpectedContinuation => true
  | .continuationWithoutNewline => true
  | _ => false

/-- the text begins with what opens a string -/
def OpensString (cs : List Char) : Prop :=
  cs.head? = some '"' ∨ ∃ q rest, cs = '@' :: q :: rest ∧ (q = '"' ∨ q = '\'')

/-- what the context of an error names that is found at the front of `cs`, which begins at `start` -/
inductive LexError.Within (scope : Scope) (start : Position) (cs : List Char) (e : LexError) :
    Prop where
  | inScope (hcontext : e.context = scope.context)
      (hbody : scope.mode = .macroBody ↔ e.cause = .continuationWithoutNewline)
      (hplain : scope.mode = .plain → e.cause = .unexpectedContinuation)
      (hcause : e.cause ≠ .nestedMacro)
  | inMacro (hcause : e.cause = .nestedMacro) (hinside : scope.inMacro = true)
      (hcontext : e.context = .macroBody scope.start)
  | inString (hcontext : e.context = .insideString start.offset) (hopens : OpensString cs)
      (hlt : start.offset < e.position.offset) (hcause : e.cause.isOfScope = false)
  | inComment (hcontext : e.context = .blockComment start.offset) (hopens : ['/', '*'] <+: cs)
      (hlt : start.offset < e.position.offset) (hcause : e.cause.isOfScope = false)
  | inNumber (hcontext : e.context = .numberLiteral) (hcause : e.cause.isOfScope = false)
  | inDirective (hcontext : e.context = .directive) (hcause : e.cause.isOfScope = false)

/-- a decision to fail names a construct -/
def Front.Within (scope : Scope) (start : Position) (cs : List Char) : Front → Prop
  | .fail e => e.Within scope start cs
  | _ => True

theorem offset_lt_advance (start : Position) (c : Char) (cs : List Char) :
    start.offset < (start.advance (c :: cs)).offset := by
  rw [Position.offset_advance, byteLength_cons]
  have hpos := c.utf8Size_pos
  omega

theorem LexError.within_section {scope : Scope} (hmode : scope.mode = .interpolation)
    {start : Position} {cs : List Char} {e : LexError}
    (hcontext : e.context = .interpolation scope.start)
    (hcause : e.cause = .unclosedInterpolation ∨ e.cause = .quoteInInterpolation) :
    e.Within scope start cs := by
  refine .inScope ?_ ?_ ?_ ?_
  · rw [hcontext, Scope.context, hmode]
  · rcases hcause with hcause | hcause <;> simp [hmode, hcause]
  · simp [hmode]
  · rcases hcause with hcause | hcause <;> simp [hcause]

/-- what fails is the scope, or a lexeme that begins in front of the error -/
theorem Failure.within {scope : Scope} {depth : Nat} {start : Position} {cs : List Char}
    {e : LexError} (h : Failure scope depth start cs e) : e.Within scope start cs := by
  cases h with
  | unclosedSection hmode => exact LexError.within_section hmode rfl (.inl rfl)
  | bareQuote hbare =>
    have hmode : scope.mode = .interpolation := eq_of_beq (Bool.and_eq_true_iff.mp hbare).1
    exact LexError.within_section hmode rfl (.inr rfl)
  | backslash hmode =>
    refine .inScope rfl ⟨fun h => absurd h hmode, fun h => nomatch h⟩ (fun _ => rfl) ?_
    simp [LexError.report, LexError.withContext]
  | continuation hbody _ =>
    refine .inScope ?_ ⟨fun _ => rfl, fun _ => hbody⟩ ?_ (by simp [LexError.report])
    · rw [Scope.context, hbody]
      rfl
    · simp [hbody]
  | @unterminated cs _ => exact .inString rfl (.inl rfl) (offset_lt_advance start '"' cs) rfl
  | lineBreak _ => exact .inString rfl (.inl rfl) (offset_lt_advance start '"' _) rfl
  | escape _ _ =>
    refine .inString rfl (.inl rfl) ?_ rfl
    show start.offset < start.offset + 1 + _
    omega
  | @raw quote cs hquote _ =>
    exact .inString rfl (.inr ⟨quote, cs, rfl, hquote⟩) (offset_lt_advance start '@' _) rfl
  | @comment cs _ => exact .inComment rfl ⟨cs, rfl⟩ (offset_lt_advance start '/' _) rfl
  | noDigits _ _ => exact .inNumber rfl rfl
  | overflow _ => exact .inNumber rfl rfl
  | fewDigits _ _ => exact .inNumber rfl rfl
  | manyDigits _ _ => exact .inNumber rfl rfl
  | nestedMacro _ hinside => exact .inMacro rfl hinside rfl
  | noName _ => exact .inDirective rfl rfl
  | badName _ => exact .inDirective rfl rfl
  | unknownWord _ => exact .inDirective rfl rfl

theorem front_within (scope : Scope) (depth : Nat) (behind : Behind) (start : Position)
    (cs : List Char) : (front scope depth behind start cs).Within scope start cs := by
  cases h : front scope depth behind start cs with
  | fail e => exact (front_failure h).within
  | _ => trivial

/-! ## the place that an error names -/

/-- what the context of an error at the offset `p` says of the source: what begins at its own
offset, and that this is in front of the error -/
def Context.Names (source : List Char) (p : Nat) : Context → Prop
  | .interpolation n => TextAt source ['{'] n ∧ n < p
  | .insideString n =>
    (TextAt source ['"'] n ∨ TextAt source ['@', '"'] n ∨ TextAt source ['@', '\''] n) ∧ n < p
  | .insideTemplate n => TextAt source Front.templateOpening n ∧ n ≤ p
  | .blockComment n => TextAt source ['/', '*'] n ∧ n < p
  | .macroBody n => HeaderAt source n ∧ n < p
  | .topLevel => True
  | .numberLiteral => True
  | .directive => True

/-- the context of an error names what stands at its offset, and the innermost of the scopes around if
it names a scope; `topLevel` stands for no scope at all -/
structure NamesConstruct (source : List Char) (scopes : List Scope) (e : LexError) : Prop where
  names : e.context.Names source e.position.offset
  body : ∀ n, e.context = .macroBody n →
    ∃ s ∈ scopes.getLast?, s.mode = .macroBody ∧ s.start = n
  braces : ∀ n, e.context = .interpolation n →
    ∃ s ∈ scopes.getLast?, s.mode = .interpolation ∧ s.start = n
  topLevel : e.context = .topLevel →
    e.cause = .unexpectedContinuation ∧ scopes = [.initial .plain]
  unexpected : e.cause = .unexpectedContinuation →
    e.context = .topLevel ∨ ∃ n, e.context = .interpolation n
  withoutNewline : e.cause = .continuationWithoutNewline → ∃ n, e.context = .macroBody n

theorem OpensString.textAt {u cs : List Char} (h : OpensString cs) :
    TextAt (u ++ cs) ['"'] (byteLength u) ∨ TextAt (u ++ cs) ['@', '"'] (byteLength u) ∨
      TextAt (u ++ cs) ['@', '\''] (byteLength u) := by
  rcases h with hhead | ⟨q, rest, rfl, hq⟩
  · obtain ⟨rest, rfl⟩ := List.head?_eq_some_iff.mp hhead
    exact .inl ⟨u, rest, rfl, rfl⟩
  · rcases hq with rfl | rfl
    · exact .inr (.inl ⟨u, rest, rfl, rfl⟩)
    · exact .inr (.inr ⟨u, rest, rfl, rfl⟩)

theorem Job.Fails.inTemplate {scope : Scope} {start : Position} {d : Draft} {x y : List Char}
    {e : LexError} (h : (Job.template scope start d).Fails y e)
    (hstands : (Job.template scope start d).Stands x) :
    e.context = .insideTemplate start.offset ∧ start.offset ≤ e.position.offset ∧
      e.cause.isOfScope = false := by
  have hle : start.offset ≤ d.position.offset := by
    have hpos : d.position = after x := hstands.position
    rw [hpos]
    exact Nat.le_of_lt ((hstands.opening scope start d rfl).lt (List.cons_ne_nil _ _))
  cases h.draft with
  | unterminated => exact ⟨rfl, hle, rfl⟩
  | lineBreak => exact ⟨rfl, hle, rfl⟩
  | escape _ => exact ⟨rfl, Nat.le_refl _, rfl⟩

theorem Cause.ne_of_isOfScope {c d : Cause} (hc : c.isOfScope = false) (hd : d.isOfScope = true) :
    c ≠ d := by
  rintro rfl
  exact Bool.false_ne_true (hc.symm.trans hd)

theorem NamesConstruct.of_lexeme {source : List Char} {scopes : List Scope} {e : LexError}
    (names : e.context.Names source e.position.offset) (hcause : e.cause.isOfScope = false)
    (hbody : ∀ n, e.context ≠ .macroBody n) (hbraces : ∀ n, e.context ≠ .interpolation n)
    (htop : e.context ≠ .topLevel) : NamesConstruct source scopes e where
  names := names
  body n hn := absurd hn (hbody n)
  braces n hn := absurd hn (hbraces n)
  topLevel h := absurd h htop
  unexpected h := absurd h (Cause.ne_of_isOfScope hcause rfl)
  withoutNewline h := absurd h (Cause.ne_of_isOfScope hcause rfl)

theorem eq_nil_or_mem_of_getLast? {first last : Scope} {inner : List Scope}
    (h : (first :: inner).getLast? = some last) : (inner = [] ∧ last = first) ∨ last ∈ inner := by
  cases inner with
  | nil => exact .inl ⟨rfl, (Option.some.inj h).symm⟩
  | cons s inner =>
    rw [List.getLast?_cons_cons] at h
    exact .inr (List.mem_of_getLast? h)

section

variable {source : String} {scopes : List Scope} {e : LexError}

theorem NamesConstruct.of_scope {x y : List Char} {scope : Scope} {inner : List Scope}
    (hxy : source.toList = x ++ y) (hscopes : scopes = .initial .plain :: inner)
    (hopen : ∀ s ∈ inner, s.OpenIn x) (hlast : scopes.getLast? = some scope)
    (hle : byteLength x ≤ e.position.offset) (hcontext : e.context = scope.context)
    (hbody : scope.mode = .macroBody ↔ e.cause = .continuationWithoutNewline)
    (hplain : scope.mode = .plain → e.cause = .unexpectedContinuation) :
    NamesConstruct source.toList scopes e := by
  have hwhere := eq_nil_or_mem_of_getLast? (hscopes ▸ hlast)
  have hmem : scope.mode ≠ .plain → scope.OpenIn x := by
    intro hmode
    rcases hwhere with ⟨_, rfl⟩ | hmem
    · exact absurd rfl hmode
    · exact hopen scope hmem
  cases hmode : scope.mode with
  | plain =>
    have htop : e.context = .topLevel := by rw [hcontext, Scope.context, hmode]
    have hcause := hplain hmode
    have hnil : inner = [] := by
      rcases hwhere with ⟨hnil, _⟩ | hmem
      · exact hnil
      · -- a scope that was opened is not plain
        have hscope := hopen scope hmem
        rw [Scope.OpenIn, hmode] at hscope
        exact hscope.elim
    refine ⟨by rw [htop]; trivial, by simp [htop], by simp [htop], fun _ => ⟨hcause, ?_⟩,
      fun _ => .inl htop, by simp [hcause]⟩
    rw [hscopes, hnil]
  | interpolation =>
    have hbraces : e.context = .interpolation scope.start := by rw [hcontext, Scope.context, hmode]
    have hscope := hmem (by simp [hmode])
    have hlt := Nat.lt_of_lt_of_le hscope.lt hle
    rw [Scope.OpenIn, hmode] at hscope
    have hnot : e.cause ≠ .continuationWithoutNewline := fun h => by simp [hbody.mpr h] at hmode
    refine ⟨?_, by simp [hbraces], fun n hn => ⟨scope, hlast, hmode, ?_⟩, by simp [hbraces],
      fun _ => .inr ⟨_, hbraces⟩, fun h => absurd h hnot⟩
    · rw [hbraces, hxy]
      exact ⟨TextAt.append hscope y, hlt⟩
    · rw [hbraces] at hn
      exact Context.interpolation.inj hn
  | macroBody =>
    have hmacroBody : e.context = .macroBody scope.start := by rw [hcontext, Scope.context, hmode]
    have hscope := hmem (by simp [hmode])
    have hlt := Nat.lt_of_lt_of_le hscope.lt hle
    rw [Scope.OpenIn, hmode] at hscope
    have hcause := hbody.mp hmode
    refine ⟨?_, fun n hn => ⟨scope, hlast, hmode, ?_⟩, by simp [hmacroBody], by simp [hmacroBody],
      by simp [hcause], fun _ => ⟨_, hmacroBody⟩⟩
    · rw [hmacroBody, hxy]
      exact ⟨HeaderAt.append hscope y, hlt⟩
    · rw [hmacroBody] at hn
      exact Context.macroBody.inj hn

theorem offset_le_of_front {scope : Scope} {depth : Nat} {behind : Behind} {start : Position}
    {cs : List Char} (h : front scope depth behind start cs = .fail e) :
    start.offset ≤ e.position.offset := by
  have hpoints := front_points scope depth behind start cs
  rw [h] at hpoints
  obtain ⟨pre, _, _, hposition, _⟩ := hpoints
  rw [hposition, Position.offset_advance]
  exact Nat.le_add_right _ _

/-- wherever an error is raised it names its construct, unless a macro definition is refused -/
theorem Raised.namesConstruct (h : Raised source .plain scopes e)
    (hcause : e.cause ≠ .nestedMacro) : NamesConstruct source.toList scopes e := by
  obtain ⟨x, y, k, inner, hxy, hk, hfails, hscopes, hentered, hlast⟩ := h.entered
  cases k with
  | template scope start d =>
    have hopening : TextAt x Front.templateOpening start.offset := hk.opening scope start d rfl
    obtain ⟨hcontext, hposition, hnot⟩ := hfails.inTemplate hk
    refine .of_lexeme ?_ hnot (by simp [hcontext]) (by simp [hcontext]) (by simp [hcontext])
    rw [hcontext, hxy]
    exact ⟨hopening.append y, hposition⟩
  | tokens scope st =>
    have hpos : st.position = after x := hk.position
    have hfront : front scope st.depth st.behind st.position y = .fail e := hfails
    have hle := offset_le_of_front hfront
    have hwithin := front_within scope st.depth st.behind st.position y
    rw [hfront] at hwithin
    rw [hpos] at hle hwithin
    cases hwithin with
    | inScope hcontext hbody hplain =>
      exact .of_scope hxy hscopes hentered.openIn hlast hle hcontext hbody hplain
    | inMacro hnested => exact absurd hnested hcause
    | inString hcontext hopens hlt hnot =>
      refine .of_lexeme ?_ hnot (by simp [hcontext]) (by simp [hcontext]) (by simp [hcontext])
      rw [hcontext, hxy]
      exact ⟨hopens.textAt, hlt⟩
    | inComment hcontext hopens hlt hnot =>
      refine .of_lexeme ?_ hnot (by simp [hcontext]) (by simp [hcontext]) (by simp [hcontext])
      obtain ⟨rest, rfl⟩ := hopens
      rw [hcontext, hxy]
      exact ⟨⟨x, rest, rfl, rfl⟩, hlt⟩
    | inNumber hcontext hnot =>
      refine .of_lexeme ?_ hnot (by simp [hcontext]) (by simp [hcontext]) (by simp [hcontext])
      rw [hcontext]
      trivial
    | inDirective hcontext hnot =>
      refine .of_lexeme ?_ hnot (by simp [hcontext]) (by simp [hcontext]) (by simp [hcontext])
      rw [hcontext]
      trivial

/-- The context of an error names the construct that was being read.  Every error but that of a macro
definition in a macro body has, at the offset of its context, what begins the construct, and a scope
that it names is the innermost one. -/
theorem scan_contexts (h : scan source = .error e)
    (hsize : byteLength source.toList ≤ countLimit) (hcause : e.cause ≠ .nestedMacro) :
    (∃ scopes, Raised source .plain scopes e) ∧
      ∀ scopes, Raised source .plain scopes e → NamesConstruct source.toList scopes e :=
  ⟨(scan_raised hsize).mp h, fun _ hraised => hraised.namesConstruct hcause⟩

/-- a section was entered and left, and the error behind it names the macro body again -/
theorem scan_contexts_restored :
    ∃ e, scan "#macro A $\"\x7b1\x7d\" \\x" = .error e ∧ e.context = .macroBody 7 ∧
      byteLength "#macro A $\"\x7b1\x7d\" \\x".toList ≤ countLimit ∧
      e.cause ≠ .nestedMacro ∧
      (∃ scopes, Raised "#macro A $\"\x7b1\x7d\" \\x" .plain scopes e) ∧
      ∀ scopes, Raised "#macro A $\"\x7b1\x7d\" \\x" .plain scopes e →
        NamesConstruct "#macro A $\"\x7b1\x7d\" \\x".toList scopes e := by
  refine ⟨.report .continuationWithoutNewline ⟨16, 0, 0⟩ 7, ?h, rfl, ?hsize, ?hcause,
    scan_contexts ?h ?hsize ?hcause⟩
  case h => decide +kernel
  case hsize => decide +kernel
  case hcause => decide

/-! ## a macro definition in a macro body -/

theorem TextAt.char_unique {text : List Char} {c d : Char} {n : Nat} (hc : TextAt text [c] n)
    (hd : TextAt text [d] n) : c = d := by
  obtain ⟨u, v, rfl, hu⟩ := hc
  obtain ⟨u', v', htext, hu'⟩ := hd
  have hindex := charIndex?_eq_some_iff.mpr ⟨u, [c] ++ v, rfl, hu, rfl⟩
  have hindex' := charIndex?_eq_some_iff.mpr ⟨u', [d] ++ v', htext, hu', rfl⟩
  have hlength : u.length = u'.length := Option.some.inj (hindex.symm.trans hindex')
  exact (List.cons.inj (List.append_inj htext hlength).2).1

theorem HeaderAt.not_brace {text : List Char} {n : Nat} (h : HeaderAt text n) :
    ¬TextAt text ['{'] n := by
  intro hbrace
  obtain ⟨c, hc, hchar⟩ := h.textAt
  rw [hchar.char_unique hbrace] at hc
  exact absurd hc (by decide)

/-- a macro definition was refused inside of the one body among the scopes, which has its header at
`n`; the context has the offset of `s`, the innermost scope -/
structure RefusedIn (source : List Char) (scopes : List Scope) (e : LexError) (n : Nat) (s : Scope) :
    Prop where
  body : scopes.filter Scope.isBody = [.bodyAt n]
  header : HeaderAt source n
  lt : n < e.position.offset
  innermost : s ∈ scopes.getLast?
  context : e.context = .macroBody s.start
  named_iff : e.context = .macroBody n ↔ s = .bodyAt n

theorem Job.Fails.nestedMacro {k : Job} {x y : List Char} (h : k.Fails y e) (hk : k.Stands x)
    (hcause : e.cause = .nestedMacro) :
    k.scope.inMacro = true ∧ e.context = .macroBody k.scope.start ∧
      byteLength x ≤ e.position.offset := by
  cases k with
  | template scope start d =>
    obtain ⟨_, _, hnot⟩ := h.inTemplate hk
    exact absurd hcause (Cause.ne_of_isOfScope hnot rfl)
  | tokens scope st =>
    have hpos : st.position = after x := hk.position
    have hfront : front scope st.depth st.behind st.position y = .fail e := h
    have hle := offset_le_of_front hfront
    have hwithin := front_within scope st.depth st.behind st.position y
    rw [hfront] at hwithin
    rw [hpos] at hle
    cases hwithin with
    | inMacro _ hinside hcontext => exact ⟨hinside, hcontext, hle⟩
    | inScope _ _ _ hnot => exact absurd hcause hnot
    | inString _ _ _ hnot => exact absurd hcause (Cause.ne_of_isOfScope hnot rfl)
    | inComment _ _ _ hnot => exact absurd hcause (Cause.ne_of_isOfScope hnot rfl)
    | inNumber _ hnot => exact absurd hcause (Cause.ne_of_isOfScope hnot rfl)
    | inDirective _ hnot => exact absurd hcause (Cause.ne_of_isOfScope hnot rfl)

theorem Entered.eq_bodyAt {pre : List Char} {first last s : Scope} {inner : List Scope} {n : Nat}
    (h : Entered pre first inner last) (hbodies : inner.filter Scope.isBody = [.bodyAt n])
    (hheader : HeaderAt pre n) (hs : s ∈ inner) (hstart : s.start = n) : s = .bodyAt n := by
  have hopen := h.openIn s hs
  cases hmode : s.mode with
  | plain =>
    rw [Scope.OpenIn, hmode] at hopen
    exact hopen.elim
  | interpolation =>
    rw [Scope.OpenIn, hmode, hstart] at hopen
    exact absurd hopen hheader.not_brace
  | macroBody =>
    have hbody : s ∈ inner.filter Scope.isBody :=
      List.mem_filter.mpr ⟨hs, by rw [Scope.isBody, hmode]; rfl⟩
    rw [hbodies] at hbody
    exact List.mem_singleton.mp hbody

/-- wherever a macro definition is refused, one macro body is around it -/
theorem Raised.refusedIn (h : Raised source .plain scopes e) (hcause : e.cause = .nestedMacro) :
    ∃ n s, RefusedIn source.toList scopes e n s := by
  obtain ⟨x, y, k, inner, hxy, hk, hfails, hscopes, hentered, hlast⟩ := h.entered
  obtain ⟨hinside, hcontext, hle⟩ := hfails.nestedMacro hk hcause
  -- the source began outside of all bodies, so one was opened on the way
  obtain ⟨n, hbodies⟩ : ∃ n, inner.filter Scope.isBody = [.bodyAt n] := by
    rcases hentered.bodies with ⟨_, hlast'⟩ | ⟨n, hbodies, _⟩
    · exact absurd (hlast'.symm.trans hinside) (by decide)
    · exact ⟨n, hbodies⟩
  have hmem : Scope.bodyAt n ∈ inner :=
    List.mem_of_mem_filter (hbodies ▸ List.mem_singleton_self _)
  have hbody : (Scope.bodyAt n).OpenIn x := hentered.openIn _ hmem
  have hheader : HeaderAt x n := hbody
  refine ⟨n, k.scope, ?_, hxy ▸ hheader.append y, Nat.lt_of_lt_of_le hbody.lt hle, hlast, hcontext,
    ?_⟩
  · rw [hscopes, List.filter_cons_of_neg (by decide)]
    exact hbodies
  constructor
  · intro hsame
    rw [hcontext] at hsame
    have hstart : k.scope.start = n := Context.macroBody.inj hsame
    have hinner : k.scope ∈ inner := by
      rcases eq_nil_or_mem_of_getLast? (hscopes ▸ hlast) with ⟨hnil, _⟩ | hinner
      · rw [hnil] at hmem
        exact absurd hmem List.not_mem_nil
      · exact hinner
    exact hentered.eq_bodyAt hbodies hheader hinner hstart
  · intro hscope
    rw [hcontext, hscope]
    rfl

theorem size_of_nestedMacro {mode : Mode} (h : scan source mode = .error e)
    (hcause : e.cause = .nestedMacro) : byteLength source.toList ≤ countLimit := by
  apply byteLength_le_of_scan_error h
  rw [hcause]
  intro hlarge
  cases hlarge

/-- A macro definition is refused inside of one macro body, whose header stands in front of the error.
The context of the error has the offset of that header only where the body is the innermost scope;
where a section lies between, it has the offset of the section. -/
theorem scan_nestedMacro (h : scan source = .error e) (hcause : e.cause = .nestedMacro) :
    (∃ scopes, Raised source .plain scopes e) ∧
      ∀ scopes, Raised source .plain scopes e → ∃ n s, RefusedIn source.toList scopes e n s := by
  refine ⟨(scan_raised (size_of_nestedMacro h hcause)).mp h, ?_⟩
  intro scopes hraised
  exact hraised.refusedIn hcause

/-- in the body itself, the header is named -/
theorem scan_nestedMacro_body :
    ∃ e, scan "#macro A #macro B" = .error e ∧ e.cause = .nestedMacro ∧ e.context = .macroBody 7 ∧
      (∃ scopes, Raised "#macro A #macro B" .plain scopes e) ∧
      ∀ scopes, Raised "#macro A #macro B" .plain scopes e →
        ∃ n s, RefusedIn "#macro A #macro B".toList scopes e n s := by
  refine ⟨.report .nestedMacro ⟨9, 0, 0⟩ 7, ?h, rfl, rfl, scan_nestedMacro ?h rfl⟩
  decide +kernel

/-- in a section of a template in the body, the brace of the section is named and not the header -/
theorem scan_nestedMacro_section :
    ∃ e, scan "#macro A $\"\x7b#macro B 1\x7d\"\n" = .error e ∧ e.cause = .nestedMacro ∧
      e.context = .macroBody 11 ∧ ¬HeaderAt "#macro A $\"\x7b#macro B 1\x7d\"\n".toList 11 := by
  refine ⟨.report .nestedMacro ⟨12, 0, 0⟩ 11, ?_, rfl, rfl, ?_⟩
  · decide +kernel
  · intro hheader
    exact hheader.not_brace ⟨"#macro A $\"".toList, "#macro B 1\x7d\"\n".toList, by decide, by decide⟩

end

end ScriptLexer

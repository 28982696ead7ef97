import ScriptLexer.Scan.Dispatch

/-!
# Decisions at another place

A text that was cut out of a source at `base` is read there as it is read alone, with every place
moved: `Position.embed` on positions, a shift by the offset of `base` on offsets.

* `LexError.embed`, `Front.embed`   errors and decisions moved so, `moveResult` what may be either an
                                    error or a value;
* `Scope.Moved base s s'`           `s'` is the scope `s` moved: a plain scope has no beginning that
                                    could move;
* `front_embed`                     a decision at a moved place is the moved decision.
-/

namespace ScriptLexer

/-! ## errors -/

/-- the construct, further on by `n` bytes -/
def Context.shift (n : Nat) : Context → Context
  | .topLevel => .topLevel
  | .macroBody start => .macroBody (start + n)
  | .interpolation start => .interpolation (start + n)
  | .insideString start => .insideString (start + n)
  | .insideTemplate start => .insideTemplate (start + n)
  | .blockComment start => .blockComment (start + n)
  | .numberLiteral => .numberLiteral
  | .directive => .directive

/-- the suggestion with its edit, if it has one, further on by `n` bytes -/
def Suggestion.shift (n : Nat) (s : Suggestion) : Suggestion :=
  { s with replacement := s.replacement.map fun r => { r with span := r.span.shift n } }

/-- an error of a text that begins at `base` in a source, as an error of the source -/
def LexError.embed (base : Position) (e : LexError) : LexError :=
  ⟨base.embed e.position, e.cause, e.context.shift base.offset,
    e.suggestions.map (Suggestion.shift base.offset)⟩

/-- a result of a text that begins at `base`, with what becomes of its value -/
def moveResult {α β : Type} (base : Position) (f : α → β) : Except LexError α → Except LexError β
  | .ok a => .ok (f a)
  | .error e => .error (e.embed base)

variable (base : Position)

theorem Cause.context_shift (cause : Cause) (start : Nat) :
    (cause.context start).shift base.offset = cause.context (start + base.offset) := by
  cases cause <;> rfl

theorem Cause.suggestions_shift (cause : Cause) (p : Position) :
    (cause.suggestions p).map (Suggestion.shift base.offset)
      = cause.suggestions (base.embed p) := by
  have hedit : (⟨p.offset, p.offset + 1⟩ : Span).shift base.offset
      = ⟨(base.embed p).offset, (base.embed p).offset + 1⟩ := by
    simp only [Span.shift, Position.embed, Nat.add_right_comm]
  cases cause with
  | escape e => cases e <;> rfl
  | newlineInString =>
    simp only [Cause.suggestions, List.map_cons, List.map_nil, Suggestion.shift, Suggestion.replace,
      Suggestion.advice, Option.map_some, Option.map_none, hedit]
  | unexpectedContinuation =>
    simp only [Cause.suggestions, List.map_cons, List.map_nil, Suggestion.shift, Suggestion.removal,
      Suggestion.replace, Option.map_some, hedit]
  | _ => rfl

theorem LexError.report_embed (cause : Cause) (p : Position) (start : Nat) :
    (LexError.report cause p start).embed base
      = .report cause (base.embed p) (start + base.offset) := by
  simp only [LexError.embed, LexError.report, Cause.context_shift, Cause.suggestions_shift]

theorem LexError.withContext_embed (e : LexError) (context : Context) :
    (e.withContext context).embed base
      = (e.embed base).withContext (context.shift base.offset) := rfl

theorem LexError.ofEscape_embed (cause : EscapeCause) (p : Position) (context : Context) :
    (LexError.ofEscape cause p context).embed base
      = .ofEscape cause (base.embed p) (context.shift base.offset) := by
  rw [LexError.ofEscape, LexError.withContext_embed, LexError.report_embed]
  rfl

/-! ## scopes and decisions -/

/-- the scope `s'` is the scope `s` of a text that begins at `base`; a plain scope outside of a macro
body has no beginning of its own -/
structure Scope.Moved (base : Position) (s s' : Scope) : Prop where
  mode : s'.mode = s.mode
  inMacro : s'.inMacro = s.inMacro
  start : s.mode ≠ .plain ∨ s.inMacro = true → s'.start = s.start + base.offset

theorem Scope.moved_initial : (Scope.initial .plain).Moved base (.initial .plain) :=
  ⟨rfl, rfl, fun h => by simp [Scope.initial] at h⟩

theorem Scope.moved_bodyAt (start : Nat) :
    (Scope.bodyAt start).Moved base (.bodyAt (start + base.offset)) :=
  ⟨rfl, rfl, fun _ => rfl⟩

theorem Scope.Moved.sectionAt {s s' : Scope} (h : s.Moved base s') (start : Nat) :
    (s.sectionAt start).Moved base (s'.sectionAt (start + base.offset)) :=
  ⟨rfl, h.inMacro, fun _ => rfl⟩

theorem Scope.Moved.context {s s' : Scope} (h : s.Moved base s') :
    s'.context = s.context.shift base.offset := by
  unfold Scope.context
  rw [h.mode]
  cases hm : s.mode with
  | plain => rfl
  | macroBody => rw [h.start (.inl (by simp [hm]))]; rfl
  | interpolation => rw [h.start (.inl (by simp [hm]))]; rfl

/-- a header with its names moved -/
def MacroHeader.embed (header : MacroHeader) : MacroHeader :=
  { header with
    nameStart := base.embed header.nameStart
    nameStop := base.embed header.nameStop }

/-- a decision about a text that begins at `base` in a source, as a decision in the source -/
def Front.embed : Front → Front
  | .macroDef header rest => .macroDef (header.embed base) rest
  | .fail e => .fail (e.embed base)
  | f => f

theorem Front.fail_embed (cause : Cause) (p : Position) (start : Nat) :
    (Front.fail (.report cause p start)).embed base
      = .fail (.report cause (base.embed p) (start + base.offset)) := by
  rw [Front.embed, LexError.report_embed]

/-! ## the lexemes -/

namespace Lexeme

variable (p : Position)

theorem integer_embed (b : Base) (radix : Radix) (lexeme digits rest : List Char) :
    integer b radix (base.embed p) lexeme digits rest
      = (integer b radix p lexeme digits rest).embed base := by
  unfold integer
  split
  · rfl
  · rw [Front.fail_embed]; rfl

theorem inBase_embed (b : Base) (radix : Radix) (lead cs : List Char) :
    inBase b radix (base.embed p) lead cs = (inBase b radix p lead cs).embed base := by
  unfold inBase
  simp only
  split
  · rw [Front.fail_embed]; rfl
  · exact integer_embed base p _ _ _ _ _

theorem decimal_embed (c : Char) (cs : List Char) :
    decimal (base.embed p) c cs = (decimal p c cs).embed base := by
  unfold decimal
  simp only
  split
  · rfl
  · exact integer_embed base p _ _ _ _ _

theorem numeral_embed (c : Char) (cs : List Char) :
    numeral (base.embed p) c cs = (numeral p c cs).embed base := by
  unfold numeral
  split
  · exact decimal_embed base p c []
  · split
    · exact inBase_embed base p _ _ _ _
    · split
      · exact inBase_embed base p _ _ _ _
      · exact decimal_embed base p c _

/-- where an escape sequence begins, `n` bytes into a string that begins at `p` -/
theorem escapePlace_embed (n : Nat) :
    base.embed { p with offset := p.offset + 1 + n }
      = { base.embed p with offset := (base.embed p).offset + 1 + n } := by
  simp only [Position.embed]
  congr 1
  omega

theorem quoted_embed (cs : List Char) :
    quoted (base.embed p) cs = (quoted p cs).embed base := by
  unfold quoted
  split
  · rw [Front.fail_embed, Position.embed_advance]; rfl
  · rw [Front.fail_embed, Position.embed_advance]; rfl
  · split
    · rfl
    · rw [Front.embed, LexError.ofEscape_embed, escapePlace_embed]; rfl

theorem raw_embed (quote : Char) (cs : List Char) :
    raw (base.embed p) quote cs = (raw p quote cs).embed base := by
  unfold raw
  simp only
  split
  · rfl
  · rw [Front.fail_embed, Position.embed_advance]; rfl

theorem atSign_embed (cs : List Char) :
    atSign (base.embed p) cs = (atSign p cs).embed base := by
  unfold atSign
  split
  · rfl
  · split
    · exact raw_embed base p _ _
    · rfl

theorem dollar_embed (cs : List Char) :
    dollar (base.embed p) cs = (dollar p cs).embed base := by
  unfold dollar
  split
  · rfl
  · split
    · rfl
    · split
      · exact inBase_embed base p _ _ _ _
      · rfl

theorem symbol_embed (c : Char) (cs : List Char) : symbol c cs = (symbol c cs).embed base := by
  unfold symbol
  split <;> rfl

theorem slash_embed (cs : List Char) : slash (base.embed p) cs = (slash p cs).embed base := by
  unfold slash
  split
  · exact symbol_embed base '/' []
  · split
    · rfl
    · split
      · unfold block
        split
        · rfl
        · rw [Front.fail_embed, Position.embed_advance]; rfl
      · exact symbol_embed base '/' _

theorem point_embed (behind : Behind) (cs : List Char) :
    point behind cs = (point behind cs).embed base := by
  unfold point
  split
  · exact symbol_embed base '.' []
  · split
    · rfl
    · exact symbol_embed base '.' _

theorem colour_embed (digits rest : List Char) :
    colour (base.embed p) digits rest = (colour p digits rest).embed base := by
  unfold colour
  simp only
  split
  · rw [Front.fail_embed]; rfl
  · split
    · rw [Front.fail_embed]; rfl
    · split
      · rfl
      · rw [Front.fail_embed]; rfl

theorem macroName_embed (cs : List Char) :
    macroName (base.embed p) cs = moveResult base id (macroName p cs) := by
  unfold macroName
  split
  · rw [moveResult, LexError.report_embed]; rfl
  · split
    · rw [moveResult, LexError.report_embed]; rfl
    · split
      · rfl
      · rw [moveResult, LexError.report_embed]; rfl

theorem macroHeader_embed (lead cs : List Char) :
    macroHeader (base.embed p) lead cs = (macroHeader p lead cs).embed base := by
  unfold macroHeader
  simp only [← Position.embed_advance, macroName_embed]
  cases macroName (p.advance (lead ++ cs.takeWhile isBlank)) (cs.dropWhile isBlank) with
  | error e => rfl
  | ok found =>
    obtain ⟨first, rest⟩ := found
    simp only [moveResult, id]
    split
    · rename_i h; cases h
    · rename_i h
      cases h
      cases macroName ((p.advance (lead ++ cs.takeWhile isBlank)).advance (first ++ [':'])) _ with
      | error e => rfl
      | ok found => rfl
    · rfl

theorem directive_embed {s s' : Scope} (hs : s.Moved base s') (cs : List Char) :
    directive s' (base.embed p) cs = (directive s p cs).embed base := by
  unfold directive
  simp only [hs.inMacro]
  split
  · rfl
  split
  · rfl
  split
  · split
    · rename_i hin
      rw [Front.fail_embed, hs.start (.inr hin)]
    · exact macroHeader_embed base p _ _
  split
  · exact colour_embed base p _ _
  · rw [Front.fail_embed]; rfl

end Lexeme

theorem lexeme_embed (behind : Behind) (p : Position) (c : Char) (cs : List Char) :
    lexeme behind (base.embed p) c cs = (lexeme behind p c cs).embed base := by
  unfold lexeme
  split
  · rfl
  split
  · rfl
  split
  · exact Lexeme.numeral_embed base p c cs
  split
  · exact Lexeme.point_embed base behind cs
  split
  · exact Lexeme.quoted_embed base p cs
  split
  · exact Lexeme.atSign_embed base p cs
  split
  · exact Lexeme.dollar_embed base p cs
  split
  · exact Lexeme.slash_embed base p cs
  · exact Lexeme.symbol_embed base c cs

section
variable {base} {s s' : Scope} (hs : s.Moved base s')
include hs

theorem atEnd_embed (p : Position) : atEnd s' (base.embed p) = (atEnd s p).embed base := by
  unfold atEnd
  rw [hs.mode]
  split
  · rename_i hm
    rw [Front.fail_embed, hs.start (.inl (by simp [hm]))]
  · rfl

theorem atNewline_embed (behind : Behind) (cs : List Char) :
    atNewline s' behind cs = (atNewline s behind cs).embed base := by
  unfold atNewline
  rw [hs.mode]
  split
  · rfl
  · split <;> rfl

theorem atBackslash_embed (p : Position) (cs : List Char) :
    atBackslash s' (base.embed p) cs = (atBackslash s p cs).embed base := by
  unfold atBackslash
  rw [hs.mode]
  split
  · rw [Front.embed, LexError.withContext_embed, LexError.report_embed, hs.context]
    rfl
  · rename_i hm
    have hbody : s.mode = .macroBody := Classical.not_not.mp hm
    split
    · rfl
    · rw [Front.fail_embed, hs.start (.inl (by simp [hbody]))]

/-- only a section looks at the number of open braces -/
theorem isBareSection_moved {depth depth' : Nat} (hd : s.mode = .interpolation → depth' = depth) :
    s'.isBareSection depth' = s.isBareSection depth := by
  unfold Scope.isBareSection
  rw [hs.mode]
  by_cases hm : s.mode = .interpolation
  · rw [hd hm]
  · rw [beq_eq_false_iff_ne.mpr hm, Bool.false_and, Bool.false_and]

/-- a decision at a moved place is the moved decision -/
theorem front_embed {depth depth' : Nat} (hd : s.mode = .interpolation → depth' = depth)
    (behind : Behind) (p : Position) (cs : List Char) :
    front s' depth' behind (base.embed p) cs = (front s depth behind p cs).embed base := by
  cases cs with
  | nil => exact atEnd_embed hs p
  | cons c cs =>
    rw [front, front, isBareSection_moved hs hd]
    split
    · exact atNewline_embed hs behind cs
    split
    · exact atBackslash_embed hs p cs
    split
    · rename_i hquote
      have hm : s.mode = .interpolation := by
        have := hquote.2
        simp only [Scope.isBareSection, Bool.and_eq_true, beq_iff_eq] at this
        exact this.1
      rw [Front.fail_embed, hs.start (.inl (by simp [hm]))]
    split
    · rfl
    split
    · exact Lexeme.directive_embed base p hs cs
    · exact lexeme_embed base behind p c cs

end

end ScriptLexer

import ScriptLexer.Proofs.Sections
import ScriptLexer.Proofs.Separators
import ScriptLexer.Proofs.Slices

/-!
# Nothing meaningful is dropped

A scan passes over characters without a token and without an error.  This module says which ones.

* `Droppable lineEnd next c`    the character `c` in front of `next` may be passed over; a line break
                                only if `lineEnd` holds;
* `front_blank_droppable`       a decision passes over nothing else;
* `Fills source region ts`      in a region of the source, whatever no token of `ts` covers may be
                                passed over, and what has a meaning is covered;
* `scan_fills`                  the tokens of a source fill the source, those of a macro body what
                                stands behind the names, those of a section what stands between the
                                braces.
-/

namespace ScriptLexer

open Position (after)

/-! ## what may be dropped -/

/-- a quote or a backquote, a character outside of ASCII, or a control that is neither a blank nor a
line break -/
def isUnrecognised (c : Char) : Bool :=
  c == '\'' || c == '\x60' || 128 ≤ c.toNat ||
    (c.toNat < 32 || c.toNat == 127) && !isBlank c && c != '\n'

/-- the character `c` may be passed over in front of `next`, a line break only if `lineEnd` holds -/
inductive Droppable (lineEnd : Prop) (next : Option Char) : Char → Prop where
  | blank {c : Char} (h : isBlank c = true) : Droppable lineEnd next c
  | lineBreak (h : lineEnd) : Droppable lineEnd next '\n'
  | dollar (h : ∀ d ∈ next, d ≠ '"' ∧ isHexPart d = false) : Droppable lineEnd next '$'
  | atSign (h : ∀ d ∈ next, d ≠ '"' ∧ d ≠ '\'') : Droppable lineEnd next '@'
  | unrecognised {c : Char} (h : isUnrecognised c = true) : Droppable lineEnd next c

theorem Droppable.imp {p q : Prop} {next : Option Char} {c : Char} (h : Droppable p next c)
    (hpq : p → q) : Droppable q next c := by
  cases h with
  | blank h => exact .blank h
  | lineBreak h => exact .lineBreak (hpq h)
  | dollar h => exact .dollar h
  | atSign h => exact .atSign h
  | unrecognised h => exact .unrecognised h

/-- the signs that are a token or begin one -/
def meaningfulSigns : List Char :=
  ['"', '\\', '#', '(', ')', '[', ']', '\x7b', '\x7d', '.', ',', ':', ';', '+', '-', '*', '/', '%',
    '=', '!', '<', '>', '&', '|', '^', '~', '?']

/-- a letter, a digit, an underscore or one of the signs -/
def isMeaningful (c : Char) : Bool := isWordPart c || meaningfulSigns.contains c

theorem isWordPart_ascii {c : Char} (h : isWordPart c = true) : c.toNat < 128 := by
  rcases Bool.or_eq_true_iff.mp h with hword | hscore
  · rcases Bool.or_eq_true_iff.mp hword with hletter | hdigit
    · rcases Bool.or_eq_true_iff.mp hletter with hupper | hlower
      · exact Nat.lt_of_le_of_lt (of_decide_eq_true hupper).2 (by decide)
      · exact Nat.lt_of_le_of_lt (of_decide_eq_true (Bool.and_eq_true_iff.mp hlower).2) (by decide)
    · exact Nat.lt_of_le_of_lt (of_decide_eq_true (Bool.and_eq_true_iff.mp hdigit).2) (by decide)
  · rw [beq_iff_eq.mp hscore]
    decide

theorem isMeaningful_ascii {c : Char} (h : isMeaningful c = true) : c.toNat < 128 := by
  rcases Bool.or_eq_true_iff.mp h with h | h
  · exact isWordPart_ascii h
  · have hsigns : (meaningfulSigns.all fun d => d.toNat < 128) := by decide
    exact of_decide_eq_true (List.all_eq_true.mp hsigns c (List.contains_iff_mem.mp h))

theorem Droppable.not_meaningful {p : Prop} {next : Option Char} {c : Char}
    (h : Droppable p next c) : isMeaningful c = false := by
  have hnone : isBlank c = true ∨ isUnrecognised c = true → isMeaningful c = false := by
    intro hc
    by_contra hm
    rw [Bool.not_eq_false] at hm
    have hall : (List.range 128).all (fun n =>
        !(isBlank (.ofNat n) || isUnrecognised (.ofNat n)) || !isMeaningful (.ofNat n)) = true := by
      decide +kernel
    have hascii := forall_ascii (p := fun c => !(isBlank c || isUnrecognised c) || !isMeaningful c)
      hall (isMeaningful_ascii hm)
    rw [hm, Bool.not_true, Bool.or_false, Bool.not_eq_true', Bool.or_eq_false_iff] at hascii
    rcases hc with hc | hc
    · exact absurd hc (by simp [hascii.1])
    · exact absurd hc (by simp [hascii.2])
  cases h with
  | blank h => exact hnone (.inl h)
  | lineBreak _ => decide
  | dollar _ => decide
  | atSign _ => decide
  | unrecognised h => exact hnone (.inr h)

/-! ## what a decision passes over -/

/-- the decision passes over a character -/
def Front.Skips : Front → Prop
  | .blank _ _ => True
  | _ => False

namespace Lexeme

variable (start : Position)

theorem integer_not_skips (base : Base) (radix : Radix) (lexeme digits rest : List Char) :
    ¬(integer base radix start lexeme digits rest).Skips := by
  unfold integer
  split <;> exact id

theorem inBase_not_skips (base : Base) (radix : Radix) (lead cs : List Char) :
    ¬(inBase base radix start lead cs).Skips := by
  unfold inBase
  simp only
  split
  · exact id
  · exact integer_not_skips start _ _ _ _ _

theorem decimal_not_skips (c : Char) (cs : List Char) : ¬(decimal start c cs).Skips := by
  unfold decimal
  simp only
  split
  · exact id
  · exact integer_not_skips start _ _ _ _ _

theorem numeral_not_skips (c : Char) (cs : List Char) : ¬(numeral start c cs).Skips := by
  unfold numeral
  split
  · exact decimal_not_skips start c []
  split
  · exact inBase_not_skips start _ _ _ _
  split
  · exact inBase_not_skips start _ _ _ _
  · exact decimal_not_skips start c _

theorem quoted_not_skips (cs : List Char) : ¬(quoted start cs).Skips := by
  unfold quoted
  split
  · exact id
  · exact id
  · split <;> exact id

theorem raw_not_skips (quote : Char) (cs : List Char) : ¬(raw start quote cs).Skips := by
  unfold raw
  simp only
  split <;> exact id

/-- a sign with a spelling of its own is never passed over -/
theorem symbol_not_skips {c : Char} (h : [c] ∈ symbolTable.map Prod.fst) (cs : List Char) :
    ¬(symbol c cs).Skips := by
  obtain ⟨e, he, hc⟩ := List.mem_map.mp h
  have hsome : (symbol? (c :: cs)).isSome = true :=
    List.find?_isSome.mpr ⟨e, he, by simp [hc]⟩
  obtain ⟨found, hfound⟩ := Option.isSome_iff_exists.mp hsome
  unfold symbol
  rw [hfound]
  exact id

theorem slash_not_skips (cs : List Char) : ¬(slash start cs).Skips := by
  unfold slash
  split
  · exact symbol_not_skips (by decide) []
  split
  · exact id
  split
  · unfold block
    split <;> exact id
  · exact symbol_not_skips (by decide) _

theorem point_not_skips (behind : Behind) (cs : List Char) : ¬(point behind cs).Skips := by
  unfold point
  split
  · exact symbol_not_skips (by decide) []
  split
  · exact id
  · exact symbol_not_skips (by decide) _

theorem macroHeader_not_skips (lead cs : List Char) : ¬(macroHeader start lead cs).Skips := by
  unfold macroHeader
  simp only
  split
  · exact id
  · split <;> exact id
  · exact id

theorem colour_not_skips (digits rest : List Char) : ¬(colour start digits rest).Skips := by
  unfold colour
  simp only
  split
  · exact id
  split
  · exact id
  split <;> exact id

theorem directive_not_skips (scope : Scope) (cs : List Char) :
    ¬(directive scope start cs).Skips := by
  unfold directive
  simp only
  split
  · exact id
  split
  · exact id
  split
  · split
    · exact id
    · exact macroHeader_not_skips start _ _
  split
  · exact colour_not_skips start _ _
  · exact id

theorem dollar_skips {cs : List Char} (h : (dollar start cs).Skips) :
    ∀ d ∈ cs.head?, d ≠ '"' ∧ isHexPart d = false := by
  intro d hd
  cases cs with
  | nil => cases hd
  | cons c cs =>
    obtain rfl : c = d := Option.some.inj hd
    rw [dollar] at h
    split at h
    · exact h.elim
    rename_i hquote
    split at h
    · exact (inBase_not_skips start _ _ _ _ h).elim
    rename_i hhex
    exact ⟨hquote, Bool.eq_false_iff.mpr hhex⟩

theorem atSign_skips {cs : List Char} (h : (atSign start cs).Skips) :
    ∀ d ∈ cs.head?, d ≠ '"' ∧ d ≠ '\'' := by
  intro d hd
  cases cs with
  | nil => cases hd
  | cons c cs =>
    obtain rfl : c = d := Option.some.inj hd
    rw [atSign] at h
    split at h
    · exact (raw_not_skips start _ _ h).elim
    · rename_i hquote
      exact not_or.mp hquote

end Lexeme

/-- the characters that begin a lexeme of their own, the line break and the directive included -/
def isRecognised (c : Char) : Bool :=
  isBlank c || isWordStart c || c.isDigit || ['\n', '\\', '#', '"', '@', '$'].contains c
    || (symbolTable.map Prod.fst).contains [c]

theorem isUnrecognised_of_not {c : Char} (h : isRecognised c = false) :
    isUnrecognised c = true := by
  by_cases hc : c.toNat < 128
  · have hall : (List.range 128).all (fun n =>
        isRecognised (.ofNat n) || isUnrecognised (.ofNat n)) = true := by
      decide +kernel
    have hascii := forall_ascii (p := fun c => isRecognised c || isUnrecognised c) hall hc
    rwa [h, Bool.false_or] at hascii
  · simp [isUnrecognised, Nat.le_of_not_lt hc]

theorem lexeme_skips {p : Prop} {behind : Behind} {start : Position} {c : Char} {cs : List Char}
    (h : (lexeme behind start c cs).Skips) (hc : c ∉ ['\n', '\\', '#']) :
    Droppable p cs.head? c := by
  unfold lexeme at h
  split at h
  · rename_i hblank
    exact .blank hblank
  rename_i hblank
  split at h
  · exact h.elim
  rename_i hword
  split at h
  · exact (Lexeme.numeral_not_skips start _ _ h).elim
  rename_i hdigit
  split at h
  · exact (Lexeme.point_not_skips behind _ h).elim
  split at h
  · exact (Lexeme.quoted_not_skips start _ h).elim
  rename_i hquote
  split at h
  · rename_i hat
    subst hat
    exact .atSign (Lexeme.atSign_skips start h)
  rename_i hat
  split at h
  · rename_i hdollar
    subst hdollar
    exact .dollar (Lexeme.dollar_skips start h)
  rename_i hdollar
  split at h
  · exact (Lexeme.slash_not_skips start _ h).elim
  refine .unrecognised (isUnrecognised_of_not ?_)
  have hsign : [c] ∉ symbolTable.map Prod.fst := fun hmem => Lexeme.symbol_not_skips hmem cs h
  simp only [List.mem_cons, List.not_mem_nil, or_false, not_or] at hc
  rw [← List.contains_iff_mem, Bool.not_eq_true] at hsign
  rw [isRecognised, hsign]
  simp [hblank, hword, hdigit, hc, hquote, hat, hdollar]

/-- a decision passes over nothing but what may be dropped -/
theorem front_blank_droppable {scope : Scope} {depth : Nat} {behind : Behind} {start : Position}
    {c : Char} {rest : List Char}
    (h : front scope depth behind start (c :: rest) = .blank c rest) :
    Droppable (behind = .lineEnd) rest.head? c := by
  have hskips : (front scope depth behind start (c :: rest)).Skips := by
    rw [h]
    trivial
  rw [front] at hskips
  split at hskips
  · rename_i hc
    subst hc
    unfold atNewline at hskips
    split at hskips
    · exact hskips.elim
    split at hskips
    · rename_i hline
      exact .lineBreak hline
    · exact hskips.elim
  rename_i hnewline
  split at hskips
  · unfold atBackslash at hskips
    split at hskips
    · exact hskips.elim
    split at hskips <;> exact hskips.elim
  rename_i hbackslash
  split at hskips
  · exact hskips.elim
  split at hskips
  · exact hskips.elim
  split at hskips
  · exact (Lexeme.directive_not_skips start scope _ hskips).elim
  rename_i hhash
  exact lexeme_skips hskips (by simp [hnewline, hbackslash, hhash])

/-! ## what a list covers -/

/-- a token of the list covers the offset -/
def Covered (ts : List Token) (offset : Nat) : Prop := ∃ t ∈ ts, t.span.contains offset = true

/-- a token of the list takes the rest of its line, up to the offset -/
def EndsLine (ts : List Token) (offset : Nat) : Prop :=
  ∃ t ∈ ts, t.kind.TakesLine ∧ t.stop.offset = offset

/-- each character between two offsets is covered or may be passed over -/
def Accounts (source : List Char) (lo hi : Nat) (ts : List Token) : Prop :=
  ∀ u c v, source = u ++ c :: v → lo ≤ byteLength u → byteLength u < hi →
    Covered ts (byteLength u) ∨ Droppable (EndsLine ts (byteLength u)) v.head? c

theorem Covered.mono {a b : List Token} {n : Nat} (h : Covered a n) (hab : ∀ t ∈ a, t ∈ b) :
    Covered b n := by
  obtain ⟨t, ht, hn⟩ := h
  exact ⟨t, hab t ht, hn⟩

theorem EndsLine.mono {a b : List Token} {n : Nat} (h : EndsLine a n) (hab : ∀ t ∈ a, t ∈ b) :
    EndsLine b n := by
  obtain ⟨t, ht, hn⟩ := h
  exact ⟨t, hab t ht, hn⟩

namespace Accounts

variable {source : List Char} {lo mid hi : Nat} {ts : List Token}

theorem nil (source : List Char) (n : Nat) (ts : List Token) : Accounts source n n ts := by
  intro u c v _ hlo hhi
  omega

theorem append (ha : Accounts source lo mid ts) (hb : Accounts source mid hi ts) :
    Accounts source lo hi ts := by
  intro u c v hsource hlo hhi
  by_cases hmid : byteLength u < mid
  · exact ha u c v hsource hlo hmid
  · exact hb u c v hsource (Nat.le_of_not_lt hmid) hhi

/-- a token accounts for what it covers -/
theorem of_mem {t : Token} (ht : t ∈ ts) : Accounts source t.start.offset t.stop.offset ts := by
  intro u c v _ hlo hhi
  refine .inl ⟨t, ht, ?_⟩
  simp [Located.span, Span.contains, hlo, hhi]

/-- one character that may be passed over -/
theorem of_droppable {pre rest : List Char} {c : Char} (hsource : source = pre ++ c :: rest)
    (h : Droppable (EndsLine ts (byteLength pre)) rest.head? c) :
    Accounts source (byteLength pre) (byteLength pre + c.utf8Size) ts := by
  intro u d v hsplit hlo hhi
  -- no other character begins within this one
  obtain ⟨w, rfl, hw⟩ := exists_middle (hsource.symm.trans hsplit) hlo
  rw [byteLength_append] at hhi
  cases w with
  | nil =>
    obtain ⟨rfl, rfl⟩ := List.cons.inj hw
    rw [List.append_nil]
    exact .inr h
  | cons b w =>
    obtain ⟨rfl, _⟩ := List.cons.inj hw
    rw [byteLength_cons] at hhi
    omega

end Accounts

/-- a run accounts for the text that it takes -/
def Job.Accounts (source : List Char) : Job → Job → Prop
  | .tokens _ st, .tokens _ st' => (∀ t ∈ st.tokens, t ∈ st'.tokens) ∧
    ScriptLexer.Accounts source st.position.offset st'.position.offset st'.tokens
  | _, _ => True

/-- one more token, and then a run -/
theorem Job.Accounts.push {source text : List Char} {scope : Scope} {st : State} {k : Kind} {j : Job}
    (h : (Job.tokens scope (st.push k text)).Accounts source j) :
    (Job.tokens scope st).Accounts source j := by
  cases j with
  | template scope' start d => trivial
  | tokens scope' st' =>
    obtain ⟨hmem, hrest⟩ := h
    have hnew : (⟨k, st.position, stopOf k st.position text⟩ : Token) ∈ st'.tokens :=
      hmem _ List.mem_cons_self
    have hstop : (stopOf k st.position text).offset = (st.push k text).position.offset := by
      rw [offset_stopOf, State.push, Position.offset_advance]
    refine ⟨fun t ht => hmem t (List.mem_cons_of_mem _ ht), ?_⟩
    have hcovered : ScriptLexer.Accounts source _ _ st'.tokens := ScriptLexer.Accounts.of_mem hnew
    rw [show (Located.stop _).offset = _ from hstop] at hcovered
    exact hcovered.append hrest

theorem Reads.accounts {j j' : Job} {x y : List Char} (h : Reads j x y j') {source : List Char} :
    ∀ pre, source = pre ++ x ++ y → j.position = after pre → j.Remembers →
      j.Accounts source j' := by
  induction h with
  | @done j y =>
    intro pre _ _ _
    cases j with
    | template scope start d => trivial
    | tokens scope st => exact ⟨fun t ht => ht, .nil _ _ _⟩
  | @blank scope st c x y j hfront _ ih =>
    intro pre hsource hpos hj
    have hrest := ih (pre ++ [c]) (by simp [hsource])
      (by rw [Position.after_append_singleton, ← hpos]; rfl) (State.Recalls.skip (by decide) hj c)
    cases j with
    | template scope' start d => trivial
    | tokens scope' st' =>
      obtain ⟨hmem, hrest⟩ := hrest
      replace hpos : st.position = after pre := hpos
      have hline : st.behind = .lineEnd → EndsLine st'.tokens (byteLength pre) := by
        intro hb
        obtain ⟨t, ht, htakes, hstop⟩ := hj.behind.mp hb
        rw [hpos] at hstop
        exact ⟨t, hmem t (List.mem_of_mem_head? ht), t.kind.takesLine_iff.mpr htakes, hstop⟩
      have hchar : ScriptLexer.Accounts source (byteLength pre) (byteLength pre + c.utf8Size)
          st'.tokens :=
        ScriptLexer.Accounts.of_droppable (show source = pre ++ c :: (x ++ y) by simp [hsource])
          ((front_blank_droppable hfront).imp hline)
      refine ⟨hmem, ?_⟩
      have hskip : (st.skip c).position.offset = byteLength pre + c.utf8Size := by
        rw [State.skip, Position.offset_next, hpos]
        rfl
      rw [hskip] at hrest
      rw [hpos]
      exact hchar.append hrest
  | @atom scope st a text x y j hfront _ ih =>
    intro pre hsource hpos hj
    refine Job.Accounts.push (ih (pre ++ text) (by simp [hsource]) ?_ (State.recalls_push _ _ _ _))
    rw [← Position.advance_after, ← hpos]
    rfl
  | @template scope st body x y d t j hfront hbody hfinish _ _ ih =>
    intro pre hsource hpos hj
    obtain rfl : t.body = body := hbody.body_eq hfinish
    refine Job.Accounts.push (ih (pre ++ (Front.templateOpening ++ t.body ++ ['"']))
      (by simp [hsource]) ?_ (State.recalls_push _ _ _ _))
    rw [← Position.advance_after, ← hpos]
    rfl
  | @macroDef scope st st' header body x y e j hfront hbody hexit _ _ ih =>
    intro pre hsource hpos hj
    refine Job.Accounts.push (ih (pre ++ (header.lead ++ (header.names ++ body)))
      (by simp [hsource]) ?_ (State.recalls_push _ _ _ _))
    rw [← Position.advance_after, ← hpos]
    rfl
  | text _ _ _ =>
    intro _ _ _ _
    cases ‹Job› <;> trivial
  | braces _ _ _ _ _ =>
    intro _ _ _ _
    cases ‹Job› <;> trivial

/-! ## whole trees -/

/-- in a region of the source, what no token of the list covers may be passed over, and what has a
meaning is covered -/
structure Fills (source : List Char) (region : Span) (ts : List Token) : Prop where
  gaps : ∀ u c v, source = u ++ c :: v → region.contains (byteLength u) = true →
    ¬Covered ts (byteLength u) → Droppable (EndsLine ts (byteLength u)) v.head? c
  kept : ∀ u c v, source = u ++ c :: v → region.contains (byteLength u) = true →
    isMeaningful c = true → Covered ts (byteLength u)

theorem Accounts.fills {source : List Char} {lo hi : Nat} {ts : List Token}
    (h : Accounts source lo hi ts) : Fills source ⟨lo, hi⟩ ts := by
  have hin : ∀ u : List Char, (Span.mk lo hi).contains (byteLength u) = true →
      lo ≤ byteLength u ∧ byteLength u < hi := by
    intro u hu
    simpa [Span.contains] using hu
  constructor
  · intro u c v hsource hu hcovered
    exact (h u c v hsource (hin u hu).1 (hin u hu).2).resolve_left hcovered
  · intro u c v hsource hu hc
    refine (h u c v hsource (hin u hu).1 (hin u hu).2).resolve_right fun hdrop => ?_
    exact absurd hc (by simp [hdrop.not_meaningful])

/-- a list that was read over the text `x` fills it -/
theorem Reads.fills {source pre x y : List Char} {scope scope' : Scope} {st : State}
    (h : Reads (.begin scope (after pre)) x y (.tokens scope' st))
    (hsource : source = pre ++ x ++ y) :
    Fills source ⟨byteLength pre, byteLength pre + byteLength x⟩ st.tokens.reverse := by
  obtain ⟨_, hall⟩ := h.accounts pre hsource rfl (State.recalls_start (by decide) _)
  have hstop : st.position.offset = byteLength pre + byteLength x := by
    rw [show st.position = _ from h.position_eq, Position.offset_advance]
    rfl
  rw [hstop] at hall
  refine Accounts.fills fun u c v hsource hlo hhi => ?_
  have hmem : ∀ t ∈ st.tokens, t ∈ st.tokens.reverse := fun t ht => List.mem_reverse.mpr ht
  rcases hall u c v hsource hlo hhi with hcovered | hdrop
  · exact .inl (hcovered.mono hmem)
  · exact .inr (hdrop.imp fun hline => hline.mono hmem)

/-- the lists of the tree over `ts` fill their regions: the source, what stands behind the names of a
macro definition, and what stands between the braces of a section -/
structure FillsAll (source : List Char) (ts : List Token) : Prop where
  top : Fills source ⟨0, byteLength source⟩ ts
  macroDef : ∀ t, Occurs t ts → ∀ m, t.kind = .macroDef m →
    Fills source ⟨m.nameStop.offset, t.stop.offset⟩ m.body
  template : ∀ t, Occurs t ts → ∀ p, t.kind = .template p → ∀ s ∈ p.sections,
    ∃ e, s.expression? = some e ∧ Fills source e s.tokens

theorem Arises.fills_macroDef {source : List Char} {t : Token} (h : Arises source t)
    {m : MacroDef Token} (hk : t.kind = .macroDef m) :
    Fills source ⟨m.nameStop.offset, t.stop.offset⟩ m.body := by
  cases h with
  | atom _ _ => cases hk
  | template _ _ _ => cases hk
  | @macroDef scope depth behind pre body rest header st e hsource hfront hbody hexit =>
    cases hk
    have hplaced := front_header hfront
    have hnameStop : header.nameStop = after (pre ++ header.lead ++ header.names) := by
      rw [hplaced.nameStop, hplaced.nameStart, Position.advance_after, Position.advance_after]
    rw [hnameStop] at hbody
    have hsplit : source = pre ++ header.lead ++ header.names ++ body ++ rest := by simp [hsource]
    have hfills := hbody.fills hsplit
    have hstop : byteLength (pre ++ header.lead ++ header.names) + byteLength body
        = (stopOf (.macroDef (header.define body st.tokens.reverse)) (after pre)
            (header.lead ++ (header.names ++ body))).offset := by
      rw [offset_stopOf]
      simp only [byteLength_append]
      show _ = byteLength pre + _
      omega
    rw [hstop] at hfills
    show Fills source ⟨header.nameStop.offset, _⟩ _
    rw [hnameStop]
    exact hfills

theorem Arises.fills_section {source : List Char} {t : Token} (h : Arises source t)
    (hsize : byteLength source ≤ countLimit) {p : Template Token} (hk : t.kind = .template p)
    {s : Section Token} (hs : s ∈ p.sections) :
    ∃ e, s.expression? = some e ∧ Fills source e s.tokens := by
  obtain ⟨scope, pre, inner, rest, st, hsource, habsolute, htokens, hrun, _⟩ := h.section hk hs
  have hsplit : source = pre ++ ['{'] ++ inner ++ ('}' :: rest) := by
    rw [hsource]
    simp
  have hwhole : byteLength (pre ++ ['{'] ++ (inner ++ '}' :: rest)) ≤ countLimit := by
    rw [← List.append_assoc, ← hsplit]
    exact hsize
  refine ⟨_, Section.expression?_eq habsolute hwhole, ?_⟩
  rw [htokens]
  exact hrun.fills hsplit

/-- nothing with a meaning is dropped from a source, at any depth -/
theorem scan_fills {source : String} {ts : List Token} (h : scan source = .ok ts) :
    FillsAll source.toList ts := by
  obtain ⟨hsize, _⟩ := scan_reads h
  obtain ⟨st, hx, hts⟩ := scan_plain_reads h
  refine ⟨?_, fun t ht m hk => (scan_arises h ht).fills_macroDef hk,
    fun t ht p hk s hs => (scan_arises h ht).fills_section hsize hk hs⟩
  have hsource : source.toList = [] ++ source.toList ++ [] := by simp
  have hfills := Reads.fills hx hsource
  rw [byteLength_nil, Nat.zero_add, ← hts] at hfills
  exact hfills

/-- a line break behind a comment, signs that begin nothing, and a character that has no meaning -/
theorem scan_fills_comment :
    ∃ ts, scan "a $ @ é // b
c" = .ok ts ∧ ts.length = 3 ∧ FillsAll "a $ @ é // b
c".toList ts := by
  refine ⟨[⟨.atom (.identifier "a"), ⟨0, 0, 0⟩, ⟨1, 0, 0⟩⟩,
    ⟨.atom (.comment .line " b"), ⟨9, 0, 0⟩, ⟨13, 0, 0⟩⟩,
    ⟨.atom (.identifier "c"), ⟨14, 1, 14⟩, ⟨15, 1, 14⟩⟩], ?h, rfl, scan_fills ?h⟩
  exact scan_of_toOption (by decide +kernel)

end ScriptLexer

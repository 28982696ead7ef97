import Mathlib.Data.List.Nodup
import ScriptLexer.Proofs.Origin
import ScriptLexer.Proofs.Relocate
import ScriptLexer.Proofs.Slices

/-!
# Payloads are faithful to their lexemes

What a token says about its text is true of the text.  `SpelledBy x rest` says so of a number, an
atom, a macro header and a kind, whose text is `x` and in front of `rest`:

* a word is all the word characters there are, and either reserved for its atom or no reserved word;
* a comment to the end of the line, a region marker and a macro definition take the rest of it;
* a string is what its body stands for, or what stands between two quotes as it is;
* an integer has the value of its digits in the base of its notation;
* a float is the double next to its digits over the power of ten that the places behind its point call
  for.

`front_spells` says it of one decision, `scan_faithful` of every token of a tree.
-/

namespace ScriptLexer

open Position (after)

/-! ## words -/

/-- a character that may begin a word, and then characters that may continue it -/
def IsWord (x : List Char) : Prop :=
  ∃ c cs, x = c :: cs ∧ isWordStart c = true ∧ ∀ d ∈ cs, isWordPart d = true

/-- no word goes on in the text -/
def WordEnd (rest : List Char) : Prop := ∀ c ∈ rest.head?, isWordPart c = false

/-- `x` is reserved for the atom, and no other word is -/
structure IsWordFor (a : Atom) (x : List Char) : Prop where
  listed : (String.ofList x, a) ∈ reserved
  unique : ∀ w, (w, a) ∈ reserved → w.toList = x

/-- no two words are reserved for one atom -/
theorem reserved_atoms_nodup : (reserved.map Prod.snd).Nodup := by decide

theorem isWordFor_of_mem {w : String} {a : Atom} (h : (w, a) ∈ reserved) :
    IsWordFor a w.toList where
  listed := by rwa [String.ofList_toList]
  unique v hv := by
    have heq := List.inj_on_of_nodup_map reserved_atoms_nodup hv h rfl
    rw [(Prod.mk.inj heq).1]

theorem wordEnd_dropWhile (cs : List Char) : WordEnd (cs.dropWhile isWordPart) :=
  dropWhile_stops isWordPart cs

theorem isWord_takeWhile {c : Char} (hc : isWordStart c = true) (cs : List Char) :
    IsWord (c :: cs.takeWhile isWordPart) :=
  ⟨c, _, rfl, hc, fun _ hd => List.mem_takeWhile_imp hd⟩

/-! ## numbers -/

/-- the notations of integers: base, name and what stands in front of the digits -/
def notations : List (Base × Radix × List Char) :=
  [(.decimal, .int, []), (.hexadecimal, .hex, ['$']), (.hexadecimal, .hex, ['0', 'x']),
    (.hexadecimal, .hex, ['0', 'X']), (.binary, .binary, ['0', 'b']), (.binary, .binary, ['0', 'B'])]

/-- the number is what its text says -/
inductive Number.SpelledBy : List Char → Number → Prop where
  | integer {base : Base} {radix : Radix} {lead digits : List Char}
      (hform : (base, radix, lead) ∈ notations)
      (hparts : ∀ c ∈ digits, base.isPart c = true) (hcount : 0 < digitCount digits)
      (hvalue : digitsValue base.value digits < integerBound) :
      SpelledBy (lead ++ digits) (.integer (.ofNat (digitsValue base.value digits)) radix)
  | float {whole part : List Char} (hparts : ∀ c ∈ whole ++ part, isDecimalPart c = true)
      (hcount : 0 < digitCount (whole ++ part)) :
      SpelledBy (whole ++ '.' :: part)
        (.real (.ofDecimal (digitsValue 10 (whole ++ part)) (digitCount part)))
  | colour {digits : List Char} (hparts : ∀ c ∈ digits, isHexPart c = true)
      (hcount : digitCount digits = 6) :
      SpelledBy ('#' :: digits) (.integer (.ofNat (swapColour (digitsValue 16 digits))) .colour)

/-! ## atoms -/

/-- the word operators among the signs -/
def Sign.isWord (s : Sign) : Bool := s = .wholeDivide || s = .wholeRemainder

/-- a mark, blanks and a text that takes the rest of the line -/
def IsMarked (mark : List Char) (text : String) (x : List Char) : Prop :=
  ∃ blanks, x = mark ++ blanks ++ text.toList ∧ (∀ c ∈ blanks, isBlank c = true) ∧
    '\n' ∉ text.toList ∧ ∀ c ∈ text.toList.head?, isBlank c = false

/-- the payload of an atom is what its text `x` in front of `rest` says -/
def Atom.SpelledBy (x rest : List Char) : Atom → Prop
  | .identifier name =>
    x = name.toList ∧ IsWord x ∧ (∀ a, (name, a) ∉ reserved) ∧ WordEnd rest
  | .keyword k => IsWordFor (.keyword k) x ∧ WordEnd rest
  | .constant c => IsWordFor (.constant c) x ∧ WordEnd rest
  | .dual d .word => IsWordFor (.dual d .word) x ∧ WordEnd rest
  | .dual d .symbol => (x, .dual d .symbol) ∈ symbolTable
  | .sign s =>
    if s.isWord then IsWordFor (.sign s) x ∧ WordEnd rest else (x, .sign s) ∈ symbolTable
  | .inPlace op => (x, .inPlace op) ∈ symbolTable
  | .accessor a => (x, .accessor a) ∈ symbolTable
  | .number n => n.SpelledBy x
  | .string text =>
    (∃ body, x = '"' :: body ++ ['"'] ∧ '\n' ∉ body ∧ decodeEscapes body = .ok text.toList) ∨
    ∃ quote, (quote = '"' ∨ quote = '\'') ∧ quote ∉ text.toList ∧
      x = '@' :: quote :: text.toList ++ [quote]
  | .comment .line text => x = '/' :: '/' :: text.toList ∧ '\n' ∉ text.toList ∧ LineEnd rest
  | .comment .block text => x = '/' :: '*' :: text.toList ++ ['*', '/']
  | .region text => IsMarked ('#' :: "region".toList) text x ∧ LineEnd rest
  | .endRegion text => IsMarked ('#' :: "endregion".toList) text x ∧ LineEnd rest
  | .newline => x = ['\n'] ∨ x = ['\\', '\n']
  | .endOfInput => False

/-- the names of a macro header as they are written -/
def headerNames (configuration : Option String) (name : String) : List Char :=
  match configuration with
  | none => name.toList
  | some c => c.toList ++ ':' :: name.toList

/-- a macro header holds the names that it is written with -/
structure MacroHeader.SpelledBy (rest : List Char) (header : MacroHeader) : Prop where
  lead : ∃ blanks, header.lead = '#' :: "macro".toList ++ blanks ∧ ∀ c ∈ blanks, isBlank c = true
  names : header.names = headerNames header.configuration header.name
  words : IsWord header.name.toList ∧ ∀ c ∈ header.configuration, IsWord c.toList
  wordEnd : WordEnd rest

/-- the decision gives its text a payload that is true of it -/
def Front.Spells : Front → Prop
  | .atom a text rest => a.SpelledBy text rest
  | .macroDef header rest => header.SpelledBy rest
  | _ => True

/-! ### tables -/

theorem Atom.spelledBy_of_reserved {w : String} {a : Atom} (h : (w, a) ∈ reserved)
    {rest : List Char} (hrest : WordEnd rest) : a.SpelledBy w.toList rest := by
  have hfor := isWordFor_of_mem h
  have hsigns : ∀ s ∈ [Sign.wholeDivide, Sign.wholeRemainder], s.isWord = true := by decide
  simp only [reserved, List.mem_append, List.mem_map] at h
  rcases h with ((⟨d, _, he⟩ | ⟨s, hs, he⟩) | ⟨c, _, he⟩) | ⟨k, _, he⟩
  · cases he
    exact ⟨hfor, hrest⟩
  · cases he
    rw [Atom.SpelledBy, if_pos (hsigns s hs)]
    exact ⟨hfor, hrest⟩
  · cases he
    exact ⟨hfor, hrest⟩
  · cases he
    exact ⟨hfor, hrest⟩

/-- an atom that is made of signs -/
def Atom.isSymbol : Atom → Bool
  | .sign s => !s.isWord
  | .dual _ .symbol => true
  | .inPlace _ => true
  | .accessor _ => true
  | _ => false

theorem symbolTable_isSymbol : ∀ e ∈ symbolTable, e.2.isSymbol = true := by decide

theorem Atom.spelledBy_of_symbol {x : List Char} {a : Atom} (h : (x, a) ∈ symbolTable)
    (rest : List Char) : a.SpelledBy x rest := by
  have hsymbol : a.isSymbol = true := symbolTable_isSymbol _ h
  cases a with
  | sign s =>
    have hword : ¬s.isWord = true := by simpa [Atom.isSymbol] using hsymbol
    rw [Atom.SpelledBy, if_neg hword]
    exact h
  | dual d spelling =>
    cases spelling with
    | symbol => exact h
    | word => cases hsymbol
  | inPlace op => exact h
  | accessor a => exact h
  | _ => cases hsymbol

/-! ## one lexeme -/

namespace Lexeme

variable (start : Position)

theorem word_spells {c : Char} (hc : isWordStart c = true) (cs : List Char) :
    (word c cs).Spells := by
  have hend := wordEnd_dropWhile cs
  have hword := isWord_takeWhile hc cs
  unfold word
  simp only
  generalize c :: cs.takeWhile isWordPart = w at hword ⊢
  have htext : (String.ofList w).toList = w := String.toList_ofList
  show (Atom.ofWord (String.ofList w)).SpelledBy w _
  unfold Atom.ofWord reserved?
  cases hlookup : reserved.lookup (String.ofList w) with
  | none =>
    refine ⟨htext.symm, hword, fun a ha => ?_, hend⟩
    have hne := List.lookup_eq_none_iff.mp hlookup _ ha
    simp at hne
  | some a =>
    obtain ⟨l₁, l₂, heq, _⟩ := List.lookup_eq_some_iff.mp hlookup
    have hmem : (String.ofList w, a) ∈ reserved := by
      rw [heq]
      simp
    have hspelled := Atom.spelledBy_of_reserved hmem hend
    rwa [htext] at hspelled

theorem symbol_spells (c : Char) (cs : List Char) : (symbol c cs).Spells := by
  unfold symbol
  split
  · rename_i spelling a h
    exact Atom.spelledBy_of_symbol (symbol?_mem h) _
  · trivial

/-! ### numerals -/

theorem integer_spells {base : Base} {radix : Radix} {lead digits : List Char}
    (hform : (base, radix, lead) ∈ notations) (hparts : ∀ c ∈ digits, base.isPart c = true)
    (hcount : 0 < digitCount digits) (rest : List Char) :
    (integer base radix start (lead ++ digits) digits rest).Spells := by
  unfold integer
  rw [readDigits?_eq base.value base.value_pos digits
    fun c hc => isDigitOf_of_isPart base (hparts c hc)]
  by_cases hvalue : digitsValue base.value digits < integerBound
  · rw [if_pos hvalue]
    exact .integer hform hparts hcount hvalue
  · rw [if_neg hvalue]
    trivial

theorem inBase_spells {base : Base} {radix : Radix} {lead : List Char}
    (hform : (base, radix, lead) ∈ notations) (cs : List Char) :
    (inBase base radix start lead cs).Spells := by
  unfold inBase
  simp only
  split
  · trivial
  · rename_i hcount
    exact integer_spells start hform (fun c hc => List.mem_takeWhile_imp hc)
      (Nat.pos_of_ne_zero hcount) _

theorem float_spells {whole rest : List Char} (hwhole : ∀ c ∈ whole, isDecimalPart c = true)
    (hcount : 0 < digitCount (whole ++ rest.takeWhile isDecimalPart)) :
    (float whole rest).Spells := by
  refine .float (fun c hc => ?_) hcount
  rcases List.mem_append.mp hc with hc | hc
  · exact hwhole c hc
  · exact List.mem_takeWhile_imp hc

theorem isDecimalPart_of_isDigit {c : Char} (h : c.isDigit = true) : isDecimalPart c = true := by
  rw [isDecimalPart, h, Bool.true_or]

theorem digitCount_pos {c : Char} (h : c.isDigit = true) (cs : List Char) :
    0 < digitCount (c :: cs) := by
  have hne : c ≠ '_' := by
    rintro rfl
    exact absurd h (by decide)
  rw [digitCount_cons hne]
  exact Nat.succ_pos _

theorem decimal_spells {c : Char} (hc : c.isDigit = true) (cs : List Char) :
    (decimal start c cs).Spells := by
  have hparts : ∀ d ∈ c :: cs.takeWhile isDecimalPart, isDecimalPart d = true := by
    intro d hd
    rcases List.mem_cons.mp hd with rfl | hd
    · exact isDecimalPart_of_isDigit hc
    · exact List.mem_takeWhile_imp hd
  unfold decimal
  simp only
  split
  · exact float_spells hparts (digitCount_pos hc _)
  · have hform : (Base.decimal, Radix.int, []) ∈ notations := by decide
    exact integer_spells start hform hparts (digitCount_pos hc _) _

theorem numeral_spells {c : Char} (hc : c.isDigit = true) (cs : List Char) :
    (numeral start c cs).Spells := by
  unfold numeral
  split
  · exact decimal_spells start hc []
  · split
    · rename_i h
      obtain ⟨rfl, rfl | rfl⟩ := h
      · exact inBase_spells start (by decide) _
      · exact inBase_spells start (by decide) _
    · split
      · rename_i h
        obtain ⟨rfl, rfl | rfl⟩ := h
        · exact inBase_spells start (by decide) _
        · exact inBase_spells start (by decide) _
      · exact decimal_spells start hc _

theorem dollar_spells (cs : List Char) : (dollar start cs).Spells := by
  unfold dollar
  split
  · trivial
  · split
    · trivial
    · split
      · exact inBase_spells start (by decide) _
      · trivial

theorem point_spells (behind : Behind) (cs : List Char) : (point behind cs).Spells := by
  unfold point
  split
  · exact symbol_spells '.' []
  · rename_i c cs
    split
    · rename_i h
      refine float_spells (fun d hd => absurd hd List.not_mem_nil) ?_
      rw [List.takeWhile_cons, if_pos (isDecimalPart_of_isDigit h.1)]
      exact digitCount_pos h.1 _
    · exact symbol_spells '.' _

/-! ### strings and comments -/

theorem quoted_spells (cs : List Char) : (quoted start cs).Spells := by
  unfold quoted
  split
  · trivial
  · trivial
  · rename_i body rest h
    split
    · rename_i text hdecode
      refine .inl ⟨body, rfl, newline_notMem_quotedBody h List.not_mem_nil, ?_⟩
      rw [hdecode, String.toList_ofList]
    · trivial

theorem raw_spells {quote : Char} (hquote : quote = '"' ∨ quote = '\'') (cs : List Char) :
    (raw start quote cs).Spells := by
  unfold raw
  simp only
  split
  · refine .inr ⟨quote, hquote, fun hmem => ?_, by rw [String.toList_ofList]⟩
    rw [String.toList_ofList] at hmem
    have hne := List.mem_takeWhile_imp hmem
    simp at hne
  · trivial

theorem atSign_spells (cs : List Char) : (atSign start cs).Spells := by
  unfold atSign
  split
  · trivial
  · split
    · rename_i hquote
      exact raw_spells start hquote _
    · trivial

theorem newline_notMem_takeWhile (cs : List Char) : '\n' ∉ cs.takeWhile (· != '\n') := by
  intro hmem
  have hne := List.mem_takeWhile_imp hmem
  simp at hne

theorem line_spells (cs : List Char) : (line cs).Spells := by
  show Atom.SpelledBy _ _ (.comment .line _)
  rw [Atom.SpelledBy, String.toList_ofList]
  exact ⟨rfl, newline_notMem_takeWhile cs, lineEnd_of_dropWhile rfl⟩

theorem slash_spells (cs : List Char) : (slash start cs).Spells := by
  unfold slash
  split
  · exact symbol_spells '/' []
  · rename_i c cs
    split
    · exact line_spells cs
    · split
      · unfold block
        split
        · rename_i text rest _
          show Atom.SpelledBy _ rest (.comment .block _)
          rw [Atom.SpelledBy, String.toList_ofList]
        · trivial
      · exact symbol_spells '/' _

/-! ### directives -/

theorem isMarked_region (mark cs : List Char) :
    IsMarked mark (String.ofList ((cs.dropWhile isBlank).takeWhile (· != '\n')))
      (mark ++ cs.takeWhile isBlank ++ (cs.dropWhile isBlank).takeWhile (· != '\n')) := by
  refine ⟨cs.takeWhile isBlank, by rw [String.toList_ofList],
    fun c hc => List.mem_takeWhile_imp hc, ?_⟩
  rw [String.toList_ofList]
  refine ⟨newline_notMem_takeWhile _, fun c hc => dropWhile_stops isBlank cs c ?_⟩
  rw [List.head?_takeWhile] at hc
  exact (Option.filter_eq_some_iff.mp hc).1

theorem colour_spells {digits : List Char} (hdigits : digits.all isHexPart = true)
    (rest : List Char) : (colour start digits rest).Spells := by
  unfold colour
  simp only
  split
  · trivial
  split
  · trivial
  · rename_i hfew hmany
    have hcount : digitCount digits = colourDigits :=
      Nat.le_antisymm (Nat.le_of_not_lt hmany) (Nat.le_of_not_lt hfew)
    rw [readDigits?_colour hdigits hcount]
    exact .colour (List.all_eq_true.mp hdigits) hcount

theorem macroName_spells {p : Position} {cs name rest : List Char}
    (h : macroName p cs = .ok (name, rest)) : IsWord name ∧ WordEnd rest := by
  cases cs with
  | nil => cases h
  | cons c cs =>
    rw [macroName] at h
    split at h
    · cases h
    split at h
    · rename_i hc
      cases h
      exact ⟨isWord_takeWhile hc cs, wordEnd_dropWhile cs⟩
    · cases h

theorem macroHeader_spells (cs : List Char) :
    (macroHeader start ('#' :: "macro".toList) cs).Spells := by
  have hlead : ∃ blanks, '#' :: "macro".toList ++ cs.takeWhile isBlank
      = '#' :: "macro".toList ++ blanks ∧ ∀ c ∈ blanks, isBlank c = true :=
    ⟨_, rfl, fun c hc => List.mem_takeWhile_imp hc⟩
  unfold macroHeader
  simp only
  split
  · trivial
  · rename_i first after hfirst
    split
    · trivial
    · rename_i name after' hname
      obtain ⟨hword, _⟩ := macroName_spells hfirst
      obtain ⟨hword', hend⟩ := macroName_spells hname
      refine ⟨hlead, ?_, ⟨?_, fun c hc => ?_⟩, hend⟩
      · simp only [headerNames, String.toList_ofList]
      · rwa [String.toList_ofList]
      · cases hc
        rwa [String.toList_ofList]
  · rename_i name after _ hname
    obtain ⟨hword, hend⟩ := macroName_spells hname
    refine ⟨hlead, ?_, ⟨?_, fun c hc => nomatch hc⟩, hend⟩
    · simp only [headerNames, String.toList_ofList]
    · rwa [String.toList_ofList]

theorem directive_spells (scope : Scope) (cs : List Char) : (directive scope start cs).Spells := by
  rw [directive_eq]
  unfold directiveAfter
  split
  · rename_i hword
    rw [hword]
    exact ⟨isMarked_region _ _, lineEnd_of_dropWhile rfl⟩
  split
  · rename_i hword
    rw [hword]
    exact ⟨isMarked_region _ _, lineEnd_of_dropWhile rfl⟩
  split
  · rename_i hword
    split
    · trivial
    · rw [hword]
      exact macroHeader_spells start _
  split
  · rename_i hdigits
    exact colour_spells start hdigits _
  · trivial

end Lexeme

/-! ## the choice between them -/

theorem lexeme_spells (behind : Behind) (start : Position) (c : Char) (cs : List Char) :
    (lexeme behind start c cs).Spells := by
  unfold lexeme
  split
  · trivial
  split
  · rename_i hc
    exact Lexeme.word_spells hc cs
  split
  · rename_i hc
    exact Lexeme.numeral_spells start hc cs
  split
  · exact Lexeme.point_spells behind cs
  split
  · exact Lexeme.quoted_spells start cs
  split
  · exact Lexeme.atSign_spells start cs
  split
  · exact Lexeme.dollar_spells start cs
  split
  · exact Lexeme.slash_spells start cs
  · exact Lexeme.symbol_spells c cs

/-- every decision gives its text a payload that is true of it -/
theorem front_spells (scope : Scope) (depth : Nat) (behind : Behind) (start : Position)
    (cs : List Char) : (front scope depth behind start cs).Spells := by
  cases cs with
  | nil =>
    rw [front, atEnd]
    split <;> trivial
  | cons c cs =>
    rw [front]
    split
    · unfold atNewline
      split
      · trivial
      · split
        · trivial
        · exact .inl rfl
    split
    · unfold atBackslash
      split
      · trivial
      · split
        · exact .inr rfl
        · trivial
    split
    · trivial
    split
    · trivial
    split
    · exact Lexeme.directive_spells start scope cs
    · exact lexeme_spells behind start c cs

/-! ## the tokens of a tree -/

/-- the payload of a kind is what its text `x` in front of `rest` says -/
def Kind.SpelledBy (x rest : List Char) : Kind → Prop
  | .atom a => a.SpelledBy x rest
  | .template t => x = Front.templateOpening ++ t.lexeme.toList ++ ['"']
  | .macroDef m =>
    (∃ blanks, x = '#' :: "macro".toList ++ blanks ++ m.lexeme.toList ∧
      ∀ c ∈ blanks, isBlank c = true) ∧
    (∃ body, m.lexeme.toList = headerNames m.configuration m.name ++ body ∧
      WordEnd (body ++ rest)) ∧
    IsWord m.name.toList ∧ (∀ c ∈ m.configuration, IsWord c.toList) ∧ LineEnd rest

/-- the payload of a token is true of the text that stands where the token does -/
structure Faithful (source : List Char) (t : Token) : Prop where
  spelled : ∃ pre x rest, source = pre ++ x ++ rest ∧ t.start = after pre ∧
    t.text? source = some x ∧ t.kind.SpelledBy x rest
  names : ∀ m, t.kind = .macroDef m →
    slice? source m.nameStart.offset m.nameStop.offset = some (headerNames m.configuration m.name)

theorem Arises.faithful {source : List Char} {t : Token} (h : Arises source t) :
    Faithful source t := by
  cases h with
  | @atom scope depth behind pre text rest a hsource hfront =>
    have hspells := front_spells scope depth behind (after pre) (text ++ rest)
    rw [hfront] at hspells
    refine ⟨⟨pre, text, rest, hsource, rfl, ?_, hspells⟩, fun m hm => nomatch hm⟩
    rw [hsource]
    exact Located.text?_append rfl rfl rest
  | @template scope pre body rest d t hsource hbody hfinish =>
    refine ⟨⟨pre, _, rest, hsource, rfl, ?_, ?_⟩, fun m hm => nomatch hm⟩
    · rw [hsource]
      exact Located.text?_append rfl rfl rest
    · show _ = Front.templateOpening ++ t.template.lexeme.toList ++ ['"']
      rw [Draft.finish_lexeme hfinish, hbody.body_eq hfinish]
  | @macroDef scope depth behind pre body rest header st e hsource hfront hbody hexit =>
    have hspells := front_spells scope depth behind (after pre)
      (header.lead ++ header.names ++ (body ++ rest))
    rw [hfront] at hspells
    obtain ⟨⟨blanks, hlead, hblanks⟩, hnames, ⟨hname, hconfiguration⟩, hend⟩ := hspells
    have hplaced := front_header hfront
    have hstart : header.nameStart = after (pre ++ header.lead) := by
      rw [hplaced.nameStart, Position.advance_after]
    have hlexeme : (header.define body st.tokens.reverse).lexeme.toList = header.names ++ body :=
      String.toList_ofList
    refine ⟨⟨pre, _, rest, hsource, rfl, ?_, ⟨blanks, ?_, hblanks⟩, ⟨body, ?_, hend⟩, hname,
      hconfiguration, (body_exit_iff _ _ _ _ _).mp ⟨e, hexit⟩⟩, ?_⟩
    · rw [hsource]
      exact Located.text?_append rfl rfl rest
    · rw [hlexeme, hlead]
    · rw [hlexeme, hnames]
      rfl
    · rintro m ⟨⟩
      have hslice : slice? source header.nameStart.offset header.nameStop.offset
          = some header.names := by
        refine slice?_eq_some_iff.mpr ⟨pre ++ header.lead, body ++ rest, by simp [hsource], ?_, ?_⟩
        · rw [hstart]
          rfl
        · rw [hplaced.nameStop, Position.offset_advance, hstart]
          rfl
      rw [hnames] at hslice
      exact hslice

/-- the tokens of a scan are faithful to their texts, at any depth -/
theorem scan_faithful {source : String} {mode : Mode} {ts : List Token}
    (h : scan source mode = .ok ts) {t : Token} (ht : Occurs t ts) : Faithful source.toList t :=
  (scan_arises h ht).faithful

/-- a macro definition with two blanks in front of its names, and in its body a raw string over two lines
and a float with separators -/
theorem scan_faithful_macro :
    ∃ ts t u v m, scan "#macro  C:m @'\n' 1_.2_5" = .ok ts ∧ Occurs t ts ∧ Occurs u ts ∧ Occurs v ts ∧
      t.kind = .macroDef m ∧ m.configuration = some "C" ∧ u.kind = .atom (.string "\n") ∧
      v.kind = .atom (.number (.real ⟨0x3FF4000000000000⟩)) ∧
      Faithful "#macro  C:m @'\n' 1_.2_5".toList t ∧ Faithful "#macro  C:m @'\n' 1_.2_5".toList u ∧
      Faithful "#macro  C:m @'\n' 1_.2_5".toList v := by
  have ht : ∀ t : Token, Occurs t [t] := fun t => .here List.mem_cons_self
  have hfirst : ∀ t u : Token, Occurs t [t, u] := fun t u => .here List.mem_cons_self
  have hsecond : ∀ t u : Token, Occurs u [t, u] := fun t u =>
    .here (List.mem_cons_of_mem t List.mem_cons_self)
  refine ⟨_, _, _, _, ⟨"m", some "C", "C:m @'\n' 1_.2_5", ⟨8, 0, 0⟩, ⟨11, 0, 0⟩,
    [⟨.atom (.string "\n"), ⟨12, 0, 0⟩, ⟨16, 1, 15⟩⟩,
      ⟨.atom (.number (.real ⟨0x3FF4000000000000⟩)), ⟨17, 1, 15⟩, ⟨23, 1, 15⟩⟩]⟩, ?h,
    ht ⟨.macroDef _, ⟨0, 0, 0⟩, ⟨23, 1, 15⟩⟩,
    .inside List.mem_cons_self List.mem_cons_self (hfirst _ _),
    .inside List.mem_cons_self List.mem_cons_self (hsecond _ _), rfl, rfl, rfl, rfl,
    scan_faithful ?h (ht _),
    scan_faithful ?h (.inside List.mem_cons_self List.mem_cons_self (hfirst _ _)),
    scan_faithful ?h (.inside List.mem_cons_self List.mem_cons_self (hsecond _ _))⟩
  case h => decide +kernel

end ScriptLexer

import Mathlib.Data.List.TakeWhile
import ScriptLexer.Proofs.Digits
import ScriptLexer.Scan.Dispatch

/-!
# What a decision says about the text

`front` decides; here stands what can be read off its decisions.

* `front_exit_iff`   a scope ends at the end of the text, at a line break or at a brace, each in its
                     own modes and nowhere else;
* `quotedBody_lineBreak`, `newline_notMem_quotedBody`   a quoted body lies on one line, or is cut off
                     at the end of the line;
* `readDigits?_colour`   the digits of a colour are never too large a number;
* `front_header`     the places in a macro header are those of its names, on one line.
-/

namespace ScriptLexer

/-! ## only the scope ends a scan -/

namespace Front

/-- the decision is not that the scope ends -/
def GoesOn : Front → Prop
  | .exit _ => False
  | _ => True

/-- the decision is neither that the scope ends nor that a macro definition begins -/
def Simple : Front → Prop
  | .exit _ => False
  | .macroDef _ _ => False
  | _ => True

theorem Simple.goesOn {f : Front} (h : f.Simple) : f.GoesOn := by
  cases f with
  | exit _ => exact h
  | _ => trivial

theorem GoesOn.ne_exit {f : Front} (h : f.GoesOn) (e : Exit) : f ≠ .exit e := by
  rintro rfl
  exact h

theorem Simple.ne_macroDef {f : Front} (h : f.Simple) (header : MacroHeader) (rest : List Char) :
    f ≠ .macroDef header rest := by
  rintro rfl
  exact h

end Front

namespace Lexeme

variable (start : Position)

theorem symbol_simple (c : Char) (cs : List Char) : (symbol c cs).Simple := by
  unfold symbol
  split <;> trivial

theorem integer_simple (base : Base) (radix : Radix) (lexeme digits rest : List Char) :
    (integer base radix start lexeme digits rest).Simple := by
  unfold integer
  split <;> trivial

theorem inBase_simple (base : Base) (radix : Radix) (lead cs : List Char) :
    (inBase base radix start lead cs).Simple := by
  unfold inBase
  simp only
  split
  · trivial
  · exact integer_simple start _ _ _ _ _

theorem decimal_simple (c : Char) (cs : List Char) : (decimal start c cs).Simple := by
  unfold decimal
  simp only
  split
  · trivial
  · exact integer_simple start _ _ _ _ _

theorem numeral_simple (c : Char) (cs : List Char) : (numeral start c cs).Simple := by
  unfold numeral
  split
  · exact decimal_simple start c []
  · split
    · exact inBase_simple start _ _ _ _
    · split
      · exact inBase_simple start _ _ _ _
      · exact decimal_simple start c _

theorem quoted_simple (cs : List Char) : (quoted start cs).Simple := by
  unfold quoted
  split
  · trivial
  · trivial
  · split <;> trivial

theorem atSign_simple (cs : List Char) : (atSign start cs).Simple := by
  unfold atSign
  split
  · trivial
  · split
    · unfold raw
      simp only
      split <;> trivial
    · trivial

theorem dollar_simple (cs : List Char) : (dollar start cs).Simple := by
  unfold dollar
  split
  · trivial
  · split
    · trivial
    · split
      · exact inBase_simple start _ _ _ _
      · trivial

theorem slash_simple (cs : List Char) : (slash start cs).Simple := by
  unfold slash
  split
  · exact symbol_simple '/' []
  · split
    · trivial
    · split
      · unfold block
        split <;> trivial
      · exact symbol_simple '/' _

theorem point_simple (behind : Behind) (cs : List Char) : (point behind cs).Simple := by
  unfold point
  split
  · exact symbol_simple '.' []
  · split
    · trivial
    · exact symbol_simple '.' _

theorem macroHeader_goesOn (lead cs : List Char) : (macroHeader start lead cs).GoesOn := by
  unfold macroHeader
  simp only
  split
  · trivial
  · split <;> trivial
  · trivial

theorem colour_simple (digits rest : List Char) : (colour start digits rest).Simple := by
  unfold colour
  simp only
  split
  · trivial
  · split
    · trivial
    · split <;> trivial

theorem directive_goesOn (scope : Scope) (cs : List Char) : (directive scope start cs).GoesOn := by
  unfold directive
  simp only
  split
  · trivial
  split
  · trivial
  split
  · split
    · trivial
    · exact macroHeader_goesOn start _ _
  split
  · exact (colour_simple start _ _).goesOn
  · trivial

end Lexeme

theorem lexeme_simple (behind : Behind) (start : Position) (c : Char) (cs : List Char) :
    (lexeme behind start c cs).Simple := by
  unfold lexeme
  split
  · trivial
  split
  · trivial
  split
  · exact Lexeme.numeral_simple start c cs
  split
  · exact Lexeme.point_simple behind cs
  split
  · exact Lexeme.quoted_simple start cs
  split
  · exact Lexeme.atSign_simple start cs
  split
  · exact Lexeme.dollar_simple start cs
  split
  · exact Lexeme.slash_simple start cs
  · exact Lexeme.symbol_simple c cs

/-- the text `cs` is one in front of which a scope with `depth` open braces ends in the way `e` -/
def Scope.EndsAt (scope : Scope) (depth : Nat) (cs : List Char) : Exit → Prop
  | .endOfInput => cs = [] ∧ scope.mode ≠ .interpolation
  | .newline => cs.head? = some '\n' ∧ scope.mode = .macroBody
  | .brace => cs.head? = some '}' ∧ scope.isBareSection depth = true

theorem atNewline_exit_iff (scope : Scope) (behind : Behind) (cs : List Char) (e : Exit) :
    atNewline scope behind cs = .exit e ↔ e = .newline ∧ scope.mode = .macroBody := by
  unfold atNewline
  split
  · rename_i h
    simp [h, eq_comm]
  · rename_i h
    split <;> simp [h]

theorem atBackslash_simple (scope : Scope) (start : Position) (cs : List Char) :
    (atBackslash scope start cs).Simple := by
  unfold atBackslash
  split
  · trivial
  · split <;> trivial

theorem front_exit_iff (scope : Scope) (depth : Nat) (behind : Behind) (start : Position)
    (cs : List Char) (e : Exit) :
    front scope depth behind start cs = .exit e ↔ scope.EndsAt depth cs e := by
  cases cs with
  | nil =>
    rw [front, atEnd]
    by_cases h : scope.mode = .interpolation <;> cases e <;> simp [h, Scope.EndsAt]
  | cons c cs =>
    rw [front]
    split
    · rename_i h
      subst h
      rw [atNewline_exit_iff]
      cases e <;> simp [Scope.EndsAt]
    split
    · rename_i h
      subst h
      have hne := (atBackslash_simple scope start cs).goesOn.ne_exit e
      cases e <;> simp [Scope.EndsAt, hne]
    split
    · rename_i h
      obtain ⟨rfl, _⟩ := h
      cases e <;> simp [Scope.EndsAt]
    split
    · rename_i h
      obtain ⟨rfl, hbare⟩ := h
      cases e <;> simp [Scope.EndsAt, hbare]
    · rename_i hnewline _ _ hbrace
      have hne : scope.EndsAt depth (c :: cs) e → False := by
        cases e with
        | endOfInput => simp [Scope.EndsAt]
        | newline => simp [Scope.EndsAt, hnewline]
        | brace => simpa [Scope.EndsAt] using hbrace
      refine ⟨fun h => ?_, fun h => (hne h).elim⟩
      split at h
      · exact ((Lexeme.directive_goesOn start scope cs).ne_exit e h).elim
      · exact ((lexeme_simple behind start c cs).goesOn.ne_exit e h).elim

/-! ## quoted bodies -/

namespace Lexeme

/-- no line break lies in a body that ends with a quote -/
theorem newline_notMem_quotedBody {done cs body rest : List Char}
    (h : quotedBody done cs = .closed body rest) (hdone : '\n' ∉ done) : '\n' ∉ body := by
  fun_induction quotedBody done cs with
  | case1 done => cases h
  | case2 done cs =>
    cases h
    simpa using hdone
  | case3 done cs => cases h
  | case4 done cs => cases h
  | case5 done c cs hc ih => exact ih h (by simpa [Ne.symm hc] using hdone)
  | case6 done c cs hquote hbreak hslash ih =>
    exact ih h fun hmem => (List.mem_cons.mp hmem).elim (fun e => hbreak e.symm) hdone

/-- what ends a body at a line break stands in front of it -/
theorem quotedBody_lineBreak {done cs before : List Char}
    (h : quotedBody done cs = .lineBreak before) :
    ∃ rest, done.reverse ++ cs = before ++ '\n' :: rest := by
  fun_induction quotedBody done cs with
  | case1 done => cases h
  | case2 done cs => cases h
  | case3 done cs =>
    cases h
    exact ⟨cs, rfl⟩
  | case4 done cs =>
    cases h
    exact ⟨cs, by simp⟩
  | case5 done c cs hc ih =>
    obtain ⟨rest, hrest⟩ := ih h
    exact ⟨rest, by simpa using hrest⟩
  | case6 done c cs hquote hbreak hslash ih =>
    obtain ⟨rest, hrest⟩ := ih h
    exact ⟨rest, by simpa using hrest⟩

end Lexeme

/-! ## colours -/

/-- six digits are never too large a number -/
theorem Lexeme.readDigits?_colour {digits : List Char} (h : digits.all isHexPart = true)
    (hcount : digitCount digits = Lexeme.colourDigits) :
    readDigits? Base.hexadecimal.value digits = some (digitsValue 16 digits) :=
  readDigits?_of_few .hexadecimal (List.all_eq_true.mp h) (by rw [hcount]; decide)

/-! ## macro headers -/

namespace Lexeme

/-- a name of a header is a word -/
theorem macroName_word {p : Position} {cs name rest : List Char}
    (h : macroName p cs = .ok (name, rest)) : name ≠ [] ∧ ∀ c ∈ name, isWordPart c = true := by
  cases cs with
  | nil => cases h
  | cons c cs =>
    rw [macroName] at h
    split at h
    · cases h
    split at h
    · rename_i hc
      cases h
      refine ⟨List.cons_ne_nil c _, fun x hx => ?_⟩
      rcases List.mem_cons.mp hx with rfl | hx
      · exact isWordPart_of_isWordStart x hc
      · exact List.mem_takeWhile_imp hx
    · cases h

end Lexeme

/-- the places in a header are those of its names, which are one line of text behind the lead -/
structure MacroHeader.Placed (header : MacroHeader) (start : Position) : Prop where
  nameStart : header.nameStart = start.advance header.lead
  nameStop : header.nameStop = header.nameStart.advance header.names
  names_ne_nil : header.names ≠ []
  oneLine : '\n' ∉ header.names

namespace Lexeme

theorem macroHeader_placed {start : Position} {lead cs rest : List Char} {header : MacroHeader}
    (h : macroHeader start lead cs = .macroDef header rest) : header.Placed start := by
  unfold macroHeader at h
  simp only at h
  split at h
  · cases h
  · rename_i first after hfirst
    obtain ⟨hne, hword⟩ := macroName_word hfirst
    split at h
    · cases h
    · rename_i name after' hname
      obtain ⟨_, hword'⟩ := macroName_word hname
      cases h
      refine ⟨rfl, ?_, by simp, ?_⟩
      · rw [← Position.advance_append, List.append_assoc, List.singleton_append]
      · intro hmem
        rcases List.mem_append.mp hmem with hmem | hmem
        · exact absurd (hword _ hmem) (by decide)
        · rcases List.mem_cons.mp hmem with hmem | hmem
          · exact absurd hmem (by decide)
          · exact absurd (hword' _ hmem) (by decide)
  · rename_i name after _ hname
    obtain ⟨hne, hword⟩ := macroName_word hname
    cases h
    exact ⟨rfl, rfl, hne, fun hmem => absurd (hword _ hmem) (by decide)⟩

theorem directive_placed {scope : Scope} {start : Position} {cs rest : List Char}
    {header : MacroHeader} (h : directive scope start cs = .macroDef header rest) :
    header.Placed start := by
  unfold directive at h
  simp only at h
  split at h
  · cases h
  split at h
  · cases h
  split at h
  · split at h
    · cases h
    · exact macroHeader_placed h
  split at h
  · exact ((colour_simple start _ _).ne_macroDef _ _ h).elim
  · cases h

end Lexeme

/-- only a directive begins a macro definition -/
theorem front_macroDef {scope : Scope} {depth : Nat} {behind : Behind} {start : Position}
    {cs rest : List Char} {header : MacroHeader}
    (h : front scope depth behind start cs = .macroDef header rest) :
    ∃ cs', cs = '#' :: cs' ∧ Lexeme.directive scope start cs' = .macroDef header rest := by
  cases cs with
  | nil =>
    rw [front, atEnd] at h
    split at h <;> cases h
  | cons c cs =>
    rw [front] at h
    split at h
    · unfold atNewline at h
      split at h
      · cases h
      · split at h <;> cases h
    split at h
    · exact ((atBackslash_simple scope start cs).ne_macroDef _ _ h).elim
    split at h
    · cases h
    split at h
    · cases h
    split at h
    · rename_i hc
      exact ⟨cs, by rw [hc], h⟩
    · exact ((lexeme_simple behind start c cs).ne_macroDef _ _ h).elim

theorem front_header {scope : Scope} {depth : Nat} {behind : Behind} {start : Position}
    {cs rest : List Char} {header : MacroHeader}
    (h : front scope depth behind start cs = .macroDef header rest) : header.Placed start := by
  obtain ⟨cs', _, h⟩ := front_macroDef h
  exact Lexeme.directive_placed h

end ScriptLexer

import ScriptLexer.Lexeme.Template
import ScriptLexer.Proofs.Decisions
import ScriptLexer.Scan.State

/-!
# The ways to fail

One case for each error, with what stands in the text and what is known of the scope.

* `Failure scope depth start cs e`   `e` is what is wrong at the front of the text `cs`, which begins at
                                     `start`; `front_failure` says that a decision fails in no other way;
* `Draft.Failure start d cs e`       a template that begins at `start`, with the draft `d` so far, fails in
                                     front of `cs`; see `piece_failure` and `Draft.finish_failure`.

What an error points at, which construct it names and which causes nothing fails for is read off the cases,
without another look at the decisions.
-/

namespace ScriptLexer

/-! ## decisions -/

/-- in a scope with `depth` open braces, this is wrong at the front of a text that begins at `start` -/
inductive Failure (scope : Scope) (depth : Nat) (start : Position) : List Char → LexError → Prop
  | unclosedSection (hmode : scope.mode = .interpolation) :
      Failure scope depth start [] (.report .unclosedInterpolation start scope.start)
  | bareQuote {cs : List Char} (hbare : scope.isBareSection depth = true) :
      Failure scope depth start ('"' :: cs) (.report .quoteInInterpolation start scope.start)
  | backslash {cs : List Char} (hmode : scope.mode ≠ .macroBody) :
      Failure scope depth start ('\\' :: cs)
        ((LexError.report .unexpectedContinuation start start.offset).withContext scope.context)
  | continuation {cs : List Char} (hmode : scope.mode = .macroBody)
      (hnext : ∀ rest, cs ≠ '\n' :: rest) :
      Failure scope depth start ('\\' :: cs)
        (.report .continuationWithoutNewline start scope.start)
  | unterminated {cs : List Char} (hbody : Lexeme.quotedBody [] cs = .unterminated) :
      Failure scope depth start ('"' :: cs)
        (.report .unterminatedString (start.advance ('"' :: cs)) start.offset)
  | lineBreak {cs before : List Char} (hbody : Lexeme.quotedBody [] cs = .lineBreak before) :
      Failure scope depth start ('"' :: cs)
        (.report .newlineInString (start.advance ('"' :: before)) start.offset)
  | escape {cs body rest : List Char} {e : EscapeError}
      (hbody : Lexeme.quotedBody [] cs = .closed body rest) (hdecode : decodeEscapes body = .error e) :
      Failure scope depth start ('"' :: cs)
        (.ofEscape e.cause { start with offset := start.offset + 1 + e.offset }
          (.insideString start.offset))
  | raw {quote : Char} {cs : List Char} (hquote : quote = '"' ∨ quote = '\'')
      (hbody : cs.dropWhile (· != quote) = []) :
      Failure scope depth start ('@' :: quote :: cs)
        (.report (.unterminatedRawString quote) (start.advance ('@' :: quote :: cs)) start.offset)
  | comment {cs : List Char} (hbody : Lexeme.blockBody 0 [] cs = none) :
      Failure scope depth start ('/' :: '*' :: cs)
        (.report .unterminatedBlockComment (start.advance ('/' :: '*' :: cs)) start.offset)
  | noDigits {base : Base} {c : Char} {cs : List Char} (hbase : base ≠ .decimal)
      (hc : c = '$' ∨ c.isDigit = true) :
      Failure scope depth start (c :: cs) (.report (.missingDigits base) start start.offset)
  | overflow {c : Char} {cs : List Char} (hc : c = '$' ∨ c.isDigit = true) :
      Failure scope depth start (c :: cs) (.report .integerOverflow start start.offset)
  | fewDigits {cs word : List Char} (hword : cs.takeWhile isWordPart = word)
      (hcount : digitCount word < Lexeme.colourDigits) :
      Failure scope depth start ('#' :: cs)
        (.report (.notEnoughColourDigits (digitCount word)) start start.offset)
  | manyDigits {cs word : List Char} (hword : cs.takeWhile isWordPart = word)
      (hcount : Lexeme.colourDigits < digitCount word) :
      Failure scope depth start ('#' :: cs)
        (.report (.tooManyColourDigits (digitCount word)) start start.offset)
  | nestedMacro {cs : List Char} (hword : cs.takeWhile isWordPart = "macro".toList)
      (hinside : scope.inMacro = true) :
      Failure scope depth start ('#' :: cs) (.report .nestedMacro start scope.start)
  | noName {pre cs : List Char} (hcs : cs = [] ∨ cs.head? = some '\n') :
      Failure scope depth start (pre ++ cs)
        (.report .macroNameExpected (start.advance pre) (start.advance pre).offset)
  | badName {pre cs : List Char} {c : Char} (hc : isWordStart c = false) :
      Failure scope depth start (pre ++ c :: cs)
        (.report (.malformedMacroName c) (start.advance pre) (start.advance pre).offset)
  | unknownWord {cs word : List Char} (hword : cs.takeWhile isWordPart = word) :
      Failure scope depth start ('#' :: cs)
        (.report (.unknownDirective (String.ofList word)) start start.offset)

/-- a decision about the text fails in one of these ways, or not at all -/
def Front.FailsIn (scope : Scope) (depth : Nat) (start : Position) (cs : List Char) : Front → Prop
  | .fail e => Failure scope depth start cs e
  | _ => True

namespace Lexeme

variable (scope : Scope) (depth : Nat) (start : Position)

theorem symbol_failsIn (c : Char) (cs : List Char) :
    (symbol c cs).FailsIn scope depth start (c :: cs) := by
  unfold symbol
  split <;> trivial

/-! ### numbers -/

section numerals

variable {c : Char} (hc : c = '$' ∨ c.isDigit = true) (cs : List Char)
include hc

theorem integer_failsIn (base : Base) (radix : Radix) (lexeme digits rest : List Char) :
    (integer base radix start lexeme digits rest).FailsIn scope depth start (c :: cs) := by
  unfold integer
  split
  · trivial
  · exact .overflow hc

theorem inBase_failsIn {base : Base} (hbase : base ≠ .decimal) (radix : Radix)
    (lead behind : List Char) :
    (inBase base radix start lead behind).FailsIn scope depth start (c :: cs) := by
  unfold inBase
  simp only
  split
  · exact .noDigits hbase hc
  · exact integer_failsIn scope depth start hc cs _ _ _ _ _

end numerals

theorem decimal_failsIn {c : Char} (hc : c.isDigit = true) (cs : List Char) :
    (decimal start c cs).FailsIn scope depth start (c :: cs) := by
  unfold decimal
  simp only
  split
  · trivial
  · exact integer_failsIn scope depth start (.inr hc) cs _ _ _ _ _

theorem numeral_failsIn {c : Char} (hc : c.isDigit = true) (cs : List Char) :
    (numeral start c cs).FailsIn scope depth start (c :: cs) := by
  unfold numeral
  split
  · exact decimal_failsIn scope depth start hc []
  · split
    · exact inBase_failsIn scope depth start (.inr hc) _ (by decide) _ _ _
    · split
      · exact inBase_failsIn scope depth start (.inr hc) _ (by decide) _ _ _
      · exact decimal_failsIn scope depth start hc _

theorem dollar_failsIn (cs : List Char) :
    (dollar start cs).FailsIn scope depth start ('$' :: cs) := by
  unfold dollar
  split
  · trivial
  · split
    · trivial
    · split
      · exact inBase_failsIn scope depth start (.inl rfl) _ (by decide) _ _ _
      · trivial

theorem point_failsIn (behind : Behind) (cs : List Char) :
    (point behind cs).FailsIn scope depth start ('.' :: cs) := by
  unfold point
  split
  · exact symbol_failsIn scope depth start '.' []
  · split
    · trivial
    · exact symbol_failsIn scope depth start '.' _

/-! ### strings and comments -/

theorem quoted_failsIn (cs : List Char) :
    (quoted start cs).FailsIn scope depth start ('"' :: cs) := by
  unfold quoted
  split
  · rename_i hbody
    exact .unterminated hbody
  · rename_i hbody
    exact .lineBreak hbody
  · rename_i hbody
    split
    · trivial
    · rename_i hdecode
      exact .escape hbody hdecode

theorem atSign_failsIn (cs : List Char) :
    (atSign start cs).FailsIn scope depth start ('@' :: cs) := by
  unfold atSign
  split
  · trivial
  · split
    · rename_i hquote
      unfold ScriptLexer.Lexeme.raw
      simp only
      split
      · trivial
      · rename_i hbody
        exact .raw hquote hbody
    · trivial

theorem slash_failsIn (cs : List Char) :
    (slash start cs).FailsIn scope depth start ('/' :: cs) := by
  unfold slash
  split
  · exact symbol_failsIn scope depth start '/' []
  · split
    · trivial
    · split
      · rename_i hc
        subst hc
        unfold block
        split
        · trivial
        · rename_i hbody
          exact .comment hbody
      · exact symbol_failsIn scope depth start '/' _

/-! ### directives -/

/-- no colour of six digits is too large -/
theorem colour_failsIn {cs word : List Char} (hword : cs.takeWhile isWordPart = word)
    (hdigits : word.all isHexPart = true) (rest : List Char) :
    (colour start word rest).FailsIn scope depth start ('#' :: cs) := by
  unfold colour
  simp only
  split
  · rename_i hfew
    exact .fewDigits hword hfew
  split
  · rename_i hmany
    exact .manyDigits hword hmany
  · rename_i hfew hmany
    have hcount : digitCount word = colourDigits :=
      Nat.le_antisymm (Nat.le_of_not_lt hmany) (Nat.le_of_not_lt hfew)
    rw [readDigits?_colour hdigits hcount]
    trivial

theorem macroName_failure {pre cs : List Char} {e : LexError}
    (h : macroName (start.advance pre) cs = .error e) :
    Failure scope depth start (pre ++ cs) e := by
  cases cs with
  | nil =>
    cases h
    exact .noName (.inl rfl)
  | cons c cs =>
    rw [macroName] at h
    split at h
    · rename_i hc
      cases h
      exact .noName (.inr (congrArg some hc))
    split at h
    · cases h
    · rename_i hc
      cases h
      exact .badName (Bool.eq_false_iff.mpr hc)

theorem macroHeader_failsIn (lead cs : List Char) :
    (macroHeader start lead cs).FailsIn scope depth start (lead ++ cs) := by
  have hcs : lead ++ cs.takeWhile isBlank ++ cs.dropWhile isBlank = lead ++ cs := by
    rw [List.append_assoc, List.takeWhile_append_dropWhile]
  rw [← hcs]
  unfold macroHeader
  simp only
  split
  · rename_i h
    exact macroName_failure scope depth start h
  · rename_i first rest h
    have hfirst := macroName_append h
    split
    · rename_i h'
      rw [← Position.advance_append] at h'
      rw [← hfirst, ← List.singleton_append, ← List.append_assoc first, ← List.append_assoc _ (_ ++ _)]
      exact macroName_failure scope depth start h'
    · trivial
  · trivial

theorem directive_failsIn (cs : List Char) :
    (directive scope start cs).FailsIn scope depth start ('#' :: cs) := by
  unfold directive
  simp only
  split
  · trivial
  split
  · trivial
  split
  · rename_i hword
    split
    · rename_i hinside
      exact .nestedMacro hword hinside
    · have hheader := macroHeader_failsIn scope depth start ('#' :: cs.takeWhile isWordPart)
        (cs.dropWhile isWordPart)
      rwa [List.cons_append, List.takeWhile_append_dropWhile] at hheader
  split
  · rename_i hdigits
    exact colour_failsIn scope depth start rfl hdigits _
  · exact .unknownWord rfl

end Lexeme

/-! ### the choice between them -/

theorem lexeme_failsIn (scope : Scope) (depth : Nat) (behind : Behind) (start : Position) (c : Char)
    (cs : List Char) : (lexeme behind start c cs).FailsIn scope depth start (c :: cs) := by
  unfold lexeme
  split
  · trivial
  split
  · trivial
  split
  · rename_i hc
    exact Lexeme.numeral_failsIn scope depth start hc cs
  split
  · rename_i h; subst h; exact Lexeme.point_failsIn scope depth start behind cs
  split
  · rename_i h; subst h; exact Lexeme.quoted_failsIn scope depth start cs
  split
  · rename_i h; subst h; exact Lexeme.atSign_failsIn scope depth start cs
  split
  · rename_i h; subst h; exact Lexeme.dollar_failsIn scope depth start cs
  split
  · rename_i h; subst h; exact Lexeme.slash_failsIn scope depth start cs
  · exact Lexeme.symbol_failsIn scope depth start c cs

theorem atBackslash_failsIn (scope : Scope) (depth : Nat) (start : Position) (cs : List Char) :
    (atBackslash scope start cs).FailsIn scope depth start ('\\' :: cs) := by
  unfold atBackslash
  split
  · rename_i hmode
    exact .backslash hmode
  · rename_i hmode
    split
    · trivial
    · rename_i hnext
      exact .continuation (Decidable.not_not.mp hmode) hnext

theorem front_failsIn (scope : Scope) (depth : Nat) (behind : Behind) (start : Position)
    (cs : List Char) : (front scope depth behind start cs).FailsIn scope depth start cs := by
  cases cs with
  | nil =>
    rw [front, atEnd]
    split
    · rename_i hmode
      exact .unclosedSection hmode
    · trivial
  | cons c cs =>
    rw [front]
    split
    · unfold atNewline
      split
      · trivial
      · split <;> trivial
    split
    · rename_i h; subst h; exact atBackslash_failsIn scope depth start cs
    split
    · rename_i h
      obtain ⟨rfl, hbare⟩ := h
      exact .bareQuote hbare
    split
    · trivial
    split
    · rename_i h; subst h; exact Lexeme.directive_failsIn scope depth start cs
    · exact lexeme_failsIn scope depth behind start c cs

/-- there are no other ways -/
theorem front_failure {scope : Scope} {depth : Nat} {behind : Behind} {start : Position}
    {cs : List Char} {e : LexError} (h : front scope depth behind start cs = .fail e) :
    Failure scope depth start cs e := by
  have hfails := front_failsIn scope depth behind start cs
  rwa [h] at hfails

/-! ## templates -/

/-- this is wrong with a template that begins at `start`, in front of a text -/
inductive Draft.Failure (start : Position) (d : Draft) : List Char → LexError → Prop
  | unterminated : d.Failure start [] (.report .unterminatedTemplate d.position start.offset)
  | lineBreak {cs : List Char} :
      d.Failure start ('\n' :: cs) (.report .newlineInTemplate d.position start.offset)
  | escape {cs : List Char} {e : EscapeError} (hdecode : decodeEscapes d.numbered.reverse = .error e) :
      d.Failure start ('"' :: cs) (.ofEscape e.cause start (.insideTemplate start.offset))

theorem piece_failure {cs : List Char} {cause : Cause} (h : piece cs = .fail cause) (start : Position)
    (d : Draft) : d.Failure start cs (.report cause d.position start.offset) := by
  unfold piece at h
  split at h <;> cases h
  · exact .unterminated
  · exact .lineBreak

theorem Draft.finish_failure {d : Draft} {start : Position} {e : LexError}
    (h : d.finish start = .error e) (cs : List Char) : d.Failure start ('"' :: cs) e := by
  unfold Draft.finish at h
  simp only at h
  split at h
  · cases h
  · rename_i hdecode
    cases h
    exact .escape hdecode

end ScriptLexer

import ScriptLexer.Lexeme.Comment
import ScriptLexer.Lexeme.Directive
import ScriptLexer.Lexeme.Numeral
import ScriptLexer.Lexeme.Quotation

/-!
# The choice at the front of a text

`front` decides what stands at the front of the unread text.  Most of it depends on the text alone
(`lexeme`); the scope has a say

* at the end of the text, which a section must not reach;
* at a line break, which ends a macro body;
* at a backslash, which joins two lines of a macro body and belongs nowhere else;
* at a double quote, which must not stand in a section outside of all braces;
* at a closing brace, which ends a section unless it closes a brace opened in it;
* at `#`, because macro bodies hold no macro definitions.

`front_takes` says that every decision splits the text and takes at least one character of it, so a
scan always gets on.
-/

namespace ScriptLexer

namespace Lexeme

/-! ## the same in every scope -/

/-- the longest run of word characters that begins with `c` -/
def word (c : Char) (cs : List Char) : Front :=
  let w := c :: cs.takeWhile isWordPart
  .atom (.ofWord (String.ofList w)) w (cs.dropWhile isWordPart)

/-- the longest spelling of a sign, if there is one -/
def symbol (c : Char) (cs : List Char) : Front :=
  match symbol? (c :: cs) with
  | some (spelling, a) => .atom a spelling ((c :: cs).drop spelling.length)
  | none => .blank c cs

/-- behind `@`: a raw string, if a quote follows -/
def atSign (start : Position) : List Char → Front
  | [] => .blank '@' []
  | q :: cs => if q = '"' ∨ q = '\'' then raw start q cs else .blank '@' (q :: cs)

/-- behind `$`: a template or a hexadecimal number, if their first character follows -/
def dollar (start : Position) : List Char → Front
  | [] => .blank '$' []
  | c :: cs =>
    if c = '"' then .template cs
    else if isHexPart c then inBase .hexadecimal .hex start ['$'] (c :: cs)
    else .blank '$' (c :: cs)

/-- behind `/`: a comment or an operator -/
def slash (start : Position) : List Char → Front
  | [] => symbol '/' []
  | c :: cs =>
    if c = '/' then line cs else if c = '*' then block start cs else symbol '/' (c :: cs)

/-- behind a point: a float without whole digits, unless a float ends in front of the point -/
def point (behind : Behind) : List Char → Front
  | [] => symbol '.' []
  | c :: cs => if c.isDigit ∧ behind ≠ .float then float [] (c :: cs) else symbol '.' (c :: cs)

end Lexeme

/-- what begins with the character `c`, as far as the scope does not matter -/
def lexeme (behind : Behind) (start : Position) (c : Char) (cs : List Char) : Front :=
  if isBlank c then .blank c cs
  else if isWordStart c then Lexeme.word c cs
  else if c.isDigit then Lexeme.numeral start c cs
  else if c = '.' then Lexeme.point behind cs
  else if c = '"' then Lexeme.quoted start cs
  else if c = '@' then Lexeme.atSign start cs
  else if c = '$' then Lexeme.dollar start cs
  else if c = '/' then Lexeme.slash start cs
  else Lexeme.symbol c cs

/-! ## the say of the scope -/

/-- at the end of the text -/
def atEnd (scope : Scope) (start : Position) : Front :=
  if scope.mode = .interpolation then .fail (.report .unclosedInterpolation start scope.start)
  else .exit .endOfInput

/-- at a line break: a token of its own, unless the token in front of it reached to it -/
def atNewline (scope : Scope) (behind : Behind) (cs : List Char) : Front :=
  if scope.mode = .macroBody then .exit .newline
  else if behind = .lineEnd then .blank '\n' cs
  else .atom .newline ['\n'] cs

/-- at a backslash: in a macro body it joins this line and the next -/
def atBackslash (scope : Scope) (start : Position) (cs : List Char) : Front :=
  if scope.mode ≠ .macroBody then
    .fail ((LexError.report .unexpectedContinuation start start.offset).withContext scope.context)
  else
    match cs with
    | '\n' :: rest => .atom .newline ['\\', '\n'] rest
    | _ => .fail (.report .continuationWithoutNewline start scope.start)

/-- the scope is a section, and all braces that were opened in it are closed -/
def Scope.isBareSection (scope : Scope) (depth : Nat) : Bool :=
  scope.mode == .interpolation && depth == 0

/-- what stands at the front of the text at `start`, in a scope with `depth` open braces -/
def front (scope : Scope) (depth : Nat) (behind : Behind) (start : Position) : List Char → Front
  | [] => atEnd scope start
  | c :: cs =>
    if c = '\n' then atNewline scope behind cs
    else if c = '\\' then atBackslash scope start cs
    else if c = '"' ∧ scope.isBareSection depth then
      .fail (.report .quoteInInterpolation start scope.start)
    else if c = '}' ∧ scope.isBareSection depth then .exit .brace
    else if c = '#' then Lexeme.directive scope start cs
    else lexeme behind start c cs

/-! ## nothing is lost -/

namespace Lexeme

theorem word_takes (c : Char) (cs : List Char) : (word c cs).Takes (c :: cs) :=
  ⟨by rw [List.cons_append, List.takeWhile_append_dropWhile], by simp⟩

theorem symbol_takes (c : Char) (cs : List Char) : (symbol c cs).Takes (c :: cs) := by
  unfold symbol
  split
  · rename_i spelling a h
    exact ⟨symbol?_append h, symbol?_ne_nil h⟩
  · rfl

theorem atSign_takes (start : Position) (cs : List Char) : (atSign start cs).Takes ('@' :: cs) := by
  cases cs with
  | nil => rfl
  | cons q cs =>
    rw [atSign]
    split
    · exact raw_takes start q cs
    · rfl

theorem dollar_takes (start : Position) (cs : List Char) : (dollar start cs).Takes ('$' :: cs) := by
  cases cs with
  | nil => rfl
  | cons c cs =>
    rw [dollar]
    split
    · rename_i h; subst h; rfl
    · split
      · exact inBase_takes _ _ _ (List.cons_ne_nil '$' []) (c :: cs)
      · rfl

theorem slash_takes (start : Position) (cs : List Char) : (slash start cs).Takes ('/' :: cs) := by
  cases cs with
  | nil => exact symbol_takes '/' []
  | cons c cs =>
    rw [slash]
    split
    · rename_i h; subst h; exact line_takes cs
    · split
      · rename_i h; subst h; exact block_takes start cs
      · exact symbol_takes '/' (c :: cs)

theorem point_takes (behind : Behind) (cs : List Char) : (point behind cs).Takes ('.' :: cs) := by
  cases cs with
  | nil => exact symbol_takes '.' []
  | cons c cs =>
    rw [point]
    split
    · exact float_takes [] (c :: cs)
    · exact symbol_takes '.' (c :: cs)

end Lexeme

theorem lexeme_takes (behind : Behind) (start : Position) (c : Char) (cs : List Char) :
    (lexeme behind start c cs).Takes (c :: cs) := by
  unfold lexeme
  split
  · rfl
  split
  · exact Lexeme.word_takes c cs
  split
  · exact Lexeme.numeral_takes start c cs
  split
  · rename_i h; subst h; exact Lexeme.point_takes behind cs
  split
  · rename_i h; subst h; exact Lexeme.quoted_takes start cs
  split
  · rename_i h; subst h; exact Lexeme.atSign_takes start cs
  split
  · rename_i h; subst h; exact Lexeme.dollar_takes start cs
  split
  · rename_i h; subst h; exact Lexeme.slash_takes start cs
  · exact Lexeme.symbol_takes c cs

theorem atEnd_takes (scope : Scope) (start : Position) (cs : List Char) :
    (atEnd scope start).Takes cs := by
  unfold atEnd
  split <;> trivial

theorem atNewline_takes (scope : Scope) (behind : Behind) (cs : List Char) :
    (atNewline scope behind cs).Takes ('\n' :: cs) := by
  unfold atNewline
  split
  · trivial
  · split
    · rfl
    · exact ⟨rfl, by simp⟩

theorem atBackslash_takes (scope : Scope) (start : Position) (cs : List Char) :
    (atBackslash scope start cs).Takes ('\\' :: cs) := by
  unfold atBackslash
  split
  · trivial
  · split
    · exact ⟨rfl, by simp⟩
    · trivial

/-- every decision splits the text that it is about -/
theorem front_takes (scope : Scope) (depth : Nat) (behind : Behind) (start : Position)
    (cs : List Char) : (front scope depth behind start cs).Takes cs := by
  cases cs with
  | nil => exact atEnd_takes scope start []
  | cons c cs =>
    rw [front]
    split
    · rename_i h; subst h; exact atNewline_takes scope behind cs
    split
    · rename_i h; subst h; exact atBackslash_takes scope start cs
    split
    · trivial
    split
    · trivial
    split
    · rename_i h; subst h; exact Lexeme.directive_takes scope start cs
    · exact lexeme_takes behind start c cs

end ScriptLexer

import ScriptLexer.Span
import ScriptLexer.Text.Escape
import ScriptLexer.Number.Basic

/-!
# Errors

A scan that fails returns its first error.  An error says WHERE (a position), WHAT (a cause), WHY
(the construct that was being read) and HOW to go on (suggestions, some with a text edit).

`LexError.report` makes the error of a cause: the cause determines the suggestions and, given the
offset at which the construct begins, the context.  A caller that knows better replaces the context
(`withContext`).

Two causes suggest an edit of the byte at the position, so the position must leave room for it:
`LexError.Fits`.
-/

namespace ScriptLexer

/-! ## what -/

/-- what is wrong -/
inductive Cause where
  | unterminatedString
  | newlineInString
  | unterminatedRawString (quote : Char)
  | unterminatedTemplate
  | newlineInTemplate
  | unclosedInterpolation
  | quoteInInterpolation
  | unterminatedBlockComment
  | escape (e : EscapeCause)
  | notEnoughColourDigits (digits : Nat)
  | tooManyColourDigits (digits : Nat)
  | missingDigits (base : Base)
  | integerOverflow
  | unknownDirective (name : String)
  | nestedMacro
  | macroNameExpected
  | malformedMacroName (found : Char)
  | unexpectedContinuation
  | continuationWithoutNewline
  | sourceTooLarge
deriving DecidableEq, Repr

/-- an escape sequence as messages show it, its backslash included -/
def escapeShown (c : Char) : String := String.ofList ['`', '\\', c, '`']

/-- what is wrong with an escape sequence, in words -/
def EscapeCause.text : EscapeCause → String
  | .unknown c => "unknown escape sequence " ++ escapeShown c
  | .empty => "empty escape sequence"
  | .notEnoughDigits c expected found =>
    "escape " ++ escapeShown c ++ s!" needs {expected} hex digits, found {found}"
  | .invalidCodePoint value => "escape names invalid code point U+" ++ baseText 16 4 value

/-- what is wrong, in words -/
def Cause.text : Cause → String
  | .unterminatedString => "unterminated string literal"
  | .newlineInString => "newline in string literal"
  | .unterminatedRawString _ => "unterminated raw string literal"
  | .unterminatedTemplate => "unterminated template string"
  | .newlineInTemplate => "newline in template string"
  | .unclosedInterpolation => "unclosed interpolation section"
  | .quoteInInterpolation => "quote inside interpolation section"
  | .unterminatedBlockComment => "unterminated block comment"
  | .escape e => e.text
  | .notEnoughColourDigits n => s!"colour literal has {n} hex digits, expected 6"
  | .tooManyColourDigits n => s!"colour literal has {n} hex digits, expected 6"
  | .missingDigits base => "missing digits after " ++ base.name ++ " prefix"
  | .integerOverflow => "integer literal is too large"
  | .unknownDirective name => "unknown directive `#" ++ name ++ "`"
  | .nestedMacro => "`#macro` inside a macro body"
  | .macroNameExpected => "expected macro name"
  | .malformedMacroName c =>
    "malformed macro identifier starting with " ++ String.ofList ['`', c, '`']
  | .unexpectedContinuation => "unexpected line continuator"
  | .continuationWithoutNewline => "line continuator must be followed by a newline"
  | .sourceTooLarge => "source exceeds 4 GiB"

/-! ## why -/

/-- the construct that was being read, with the offset where it begins if it has one -/
inductive Context where
  | topLevel
  | macroBody (start : Nat)
  | interpolation (start : Nat)
  | insideString (start : Nat)
  | insideTemplate (start : Nat)
  | blockComment (start : Nat)
  | numberLiteral
  | directive
deriving DecidableEq, Repr

/-- the construct in which a cause arises, given where it begins -/
def Cause.context (start : Nat) : Cause → Context
  | .unterminatedString => .insideString start
  | .newlineInString => .insideString start
  | .unterminatedRawString _ => .insideString start
  | .unterminatedTemplate => .insideTemplate start
  | .newlineInTemplate => .insideTemplate start
  | .unclosedInterpolation => .interpolation start
  | .quoteInInterpolation => .interpolation start
  | .unterminatedBlockComment => .blockComment start
  | .escape _ => .topLevel
  | .notEnoughColourDigits _ => .numberLiteral
  | .tooManyColourDigits _ => .numberLiteral
  | .missingDigits _ => .numberLiteral
  | .integerOverflow => .numberLiteral
  | .unknownDirective _ => .directive
  | .nestedMacro => .macroBody start
  | .macroNameExpected => .directive
  | .malformedMacroName _ => .directive
  | .unexpectedContinuation => .topLevel
  | .continuationWithoutNewline => .macroBody start
  | .sourceTooLarge => .topLevel

/-! ## how -/

/-- a text edit: what the span holds becomes the text -/
structure Replacement where
  span : Span
  text : String
deriving DecidableEq, Repr

/-- a way to go on; the lower the priority number, the likelier it helps -/
structure Suggestion where
  message : String
  replacement : Option Replacement
  priority : Nat
deriving DecidableEq, Repr

namespace Suggestion

/-- advice without an edit -/
def advice (message : String) (priority : Nat) : Suggestion := ⟨message, none, priority⟩

/-- an edit of a span -/
def replace (message : String) (span : Span) (text : String) : Suggestion :=
  ⟨message, some ⟨span, text⟩, 0⟩

/-- an edit that deletes a span -/
def removal (message : String) (span : Span) : Suggestion := replace message span ""

end Suggestion

/-- the escape sequences, as a suggestion lists them -/
def validEscapes : String :=
  "valid escapes are: \\\\, \\\", \\', \\n, \\r, \\t, \\b, \\f, \\v, \\a, \\0-\\7, \\xHH, \\uHHHH"

/-- what to do about a cause; edits are of the byte at the position -/
def Cause.suggestions (p : Position) : Cause → List Suggestion
  | .unterminatedString => [.advice "add closing `\"`" 0]
  | .newlineInString =>
    [.replace "escape the line break" ⟨p.offset, p.offset + 1⟩ "\\n",
      .advice "use a raw string `@\"...\"` for multi-line text" 1]
  | .unterminatedRawString quote =>
    [.advice ("add closing " ++ String.ofList ['`', quote, '`']) 0]
  | .unterminatedTemplate => [.advice "add closing `\"`" 0]
  | .newlineInTemplate => []
  | .unclosedInterpolation => [.advice "add `\x7d` to close the section" 0]
  | .quoteInInterpolation => [.advice "move the string into a variable outside the template" 1]
  | .unterminatedBlockComment => [.advice "add closing `*/`" 0]
  | .escape (.unknown _) => [.advice validEscapes 1]
  | .escape .empty => [.advice "use `\\\\` for a literal backslash" 0]
  | .escape (.notEnoughDigits _ _ _) => []
  | .escape (.invalidCodePoint _) => []
  | .notEnoughColourDigits _ => [.advice "write colours as `#RRGGBB`" 0]
  | .tooManyColourDigits _ => [.advice "write colours as `#RRGGBB`" 0]
  | .missingDigits _ => []
  | .integerOverflow => [.advice "use a smaller value (maximum is 18446744073709551615)" 1]
  | .unknownDirective _ =>
    [.advice "known directives are `#macro`, `#region` and `#endregion`" 1]
  | .nestedMacro => [.advice "end the enclosing macro with a newline first" 0]
  | .macroNameExpected => []
  | .malformedMacroName _ => [.advice "macro names start with a letter or `_`" 0]
  | .unexpectedContinuation => [.removal "remove the backslash" ⟨p.offset, p.offset + 1⟩]
  | .continuationWithoutNewline => []
  | .sourceTooLarge => []

/-! ## errors -/

/-- why a scan failed -/
structure LexError where
  position : Position
  cause : Cause
  context : Context
  suggestions : List Suggestion
deriving DecidableEq, Repr

namespace LexError

/-- the error of a cause in a construct that begins at the offset `start` -/
def report (cause : Cause) (position : Position) (start : Nat) : LexError :=
  ⟨position, cause, cause.context start, cause.suggestions position⟩

/-- the error with another context -/
def withContext (e : LexError) (context : Context) : LexError := { e with context }

/-- the error with a further suggestion -/
def withSuggestion (e : LexError) (s : Suggestion) : LexError :=
  { e with suggestions := e.suggestions ++ [s] }

/-- an escape sequence that failed, placed in a source -/
def ofEscape (cause : EscapeCause) (position : Position) (context : Context) : LexError :=
  (report (.escape cause) position 0).withContext context

/-- a source whose offsets would not be counts is refused as a whole -/
def ofSourceSize : LexError := report .sourceTooLarge .start 0

/-- cause and place in words -/
def message (e : LexError) : String := e.cause.text ++ " at " ++ e.position.display

/-- every edit that is suggested ends within the counts -/
def Fits (e : LexError) : Prop :=
  ∀ s ∈ e.suggestions, ∀ r ∈ s.replacement, r.span.stop ≤ countLimit

instance (e : LexError) : Decidable e.Fits :=
  inferInstanceAs (Decidable (∀ s ∈ e.suggestions, ∀ r ∈ s.replacement, r.span.stop ≤ countLimit))

/-- an error fits as soon as a byte follows its position within the counts -/
theorem report_fits (cause : Cause) (p : Position) (start : Nat) (h : p.offset < countLimit) :
    (report cause p start).Fits := by
  unfold Fits report
  cases cause with
  | newlineInString => simpa [Cause.suggestions, Suggestion.replace, Suggestion.advice] using Nat.succ_le_of_lt h
  | unexpectedContinuation =>
    simpa [Cause.suggestions, Suggestion.removal, Suggestion.replace] using Nat.succ_le_of_lt h
  | escape e => cases e <;> simp [Cause.suggestions, Suggestion.advice]
  | _ => simp [Cause.suggestions, Suggestion.advice]

end LexError

end ScriptLexer

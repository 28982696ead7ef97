import ScriptLexer.Scan.Front

/-!
# The state of a scan

What a scan remembers of the text that it has read:

* `State`     of a list of tokens: the tokens so far, the last one first, how many characters were
              read, the position, what ends right there, and how many braces are open;
* `Draft`     of a template: its text so far and the same text with sections replaced by their
              numbers, both with the last character first, and the sections, the last one first.

A line break is special in one way only: the token of a line break stops on the line that it ends
(`stopOf`), while the scan goes on at the beginning of the next one.
-/

namespace ScriptLexer

/-! ## lists of tokens -/

/-- where a token of the kind `k` stops that begins at `p` with the text `text` -/
def stopOf (k : Kind) (p : Position) (text : List Char) : Position :=
  if k = .atom .newline then p.along text else p.advance text

/-- the braces that are open behind an atom, if `depth` are open in front of it -/
def braceDepth (depth : Nat) : Kind → Nat
  | .atom (.dual .openBrace .symbol) => depth + 1
  | .atom (.dual .closeBrace .symbol) => depth - 1
  | _ => depth

/-- what a scan has read of a list of tokens -/
structure State where
  tokens : List Token
  count : Nat
  position : Position
  behind : Behind
  depth : Nat

/-- a list of tokens that has been read to its end: how many characters that took, where it ends,
and how -/
structure Scan where
  tokens : List Token
  count : Nat
  stop : Position
  exit : Exit

namespace State

/-- nothing read, at the position `p` -/
def start (p : Position) : State := ⟨[], 0, p, .nothing, 0⟩

/-- one more character, without a token -/
def skip (st : State) (c : Char) : State :=
  { st with count := st.count + 1, position := st.position.next c, behind := .nothing }

/-- one more token, of the kind `k` and with the text `text` -/
def push (st : State) (k : Kind) (text : List Char) : State where
  tokens := ⟨k, st.position, stopOf k st.position text⟩ :: st.tokens
  count := st.count + text.length
  position := st.position.advance text
  behind := k.behind
  depth := braceDepth st.depth k

/-- the list is complete -/
def finish (st : State) (exit : Exit) : Scan := ⟨st.tokens.reverse, st.count, st.position, exit⟩

end State

/-- where the token that marks the end of input stands: behind the line break or brace that ended the
scan, a line break counted on its own line -/
def Scan.endPosition (s : Scan) : Position :=
  match s.exit with
  | .endOfInput => s.stop
  | .newline => s.stop.along ['\n']
  | .brace => s.stop.along ['}']

/-! ## templates -/

/-- what a scan has read of a template, with the position and the number of bytes that it has come to -/
structure Draft where
  lexeme : List Char
  numbered : List Char
  sections : List (Section Token)
  position : Position
  size : Nat

/-- a template that has been read to its closing quote -/
structure TemplateScan where
  template : Template Token
  body : List Char

namespace Draft

/-- nothing read, at the position `p` -/
def start (p : Position) : Draft := ⟨[], [], [], p, 0⟩

/-- more text that stands for itself -/
def addText (d : Draft) (text : List Char) : Draft :=
  { d with
    lexeme := text.reverse ++ d.lexeme
    numbered := text.reverse ++ d.numbered
    position := d.position.advance text
    size := d.size + byteLength text }

/-- one more section, with the text `text` between its braces; `base` is where the template's own
text begins -/
def addSection (d : Draft) (base : Nat) (text : List Char) (tokens : List Token) : Draft :=
  let whole := '{' :: text ++ ['}']
  let relative : Span := ⟨d.size, d.size + byteLength whole⟩
  { lexeme := whole.reverse ++ d.lexeme
    numbered := (Nat.toDigits 10 d.sections.length).reverse ++ d.numbered
    sections := ⟨relative.shift base, relative, tokens⟩ :: d.sections
    position := d.position.advance whole
    size := relative.stop }

/-- the template is complete: its text, with the numbers for the sections, is decoded -/
def finish (d : Draft) (start : Position) : Except LexError TemplateScan :=
  let body := d.lexeme.reverse
  match decodeEscapes d.numbered.reverse with
  | .ok text =>
    .ok ⟨⟨String.ofList body, String.ofList text, d.sections.reverse⟩, body⟩
  | .error e => .error (.ofEscape e.cause start (.insideTemplate start.offset))

end Draft

end ScriptLexer

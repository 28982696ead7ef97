import ScriptLexer.Position
import ScriptLexer.Text.CharClass

/-!
# Cursors

A cursor walks over a text one character at a time, both ways, and knows its byte offset.  It is
kept as the characters behind it, the nearest first, and those in front of it, so it stands on a
character boundary by construction and every move keeps the text (the lemmas `text_…`).

Reading at the end gives nothing and moves nothing.  Only `seek?` and `slice?` can refuse, because
only they are given byte offsets: one past the end or inside a character is none of theirs.

`eatLine` looks for a line break among the BYTES of what is left and jumps there, which is sound
because the byte of a line break occurs in no other character.
-/

namespace ScriptLexer

/-- a place in a text: what lies behind it, the nearest character first, and what is left -/
structure Cursor where
  behind : List Char
  rest : List Char
deriving DecidableEq, Repr

namespace Cursor

/-- the cursor at the beginning of a text -/
def ofText (text : List Char) : Cursor := ⟨[], text⟩

/-- the whole text -/
def text (c : Cursor) : List Char := c.behind.reverse ++ c.rest

/-- the byte offset -/
def offset (c : Cursor) : Nat := byteLength c.behind

/-- the length of the whole text in bytes -/
def length (c : Cursor) : Nat := byteLength c.behind + byteLength c.rest

def isEmpty (c : Cursor) : Bool := c.behind.isEmpty && c.rest.isEmpty

def atEnd (c : Cursor) : Bool := c.rest.isEmpty

/-! ## reading -/

/-- the next character -/
def peek? (c : Cursor) : Option Char := c.rest.head?

/-- the character that `n` others separate from the cursor -/
def peekNth? (c : Cursor) (n : Nat) : Option Char := c.rest[n]?

/-- the cursor behind the next `n` characters, or at the end -/
def skip (c : Cursor) (n : Nat) : Cursor :=
  ⟨(c.rest.take n).reverse ++ c.behind, c.rest.drop n⟩

/-- the next character with the cursor behind it -/
def read? (c : Cursor) : Option (Char × Cursor) :=
  match c.rest with
  | [] => none
  | x :: rest => some (x, ⟨x :: c.behind, rest⟩)

/-- the cursor one character back, or where it is at the beginning -/
def rewind (c : Cursor) : Cursor :=
  match c.behind with
  | [] => c
  | x :: behind => ⟨behind, x :: c.rest⟩

/-! ## conditional moves -/

/-- the cursor behind the next character, if that is one of a class -/
def eatIf? (c : Cursor) (p : Char → Bool) : Option Cursor :=
  match c.rest with
  | [] => none
  | x :: rest => if p x then some ⟨x :: c.behind, rest⟩ else none

/-- the cursor behind a literal text, if that comes next -/
def eatText? (c : Cursor) (literal : List Char) : Option Cursor :=
  if literal.isPrefixOf c.rest then some (c.skip literal.length) else none

/-- the longest run of a class that comes next, with the cursor behind it -/
def eatWhile (c : Cursor) (p : Char → Bool) : List Char × Cursor :=
  let run := c.rest.takeWhile p
  (run, ⟨run.reverse ++ c.behind, c.rest.dropWhile p⟩)

/-- the text up to the next character of a class, with the cursor in front of that character, or
behind it -/
def eatUntil (c : Cursor) (p : Char → Bool) (inclusive : Bool) : List Char × Cursor :=
  let (run, d) := c.eatWhile fun x => !p x
  (run, if inclusive then d.skip 1 else d)

/-- the cursor behind the blanks that come next -/
def eatBlanks (c : Cursor) : Cursor := (c.eatWhile isBlank).2

/-! ## byte offsets -/

/-- the cursor at a byte offset of its text, unless that is no character boundary -/
def seek? (c : Cursor) (offset : Nat) : Option Cursor :=
  (charIndex? offset c.text).map (ofText c.text).skip

/-- the text between two byte offsets -/
def slice? (c : Cursor) (start stop : Nat) : Option (List Char) :=
  ScriptLexer.slice? c.text start stop

/-- the text from a byte offset to the cursor -/
def sliceFrom? (c : Cursor) (start : Nat) : Option (List Char) := c.slice? start c.offset

/-- the UTF-8 encoding of a text -/
def utf8 (cs : List Char) : List UInt8 := cs.flatMap String.utf8EncodeChar

/-- the number of bytes in front of the first line break, or of all bytes -/
def lineBytes (cs : List Char) : Nat := (utf8 cs).idxOf 10

/-- the rest of the line, with the cursor in front of the line break that ends it or at the end -/
def eatLine (c : Cursor) : List Char × Cursor :=
  let count := (charIndex? (lineBytes c.rest) c.rest).getD c.rest.length
  (c.rest.take count, c.skip count)

/-! ## the text stays -/

theorem text_ofText (text : List Char) : (ofText text).text = text := rfl

theorem offset_ofText (text : List Char) : (ofText text).offset = 0 := rfl

theorem length_eq (c : Cursor) : c.length = byteLength c.text := by
  rw [length, text, byteLength_append, byteLength_reverse]

/-- the offset of a cursor is a character boundary of its text -/
theorem charIndex?_offset (c : Cursor) : charIndex? c.offset c.text = some c.behind.length := by
  rw [offset, ← byteLength_reverse, text, charIndex?_append, List.length_reverse]

theorem text_skip (c : Cursor) (n : Nat) : (c.skip n).text = c.text := by
  simp [text, skip]

theorem text_read? {c d : Cursor} {x : Char} (h : c.read? = some (x, d)) : d.text = c.text := by
  unfold read? at h
  split at h
  · cases h
  · rename_i e
    cases h
    simp [text, e]

theorem text_rewind (c : Cursor) : c.rewind.text = c.text := by
  unfold rewind
  split
  · rfl
  · rename_i e
    simp [text, e]

theorem text_eatIf? {c d : Cursor} {p : Char → Bool} (h : c.eatIf? p = some d) :
    d.text = c.text := by
  unfold eatIf? at h
  split at h
  · cases h
  · rename_i e
    split at h
    · cases h
      simp [text, e]
    · cases h

theorem text_eatText? {c d : Cursor} {literal : List Char} (h : c.eatText? literal = some d) :
    d.text = c.text := by
  unfold eatText? at h
  split at h
  · cases h
    exact text_skip c _
  · cases h

theorem text_eatWhile (c : Cursor) (p : Char → Bool) : (c.eatWhile p).2.text = c.text := by
  simp [text, eatWhile]

theorem text_eatUntil (c : Cursor) (p : Char → Bool) (inclusive : Bool) :
    (c.eatUntil p inclusive).2.text = c.text := by
  unfold eatUntil
  cases inclusive
  · exact text_eatWhile c _
  · exact (text_skip _ 1).trans (text_eatWhile c _)

theorem text_eatLine (c : Cursor) : c.eatLine.2.text = c.text := text_skip c _

theorem text_seek? {c d : Cursor} {n : Nat} (h : c.seek? n = some d) : d.text = c.text := by
  obtain ⟨k, _, rfl⟩ := Option.map_eq_some_iff.mp h
  exact text_skip _ k

/-- reading and rewinding lead back -/
theorem rewind_read? {c d : Cursor} {x : Char} (h : c.read? = some (x, d)) : d.rewind = c := by
  unfold read? at h
  split at h
  · cases h
  · rename_i e
    cases h
    show (⟨c.behind, x :: _⟩ : Cursor) = c
    rw [← e]

end Cursor

end ScriptLexer

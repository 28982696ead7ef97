import ScriptLexer.Cursor
import ScriptLexer.Machine.Checks

/-!
# A reader by byte offsets

A reader is a text with a byte offset in it.  Its operations slice the text at that offset and at
others that they compute, where a `Cursor` only moves characters from one list to another.

A scan makes use of a part of what a reader can do.  The rest is a look further ahead, moves over a
number of characters, to an offset and up to a character of a class, and the rest of a line, found by a
search among the bytes that is a parameter.
-/

namespace ScriptLexer

/-- a text and a byte offset in it -/
structure Reader where
  text : List Char
  pos : Nat
deriving DecidableEq, Repr

namespace Reader

variable {ε : Type}

def ofText (text : List Char) : Reader := ⟨text, 0⟩

/-- the length of the text in bytes -/
def length (r : Reader) : Nat := byteLength r.text

/-- the turns that a loop over the text is given -/
def turns (r : Reader) : Nat := r.text.length + 1

/-- the text from the offset on -/
def remaining (r : Reader) : Run ε (List Char) := Run.slice r.text r.pos r.length

/-- the next character -/
def peek (r : Reader) : Run ε (Option Char) := do
  return (← r.remaining).head?

/-- the next character, with the reader behind it -/
def read (r : Reader) : Run ε (Option Char × Reader) := do
  match ← r.peek with
  | none => return (none, r)
  | some c => return (some c, { r with pos := r.pos + c.utf8Size })

/-- the reader one character back -/
def rewind (r : Reader) : Run ε Reader := do
  match (← Run.slice r.text 0 r.pos).getLast? with
  | none => return r
  | some c => return { r with pos := ← Run.subtract r.pos c.utf8Size }

/-- takes the next character if it is one of a class -/
def eatIf (p : Char → Bool) (r : Reader) : Run ε (Bool × Reader) := do
  match ← r.peek with
  | none => return (false, r)
  | some c => if p c then return (true, { r with pos := r.pos + c.utf8Size }) else return (false, r)

/-- takes a text if it comes next -/
def eatText (literal : List Char) (r : Reader) : Run ε (Bool × Reader) := do
  if literal.isPrefixOf (← r.remaining) then
    return (true, { r with pos := r.pos + byteLength literal })
  else return (false, r)

def eatWhileLoop (p : Char → Bool) : Nat → Reader → Run ε Reader
  | 0, _ => Run.fault .turns
  | n + 1, r => do
    let (taken, r) ← r.eatIf p
    if taken then eatWhileLoop p n r else return r

/-- takes the longest run of a class -/
def eatWhile (p : Char → Bool) (r : Reader) : Run ε (List Char × Reader) := do
  let s ← eatWhileLoop p r.turns r
  return (← Run.slice r.text r.pos s.pos, s)

/-- takes the rest of the line, the end of which is found among the bytes -/
def eatLine (r : Reader) : Run ε (List Char × Reader) := do
  let s : Reader := { r with pos := r.pos + Cursor.lineBytes (← r.remaining) }
  return (← Run.slice r.text r.pos s.pos, s)

/-! ## what a scan does not need -/

/-- the character that `n` others separate from the reader -/
def peekNth (n : Nat) (r : Reader) : Run ε (Option Char) := do
  return (← r.remaining)[n]?

/-- the reader behind the next `n` characters, or at the end -/
def skip : Nat → Reader → Run ε Reader
  | 0, r => return r
  | n + 1, r => do
    let (c, r) ← r.read
    if c.isNone then return r else skip n r

/-- the reader at an offset, which has to be a character boundary -/
def seek (offset : Nat) (r : Reader) : Run ε Reader :=
  if IsBoundary r.text offset then return { r with pos := offset } else Run.fault .slice

/-- takes what stands in front of the next character of a class, and that character too if it is asked
to -/
def eatUntil (p : Char → Bool) (inclusive : Bool) (r : Reader) : Run ε (List Char × Reader) := do
  let (taken, s) ← r.eatWhile fun c => !p c
  if inclusive then return (taken, (← s.read).2) else return (taken, s)

/-- takes the blanks that come next -/
def eatBlanks (r : Reader) : Run ε Reader := eatWhileLoop isBlank r.turns r

/-- takes the rest of the line, of which `find` finds the end -/
def eatLineBy (find : UInt8 → List UInt8 → Option Nat) (r : Reader) : Run ε (List Char × Reader) := do
  let pos := match find 10 (Cursor.utf8 (← r.remaining)) with
    | some count => r.pos + count
    | none => r.length
  return (← Run.slice r.text r.pos pos, { r with pos := pos })

end Reader

end ScriptLexer

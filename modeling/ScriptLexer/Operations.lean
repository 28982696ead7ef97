import ScriptLexer.Machine.Reader

/-!
# What a cursor can be asked for

The moves of a cursor and the looks ahead that it offers, as one type of operations, so that a use of a
cursor is a list of them.

* `Op`, `Answer`     an operation, and what it gives back;
* `Cursor.perform`   an operation of a cursor; only an offset that is no character boundary is refused;
* `Reader.perform`   the same of a reader by byte offsets, where any check may fail.
-/

namespace ScriptLexer

/-- an operation of a cursor -/
inductive Op where
  | peek
  | peekNth (n : Nat)
  | read
  | skip (n : Nat)
  | rewind
  | seek (offset : Nat)
  | eatIf (p : Char → Bool)
  | eatChar (c : Char)
  | eatAny (set : List Char)
  | eatWhile (p : Char → Bool)
  | eatUntil (p : Char → Bool) (inclusive : Bool)
  | eatText (literal : List Char)
  | eatBlanks
  | eatLine

/-- what an operation gives back -/
inductive Answer where
  | nothing
  | char (c : Option Char)
  | taken (b : Bool)
  | text (t : List Char)
deriving DecidableEq, Repr

/-! ## of a cursor -/

namespace Cursor

/-- a move that is only made if it can be -/
def attempt (c : Cursor) (moved : Option Cursor) : Answer × Cursor :=
  (.taken moved.isSome, moved.getD c)

/-- an operation, unless it is refused -/
def perform (c : Cursor) : Op → Option (Answer × Cursor)
  | .peek => some (.char c.peek?, c)
  | .peekNth n => some (.char (c.peekNth? n), c)
  | .read =>
    match c.read? with
    | some (x, d) => some (.char (some x), d)
    | none => some (.char none, c)
  | .skip n => some (.nothing, c.skip n)
  | .rewind => some (.nothing, c.rewind)
  | .seek offset => (c.seek? offset).map fun d => (.nothing, d)
  | .eatIf p => some (c.attempt (c.eatIf? p))
  | .eatChar x => some (c.attempt (c.eatIf? (· == x)))
  | .eatAny set => some (c.attempt (c.eatIf? fun x => set.contains x))
  | .eatWhile p => some (.text (c.eatWhile p).1, (c.eatWhile p).2)
  | .eatUntil p inclusive => some (.text (c.eatUntil p inclusive).1, (c.eatUntil p inclusive).2)
  | .eatText literal => some (c.attempt (c.eatText? literal))
  | .eatBlanks => some (.nothing, c.eatBlanks)
  | .eatLine => some (.text c.eatLine.1, c.eatLine.2)

/-- one operation after another, unless one is refused -/
def performAll (c : Cursor) : List Op → Option (List Answer × Cursor)
  | [] => some ([], c)
  | op :: ops => do
    let (answer, d) ← c.perform op
    let (answers, e) ← d.performAll ops
    return (answer :: answers, e)

end Cursor

/-! ## of a reader -/

namespace Reader

/-- an operation, the rest of a line being looked for with `find`; a reader has no errors of its own -/
def perform (find : UInt8 → List UInt8 → Option Nat) (r : Reader) :
    Op → Run Empty (Answer × Reader)
  | .peek => do return (.char (← r.peek), r)
  | .peekNth n => do return (.char (← r.peekNth n), r)
  | .read => do
    let (c, s) ← r.read
    return (.char c, s)
  | .skip n => do return (.nothing, ← r.skip n)
  | .rewind => do return (.nothing, ← r.rewind)
  | .seek offset => do return (.nothing, ← r.seek offset)
  | .eatIf p => do
    let (b, s) ← r.eatIf p
    return (.taken b, s)
  | .eatChar c => do
    let (b, s) ← r.eatIf (· == c)
    return (.taken b, s)
  | .eatAny set => do
    let (b, s) ← r.eatIf fun c => set.contains c
    return (.taken b, s)
  | .eatWhile p => do
    let (t, s) ← r.eatWhile p
    return (.text t, s)
  | .eatUntil p inclusive => do
    let (t, s) ← r.eatUntil p inclusive
    return (.text t, s)
  | .eatText literal => do
    let (b, s) ← r.eatText literal
    return (.taken b, s)
  | .eatBlanks => do return (.nothing, ← r.eatBlanks)
  | .eatLine => do
    let (t, s) ← r.eatLineBy find
    return (.text t, s)

/-- one operation after another -/
def performAll (find : UInt8 → List UInt8 → Option Nat) (r : Reader) :
    List Op → Run Empty (List Answer × Reader)
  | [] => return ([], r)
  | op :: ops => do
    let (answer, s) ← r.perform find op
    let (answers, s) ← s.performAll find ops
    return (answer :: answers, s)

end Reader

end ScriptLexer

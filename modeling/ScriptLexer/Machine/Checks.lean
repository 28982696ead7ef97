import ScriptLexer.Text.Splice
import ScriptLexer.Token.Basic

/-!
# Checked operations

The library computes on lists of characters, where nothing can go wrong.  A program on the bytes of a
text has to get its numbers right: every slice must lie on character boundaries, no count may leave
its 32 bits, no difference may be negative.  Here are these operations with their checks.

* `Fault`      a check that fails;
* `Run ε α`    a computation that gives an `α`, or stops with an error `ε`, or with a fault;
* `Run.slice`, `Run.increment`, `Run.subtract`, `Run.replaceBackward`, `Run.token`   the operations.

A loop is given a number of turns, and running out of turns is a fault too.
-/

namespace ScriptLexer

/-- a check that fails: a slice or a replacement that is out of range, reversed or inside a character,
a count that has no 32 bits, a negative difference, a token that stops in front of its start, or a loop
that goes on after its last turn -/
inductive Fault where
  | slice
  | replacement
  | overflow
  | underflow
  | token
  | turns
deriving DecidableEq, Repr

/-- why a computation stops early -/
inductive Stop (ε : Type) where
  | fault (f : Fault)
  | error (e : ε)
deriving Repr

/-- a computation whose checks may fail -/
abbrev Run (ε α : Type) : Type := Except (Stop ε) α

namespace Run

variable {ε ε' α : Type}

def fault (f : Fault) : Run ε α := .error (.fault f)

def fail (e : ε) : Run ε α := .error (.error e)

/-- the same computation with other errors -/
def withError (g : ε → ε') : Run ε α → Run ε' α
  | .ok x => .ok x
  | .error (.fault f) => fault f
  | .error (.error e) => fail (g e)

/-- a result that cannot be a fault -/
def ofExcept (r : Except ε α) : Run ε α := r.mapError .error

/-! ## the operations -/

/-- the text between two byte offsets -/
def slice (text : List Char) (start stop : Nat) : Run ε (List Char) :=
  match slice? text start stop with
  | some t => .ok t
  | none => fault .slice

/-- a value that must be a count -/
def count (n : Nat) : Run ε Nat := if n ≤ countLimit then .ok n else fault .overflow

def increment (n : Nat) : Run ε Nat := count (n + 1)

def subtract (n k : Nat) : Run ε Nat := if k ≤ n then .ok (n - k) else fault .underflow

/-- a span of the source, counted from `base` -/
def relativeTo (s : Span) (base : Nat) : Run ε Span :=
  match s.relativeTo? base with
  | some r => .ok r
  | none => fault .underflow

/-- the text with its spans replaced by their numbers, one after another, the last one first -/
def replaceBackward (text : List Char) (spans : List Span) : Run ε (List Char) :=
  match replaceBackward? (Nat.toDigits 10) text spans with
  | some t => .ok t
  | none => fault .replacement

/-- a token, which must not stop in front of its start -/
def token (k : Kind) (start stop : Position) : Run ε Token :=
  if start.offset ≤ stop.offset then .ok ⟨k, start, stop⟩ else fault .token

end Run

end ScriptLexer

import ScriptLexer.Machine.Reader
import ScriptLexer.Scan.State

/-!
# The machine

What a scan by byte offsets keeps: one reader for the whole source, the mode, the line that it counts
as it goes, the tokens of the list that it is in, and those of the lists around it.
-/

namespace ScriptLexer

/-- the state of a scan by byte offsets; the last token comes first, and so does the innermost list -/
structure Machine where
  reader : Reader
  mode : Mode
  line : Nat
  lineStart : Nat
  tokens : List Token
  pending : List (List Token)
  scopeStart : Nat
  inMacro : Bool

namespace Machine

variable {α : Type}

/-- the machine at the beginning of a text, in a mode -/
def start (text : List Char) (mode : Mode) : Machine :=
  ⟨.ofText text, mode, 0, 0, [], [], 0, mode == .macroBody⟩

/-- what the machine is inside of -/
def scope (m : Machine) : Scope := ⟨m.mode, m.scopeStart, m.inMacro⟩

/-- the machine inside of a macro body, or out of it -/
def setMacro (m : Machine) (inMacro : Bool) : Machine := { m with inMacro }

/-- an inner list begins; the tokens of the outer one are put aside -/
def enter (mode : Mode) (scopeStart : Nat) (m : Machine) : Machine :=
  { m with mode, scopeStart, tokens := [], pending := m.tokens :: m.pending }

/-- an inner list is over; the outer one, in the mode and the scope from before, is taken up again -/
def resume (mode : Mode) (scopeStart : Nat) (m : Machine) : Machine :=
  { m with mode, scopeStart, tokens := m.pending.headD [], pending := m.pending.tail }

/-! ## places -/

/-- a number cut down to 32 bits -/
def toCount (n : Nat) : Nat := n % (countLimit + 1)

def offset (m : Machine) : Nat := toCount m.reader.pos

/-- another offset on the line that the machine is on -/
def positionAt (m : Machine) (offset : Nat) : Position := ⟨offset, m.line, m.lineStart⟩

def position (m : Machine) : Position := m.positionAt m.offset

/-- the reader has got behind a line break -/
def newLine (m : Machine) : Run LexError Machine := do
  return { m with line := ← Run.increment m.line, lineStart := m.offset }

/-! ## moves -/

def moved (m : Machine) (r : Reader) : Machine := { m with reader := r }

/-- an operation of the reader -/
def reading (f : Reader → Run LexError (α × Reader)) (m : Machine) : Run LexError (α × Machine) := do
  let (x, r) ← f m.reader
  return (x, m.moved r)

def rewind (m : Machine) : Run LexError Machine := do
  return m.moved (← m.reader.rewind)

def eatBlanks (m : Machine) : Run LexError Machine := do
  return (← m.reading (Reader.eatWhile isBlank)).2

/-- one more token, from `start` to the place that the machine has come to -/
def push (m : Machine) (k : Kind) (start : Position) : Run LexError Machine := do
  return { m with tokens := (← Run.token k start m.position) :: m.tokens }

/-- the text from an offset to some bytes in front of the reader -/
def sliceBack (m : Machine) (start back : Nat) : Run LexError (List Char) := do
  Run.slice m.reader.text start (← Run.subtract m.reader.pos back)

end Machine

end ScriptLexer

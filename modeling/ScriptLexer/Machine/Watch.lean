import ScriptLexer.Machine.Scan

/-!
# The machine, watched

`Machine.scan` gives no machine back when it fails.  Here the machine is kept when an error passes
through, so one can ask what an error leaves behind; and all that the machine comes to is written down.

* `Watch`          the machine, with the modes of the lists that are being scanned and with what was
                   seen so far;
* `Watched α`      a computation on that which may stop early: a stage that the scan can be carried out
                   on (`Stage`);
* `Watched.scan`   the scan of a source on this stage.

Between a macro body and its mark nothing is read and nothing is looked at: the mark is set in front of
the body's list and taken away behind it.
-/

namespace ScriptLexer

/-- a machine, the mode that its scan began in, the modes of the inner lists that are being scanned, the
innermost first, and everything that was seen so far, the last first -/
structure Watch where
  machine : Machine
  first : Mode
  active : List Mode
  seen : List (List Mode × Machine)

namespace Watch

/-- the scan of a text begins -/
def start (text : List Char) (mode : Mode) : Watch := ⟨.start text mode, mode, [], []⟩

/-- what there is now is written down -/
def see (w : Watch) : Watch := { w with seen := (w.active, w.machine) :: w.seen }

/-- the machine has become `m` -/
def goTo (m : Machine) (w : Watch) : Watch := ({ w with machine := m } : Watch).see

/-- an inner list begins -/
def enter (mode : Mode) (scopeStart : Nat) (w : Watch) : Watch :=
  let m := w.machine.enter mode scopeStart
  ({ w with machine := m, active := mode :: w.active } : Watch).see

/-- an inner list is over -/
def leave (mode : Mode) (scopeStart : Nat) (w : Watch) : Watch :=
  { w with machine := w.machine.resume mode scopeStart, active := w.active.tail }

/-- the mark of a macro body is set or taken away -/
def setMacro (inMacro : Bool) (w : Watch) : Watch := { w with machine := w.machine.setMacro inMacro }

/-- the watch behind a computation, however that ended -/
def behind {α : Type} : EStateM.Result (Stop LexError) Watch α → Watch
  | .ok _ w => w
  | .error _ w => w

end Watch

/-- a computation that keeps the machine also when it stops early -/
abbrev Watched : Type → Type := EStateM (Stop LexError) Watch

namespace Watched

variable {α : Type}

def machine : Watched Machine := return (← get).machine

/-- the result of an operation that needs no machine -/
def settle : Run LexError α → Watched α
  | .ok x => pure x
  | .error stop => throw stop

/-- what a computation has come to, without the watch behind it -/
def outcome : EStateM.Result (Stop LexError) Watch α → Run LexError α
  | .ok x _ => .ok x
  | .error stop _ => .error stop

/-- what was seen when a computation has ended -/
def log (x : Watched α) (w : Watch) : List (List Mode × Machine) := (Watch.behind (x.run w)).seen

/-- a computation that goes on behind an error -/
def attempt (x : Watched α) : Watched (Run LexError α) := fun w =>
  .ok (outcome (x.run w)) (.behind (x.run w))

/-- an operation of the machine, whose result has the machine behind it; one that fails leaves the machine
as it was, since the place that its reader had come to is of no use -/
def perform (out : α → Machine) (f : Machine → Run LexError α) (m : Machine) : Watched α := do
  modify Watch.see
  let x ← settle (f m)
  modify (Watch.goTo (out x))
  return x

/-- scans an inner list in another mode; the outer list is taken up again also behind an error -/
def scanNested (scan : ScannerOn Watched) (mode : Mode) (scopeStart : Nat) (outer : Machine) :
    Watched ((List Token × Exit) × Machine) := do
  modify (Watch.enter mode scopeStart)
  let result ← attempt (scan (← machine))
  let inner ← machine
  modify (Watch.leave outer.mode outer.scopeStart)
  let (exit, _) ← settle result
  return ((inner.tokens.reverse, exit), ← machine)

/-- the body of a macro, between the marks; the mark is taken away also behind an error -/
def macroBody (scan : ScannerOn Watched) (nameStart : Nat) (m : Machine) :
    Watched ((List Token × Exit) × Machine) := do
  modify (Watch.setMacro true)
  let result ← attempt (scanNested scan .macroBody nameStart (m.setMacro true))
  modify (Watch.setMacro false)
  let (body, _) ← settle result
  return (body, ← machine)

instance : Stage Watched where
  settle := settle
  perform := perform
  scanNested := scanNested
  macroBody := macroBody

/-- the tokens of a source, and the watch behind the scan -/
def scan (source : String) (mode : Mode) : EStateM.Result (Stop LexError) Watch (List Token) :=
  EStateM.run (do return (← Machine.toEnd (.start source.toList mode)).tokens.reverse)
    (.start source.toList mode)

end Watched

end ScriptLexer

import ScriptLexer.Proofs.Machine.Progress

/-!
# What an inner list leaves behind

The machine scans the sections of a template and the body of a macro in a mode and a scope of their own,
and takes up the outer list again, also when the inner one has failed.  Then nothing has changed but the
cursor, and how the inner list ended says where that is.

* `Watch.Restored`       the outer list, and all that the machine is inside of, are as they were;
* `Machine.EndsList`     the reader is behind what ended a list, and the line breaks in front of that are
                         counted;
* `scanNested_restores`  both, from every state of the machine.

No state is excluded, be it one that a scan can come to or not: a reader that is inside of a character
fails before it has read anything.
-/

namespace ScriptLexer

variable {ε : Type}

/-! ## boundaries -/

namespace Machine

variable {m : Machine}

/-- a turn begins with a look at what comes next -/
theorem exists_between_of_eatBlanks {m' : Machine} (h : m.eatBlanks = .ok m') :
    ∃ a b, m.reader = .between a b := by
  cases hrest : (m.reader.remaining : Run LexError (List Char)) with
  | ok b =>
    obtain ⟨a, ha⟩ := Reader.exists_between hrest
    exact ⟨a, b, ha⟩
  | error stop =>
    have hpeek : (m.reader.peek : Run LexError _) = .error stop := by
      rw [Reader.peek, hrest]
      rfl
    have hblanks : m.eatBlanks = .error stop := by
      rw [eatBlanks, reading, Reader.eatWhile, Reader.turns, Reader.eatWhileLoop, Reader.eatIf, hpeek]
      rfl
    rw [hblanks] at h
    cases h

theorem exists_between_of_scanBody {n depth : Nat} {r : Exit × Machine}
    (h : (scanBody n depth m : Run LexError _) = .ok r) : ∃ a b, m.reader = .between a b := by
  cases n with
  | zero => cases h
  | succ n =>
    cases hblanks : m.eatBlanks with
    | ok m' => exact exists_between_of_eatBlanks hblanks
    | error stop =>
      have hturn : (turn (scanBody n 0) depth m : Run LexError _) = .error stop := by
        rw [turn, perform_run, hblanks]
        rfl
      rw [scanBody, hturn] at h
      cases h

/-! ## the end of a list -/

/-- from `m` an inner list was read, which has left the machine `m'` at its end: a section behind its brace,
and the body of a macro behind a line break, which is not counted, or at the end of the text -/
def EndsList (mode : Mode) (m : Machine) (e : Exit) (m' : Machine) : Prop :=
  ∃ a x y, m.reader = .between a (x ++ y) ∧ m'.reader = .between (a ++ x) y ∧
    match e with
    | .brace => mode = .interpolation ∧ (∃ z, x = z ++ ['}']) ∧ m'.line = m.line + x.count '\n'
    | .newline => mode = .macroBody ∧ ∃ z, x = z ++ ['\n'] ∧ m'.line = m.line + z.count '\n'
    | .endOfInput => mode = .macroBody ∧ y = [] ∧ m'.line = m.line + x.count '\n'

theorem endsList_of_closed {mode : Mode} (hmode : mode = .macroBody ∨ mode = .interpolation) {e : Exit}
    {x y : List Char} {k : Nat} {m' : Machine} (hwent : m.Went x y k m')
    (hclosed : Closed mode e x y k) : m.EndsList mode e m' := by
  obtain ⟨a, h₀, h₁⟩ := hwent.reader
  have hline := hwent.line
  refine ⟨a, x, y, h₀, h₁, ?_⟩
  cases hclosed with
  | endOfInput _ hother => exact ⟨hmode.resolve_right hother, rfl, hline⟩
  | newline z _ hmode =>
    refine ⟨hmode, z, rfl, ?_⟩
    rw [List.count_append, List.count_singleton_self] at hline
    omega
  | brace z _ hmode => exact ⟨hmode, ⟨z, rfl⟩, hline⟩

end Machine

/-! ## the outer list -/

namespace Watch

variable {w w' : Watch}

/-- the mode, the scope, the mark of a macro body and the tokens of all lists are as they were -/
structure Restored (w w' : Watch) : Prop where
  frame : w'.machine.frame = w.machine.frame
  tokens : w'.machine.tokens = w.machine.tokens

theorem Kept.restored {mode : Mode} {scopeStart : Nat} (h : (w.enter mode scopeStart).Kept w') :
    w.Restored (w'.leave w.machine.mode w.machine.scopeStart) := by
  have hpending : w'.machine.pending = w.machine.tokens :: w.machine.pending :=
    (Prod.mk.inj h.frame).2
  refine ⟨(Prod.mk.inj h.leave_place).1, ?_⟩
  show w'.machine.pending.headD [] = w.machine.tokens
  rw [hpending]
  rfl

end Watch

/-- what the scan of an inner list comes to, and where it leaves the machine: the outer list is as it was,
also behind a failure, and behind the end of the inner one the cursor stands where that ended -/
inductive Watch.Resumes (w : Watch) (mode : Mode) :
    EStateM.Result (Stop LexError) Watch ((List Token × Exit) × Machine) → Prop where
  | failed {stop : Stop LexError} {w' : Watch} (h : w.Restored w') : w.Resumes mode (.error stop w')
  | ended {tokens : List Token} {e : Exit} {w' : Watch} (h : w.Restored w')
      (hend : w.machine.EndsList mode e w'.machine) :
      w.Resumes mode (.ok ((tokens, e), w'.machine) w')

/-- an inner list disturbs nothing but the cursor -/
theorem scanNested_restores (n scopeStart : Nat) {mode : Mode}
    (hmode : mode = .macroBody ∨ mode = .interpolation) (w : Watch) :
    w.Resumes mode
      ((Watched.scanNested (Machine.scanBody n 0) mode scopeStart w.machine).run w) := by
  have htracks := Watched.scanBody_tracks n 0 (w.enter mode scopeStart)
  rw [Watched.scanNested_run]
  generalize (Machine.scanBody n 0 (w.enter mode scopeStart).machine : Watched _).run
    (w.enter mode scopeStart) = result at htracks ⊢
  cases hs : (Machine.scanBody n 0 (w.enter mode scopeStart).machine : Run LexError _) with
  | error stop =>
    rw [hs] at htracks
    cases htracks with
    | error hkept => exact .failed hkept.restored
  | ok r =>
    obtain ⟨e, m⟩ := r
    rw [hs] at htracks
    cases htracks with
    | @ok _ w' hmachine hkept =>
      obtain rfl : w'.machine = m := hmachine
      obtain ⟨a, b, hreader⟩ := Machine.exists_between_of_scanBody hs
      obtain ⟨hinside, x, y, k, hwent, hclosed⟩ :=
        (Machine.scanBody_lands (fun _ => trivial) 0 hreader).of_ok hs
      rw [hinside] at hclosed
      have hwent' : w.machine.Went x y k w'.machine := ⟨hwent.reader, hwent.line⟩
      have hend := Machine.endsList_of_closed hmode hwent' hclosed
      exact .ended hkept.restored hend

/-- a section with a line break in it, and text behind its brace -/
theorem scanNested_restores_section :
    (Mode.interpolation = .macroBody ∨ Mode.interpolation = .interpolation) ∧
      (Watch.start ['1', '\n', '}', '2'] .plain).Resumes .interpolation
        ((Watched.scanNested (Machine.scanBody 4 0) .interpolation 0
          (Watch.start ['1', '\n', '}', '2'] .plain).machine).run
          (Watch.start ['1', '\n', '}', '2'] .plain)) :=
  ⟨.inr rfl, scanNested_restores 4 0 (.inr rfl) (Watch.start ['1', '\n', '}', '2'] .plain)⟩

end ScriptLexer

import ScriptLexer.Operations
import ScriptLexer.Proofs.Machine.Moves

/-!
# A reader does what a cursor does

* `perform_reader`     the reader at the offset of a cursor answers as the cursor does, goes where it
                       goes, and fails where it refuses;
* `performAll_reader`  so it is for a list of operations.

A reader keeps only a number, and a cursor cannot stand anywhere but on a character boundary: what is
known of cursors is known of the numbers.
-/

namespace ScriptLexer

namespace Cursor

variable {ε : Type} {find : UInt8 → List UInt8 → Option Nat}

/-- the reader that stands where the cursor does -/
def reader (c : Cursor) : Reader := ⟨c.text, c.offset⟩

/-- what a cursor comes to, as a reader comes to it: where the one refuses, a check of the other fails -/
def toRun {α : Type} : Option (α × Cursor) → Run ε (α × Reader)
  | some (x, d) => .ok (x, d.reader)
  | none => Run.fault .slice

/-- the rest of a line ends in front of the first line break -/
theorem eatLine_eq (c : Cursor) : c.eatLine = c.eatWhile (· != '\n') := by
  have hsplit : c.rest.takeWhile (· != '\n') ++ c.rest.dropWhile (· != '\n') = c.rest :=
    List.takeWhile_append_dropWhile
  unfold eatLine eatWhile
  rw [lineBytes_eq]
  generalize c.rest.takeWhile (· != '\n') = line at hsplit ⊢
  generalize c.rest.dropWhile (· != '\n') = rest at hsplit ⊢
  simp only [skip, ← hsplit, charIndex?_append, Option.getD_some, List.take_left, List.drop_left]

theorem reader_eq (c : Cursor) : c.reader = .between c.behind.reverse c.rest := by
  rw [reader, offset, ← byteLength_reverse]
  rfl

/-- the reader behind the characters that come next -/
theorem reader_ahead (behind t rest : List Char) :
    (⟨t.reverse ++ behind, rest⟩ : Cursor).reader = .between (behind.reverse ++ t) rest := by
  rw [reader_eq, List.reverse_append, List.reverse_reverse]

theorem peek_reader (c : Cursor) : (c.reader.peek : Run ε _) = .ok c.peek? := by
  rw [reader_eq, Reader.peek_between]
  rfl

theorem peekNth_reader (c : Cursor) (n : Nat) :
    (c.reader.peekNth n : Run ε _) = .ok (c.peekNth? n) := by
  rw [reader_eq, Reader.peekNth_between]
  rfl

theorem read_reader (c : Cursor) : (c.reader.read : Run ε _) =
    match c.read? with
    | some (x, d) => .ok (some x, d.reader)
    | none => .ok (none, c.reader) := by
  obtain ⟨behind, rest⟩ := c
  rw [reader_eq]
  cases rest with
  | nil => exact Reader.read_nil _
  | cons x rest =>
    rw [Reader.read_cons]
    exact congrArg (fun r => Except.ok (some x, r)) (reader_ahead behind [x] rest).symm

theorem skip_reader (c : Cursor) (n : Nat) : (c.reader.skip n : Run ε _) = .ok (c.skip n).reader := by
  rw [reader_eq, Reader.skip_between, skip, reader_ahead]

theorem rewind_reader (c : Cursor) : (c.reader.rewind : Run ε _) = .ok c.rewind.reader := by
  obtain ⟨behind, rest⟩ := c
  rw [reader_eq, reader_eq]
  cases behind with
  | nil => exact Reader.rewind_nil rest
  | cons x behind =>
    rw [List.reverse_cons, Reader.rewind_between]
    rfl

theorem seek_reader (c : Cursor) (offset : Nat) : (c.reader.seek offset : Run ε _) =
    match c.seek? offset with
    | some d => .ok d.reader
    | none => Run.fault .slice := by
  have htext : c.reader.text = c.text := rfl
  rw [Reader.seek_eq, seek?, htext]
  cases charIndex? offset c.text with
  | none => rfl
  | some k =>
    show _ = Except.ok ((ofText c.text).skip k).reader
    rw [skip, reader_ahead]
    rfl

theorem eatIf_reader (c : Cursor) (p : Char → Bool) : (c.reader.eatIf p : Run ε _)
    = .ok ((c.eatIf? p).isSome, ((c.eatIf? p).getD c).reader) := by
  obtain ⟨behind, rest⟩ := c
  rw [reader_eq]
  cases rest with
  | nil =>
    rw [Reader.eatIf_nil]
    exact congrArg (fun r => Except.ok (false, r)) (reader_eq ⟨behind, []⟩).symm
  | cons x rest =>
    cases hx : p x with
    | false =>
      have hstays : (⟨behind, x :: rest⟩ : Cursor).eatIf? p = none := if_neg (by simp [hx])
      rw [Reader.eatIf_neg hx, hstays]
      exact congrArg (fun r => Except.ok (false, r)) (reader_eq ⟨behind, x :: rest⟩).symm
    | true =>
      have hmoves : (⟨behind, x :: rest⟩ : Cursor).eatIf? p = some ⟨x :: behind, rest⟩ := if_pos hx
      rw [Reader.eatIf_pos hx, hmoves]
      exact congrArg (fun r => Except.ok (true, r)) (reader_ahead behind [x] rest).symm

theorem eatText_reader (c : Cursor) (literal : List Char) : (c.reader.eatText literal : Run ε _)
    = .ok ((c.eatText? literal).isSome, ((c.eatText? literal).getD c).reader) := by
  rw [reader_eq, Reader.eatText_between, eatText?]
  by_cases h : literal.isPrefixOf c.rest = true
  · obtain ⟨rest, hrest⟩ := List.isPrefixOf_iff_prefix.mp h
    have htake : c.rest.take literal.length = literal := by rw [← hrest, List.take_left]
    rw [if_pos h, if_pos h, skip, htake]
    exact congrArg (fun r => Except.ok (true, r)) (reader_ahead _ _ _).symm
  · rw [if_neg h, if_neg h, ← reader_eq]
    rfl

theorem eatWhile_reader (c : Cursor) (p : Char → Bool) :
    (c.reader.eatWhile p : Run ε _) = .ok ((c.eatWhile p).1, (c.eatWhile p).2.reader) := by
  rw [reader_eq, Reader.eatWhile_between, eatWhile, reader_ahead]

theorem eatUntil_reader (c : Cursor) (p : Char → Bool) (inclusive : Bool) :
    (c.reader.eatUntil p inclusive : Run ε _)
      = .ok ((c.eatUntil p inclusive).1, (c.eatUntil p inclusive).2.reader) := by
  rw [Reader.eatUntil, eatWhile_reader, eatUntil]
  obtain ⟨taken, d⟩ := c.eatWhile fun x => !p x
  cases inclusive with
  | false => rfl
  | true =>
    show (d.reader.read >>= fun r => Except.ok (taken, r.2)) = Except.ok (taken, (d.skip 1).reader)
    rw [read_reader]
    obtain ⟨behind, rest⟩ := d
    cases rest <;> rfl

theorem eatBlanks_reader (c : Cursor) : (c.reader.eatBlanks : Run ε _) = .ok c.eatBlanks.reader := by
  rw [reader_eq, Reader.eatBlanks_between, eatBlanks, eatWhile, reader_ahead]

theorem eatLine_reader (hfind : FindsFirst find) (c : Cursor) :
    (c.reader.eatLineBy find : Run ε _) = .ok (c.eatLine.1, c.eatLine.2.reader) := by
  rw [Reader.eatLineBy_eq hfind, reader_eq, Reader.eatLine_between, eatLine_eq, eatWhile, reader_ahead]

/-- a reader does what the cursor in its place does -/
theorem perform_reader (hfind : FindsFirst find) (c : Cursor) (op : Op) :
    c.reader.perform find op = toRun (c.perform op) := by
  cases op with
  | peek =>
    rw [Reader.perform, peek_reader]
    rfl
  | peekNth n =>
    rw [Reader.perform, peekNth_reader]
    rfl
  | read =>
    rw [Reader.perform, read_reader, perform]
    cases c.read? <;> rfl
  | skip n =>
    rw [Reader.perform, skip_reader]
    rfl
  | rewind =>
    rw [Reader.perform, rewind_reader]
    rfl
  | seek offset =>
    rw [Reader.perform, seek_reader, perform]
    cases c.seek? offset <;> rfl
  | eatIf _ | eatChar _ | eatAny _ =>
    rw [Reader.perform, eatIf_reader]
    rfl
  | eatWhile p =>
    rw [Reader.perform, eatWhile_reader]
    rfl
  | eatUntil p inclusive =>
    rw [Reader.perform, eatUntil_reader]
    rfl
  | eatText literal =>
    rw [Reader.perform, eatText_reader]
    rfl
  | eatBlanks =>
    rw [Reader.perform, eatBlanks_reader]
    rfl
  | eatLine =>
    rw [Reader.perform, eatLine_reader hfind]
    rfl

/-- so it is for one operation after another -/
theorem performAll_reader (hfind : FindsFirst find) (c : Cursor) (ops : List Op) :
    c.reader.performAll find ops = toRun (c.performAll ops) := by
  induction ops generalizing c with
  | nil => rfl
  | cons op ops ih =>
    rw [Reader.performAll, performAll, perform_reader hfind]
    cases c.perform op with
    | none => rfl
    | some step =>
      obtain ⟨answer, d⟩ := step
      show (d.reader.performAll find ops >>= fun rest => _) = _
      rw [ih d]
      show _ = toRun (d.performAll ops >>= fun rest => _)
      cases d.performAll ops <;> rfl

end Cursor

end ScriptLexer

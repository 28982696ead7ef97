import ScriptLexer.Machine.State
import ScriptLexer.Proofs.Machine.Reader
import ScriptLexer.Proofs.TruePositions

/-!
# Places of the machine

`Machine.stand m ts a b` is a machine like `m` that has made the tokens `ts` and stands behind the text
`a` and in front of `b`, with its line counted to there.  What it does from such a place is compared
with what `front` decides: `Machine.Settles`.
-/

namespace ScriptLexer

open Position (after)

namespace Machine

/-! ## behind one text and in front of another -/

/-- a machine like `m` behind `a` and in front of `b`, with the tokens `ts` -/
def stand (m : Machine) (ts : List Token) (a b : List Char) : Machine :=
  { m with
    reader := .between a b
    line := (after a).line
    lineStart := (after a).lineStart
    tokens := ts }

/-- the same with the line break in front of `b` read, but not counted -/
def standAtBreak (m : Machine) (ts : List Token) (a b : List Char) : Machine :=
  (m.stand ts a ('\n' :: b)).moved (.between (a ++ ['\n']) b)

variable {m : Machine} {ts : List Token} {a b : List Char}

/-- without a line break the line stays -/
theorem moved_stand {t : List Char} (h : '\n' ∉ t) (m : Machine) (ts : List Token)
    (a b b' : List Char) :
    (m.stand ts a b').moved (.between (a ++ t) b) = m.stand ts (a ++ t) b := by
  have hline := Position.sameLine_advance (after a) h
  rw [Position.advance_after] at hline
  rw [stand, stand, moved, hline.1, hline.2]

theorem byteLength_le_append (a b : List Char) : byteLength a ≤ byteLength (a ++ b) := by
  rw [byteLength_append]
  exact Nat.le_add_right _ _

theorem toCount_eq {n : Nat} (h : n ≤ countLimit) : toCount n = n :=
  Nat.mod_eq_of_lt (Nat.lt_succ_of_le h)

theorem offset_stand (h : byteLength a ≤ countLimit) : (m.stand ts a b).offset = byteLength a :=
  toCount_eq h

theorem position_stand (h : byteLength a ≤ countLimit) : (m.stand ts a b).position = after a := by
  rw [position, offset_stand h]
  rfl

/-- a place in what was read last, if no line break is in that -/
theorem positionAt_stand {t : List Char} (ht : '\n' ∉ t) {n : Nat} (hn : n ≤ countLimit) :
    (m.stand ts (a ++ t) b).positionAt (toCount n) = { after a with offset := n } := by
  have hline := Position.sameLine_advance (after a) ht
  rw [Position.advance_after] at hline
  show (⟨toCount n, (after (a ++ t)).line, (after (a ++ t)).lineStart⟩ : Position) = _
  rw [toCount_eq hn, hline.1, hline.2]

theorem offset_standAtBreak (h : byteLength (a ++ ['\n']) ≤ countLimit) :
    (m.standAtBreak ts a b).offset = byteLength a + 1 := by
  show toCount (byteLength (a ++ ['\n'])) = _
  rw [toCount_eq h]
  exact byteLength_append a ['\n']

theorem line_after_le (a : List Char) : (after a).line ≤ byteLength a := by
  show a.count '\n' ≤ byteLength a
  induction a with
  | nil => exact Nat.le_refl 0
  | cons c a ih =>
    have hc := c.utf8Size_pos
    rw [List.count_cons, byteLength_cons]
    split <;> omega

theorem newLine_stand (h : byteLength (a ++ ['\n']) ≤ countLimit) :
    ((m.standAtBreak ts a b).newLine : Run LexError Machine) = .ok (m.stand ts (a ++ ['\n']) b) := by
  have hbreak : ('\n' : Char).utf8Size = 1 := rfl
  have hline : (after a).line + 1 ≤ countLimit := by
    have hle := line_after_le a
    rw [byteLength_append, byteLength_cons, byteLength_nil] at h
    omega
  have hnext : after (a ++ ['\n'])
      = ⟨byteLength a + 1, (after a).line + 1, byteLength a + 1⟩ := by
    rw [Position.after_append_singleton, Position.next_newline]
    rfl
  rw [newLine, offset_standAtBreak h]
  show (Run.increment (after a).line >>= fun line => _) = _
  rw [Run.increment_eq hline, Run.ok_bind, stand, hnext]
  rfl

/-! ## moves between texts -/

theorem read_stand_nil :
    ((m.stand ts a []).reading Reader.read : Run LexError (Option Char × Machine))
      = .ok (none, m.stand ts a []) := by
  show (Reader.read (.between a []) >>= fun r => _) = _
  rw [Reader.read_nil]
  rfl

theorem read_stand_newline :
    ((m.stand ts a ('\n' :: b)).reading Reader.read : Run LexError (Option Char × Machine))
      = .ok (some '\n', m.standAtBreak ts a b) := by
  show (Reader.read (.between a ('\n' :: b)) >>= fun r => _) = _
  rw [Reader.read_cons]
  rfl

theorem read_stand_cons {c : Char} (h : c ≠ '\n') :
    ((m.stand ts a (c :: b)).reading Reader.read : Run LexError (Option Char × Machine))
      = .ok (some c, m.stand ts (a ++ [c]) b) := by
  have hmoved := moved_stand (t := [c]) (by simpa using h.symm) m ts a b (c :: b)
  show (Reader.read (.between a (c :: b)) >>= fun r => _) = _
  rw [Reader.read_cons, ← hmoved]
  rfl

theorem peek_stand : ((m.stand ts a b).reader.peek : Run LexError (Option Char)) = .ok b.head? :=
  Reader.peek_between a b

theorem rewind_stand {c : Char} (h : c ≠ '\n') :
    ((m.stand ts (a ++ [c]) b).rewind : Run LexError Machine) = .ok (m.stand ts a (c :: b)) := by
  have hbreak : '\n' ∉ [c] := by simpa using h.symm
  have hline := Position.sameLine_advance (after a) hbreak
  rw [Position.advance_after] at hline
  rw [rewind]
  show (Reader.rewind (.between (a ++ [c]) b) >>= fun r => _) = _
  rw [Reader.rewind_between, Run.ok_bind, stand, stand, moved, hline.1, hline.2]
  rfl

/-- nothing is taken in front of another character or at the end -/
theorem eatIf_stand_neg {p : Char → Bool} (h : ∀ c ∈ b.head?, p c = false) :
    ((m.stand ts a b).reading (Reader.eatIf p) : Run LexError (Bool × Machine))
      = .ok (false, m.stand ts a b) := by
  show (Reader.eatIf p (.between a b) >>= fun r => _) = _
  cases b with
  | nil =>
    rw [Reader.eatIf_nil]
    rfl
  | cons c b =>
    rw [Reader.eatIf_neg (h c rfl)]
    rfl

theorem eatIf_stand_pos {p : Char → Bool} {c : Char} (hc : c ≠ '\n') (h : p c = true) :
    ((m.stand ts a (c :: b)).reading (Reader.eatIf p) : Run LexError (Bool × Machine))
      = .ok (true, m.stand ts (a ++ [c]) b) := by
  have hmoved := moved_stand (t := [c]) (by simpa using hc.symm) m ts a b (c :: b)
  show (Reader.eatIf p (.between a (c :: b)) >>= fun r => _) = _
  rw [Reader.eatIf_pos h, ← hmoved]
  rfl

theorem eatIf_stand_newline {p : Char → Bool} (h : p '\n' = true) :
    ((m.stand ts a ('\n' :: b)).reading (Reader.eatIf p) : Run LexError (Bool × Machine))
      = .ok (true, m.standAtBreak ts a b) := by
  show (Reader.eatIf p (.between a ('\n' :: b)) >>= fun r => _) = _
  rw [Reader.eatIf_pos h]
  rfl

/-- whether a character comes next -/
theorem eatChar_stand {c : Char} (hc : c ≠ '\n') (m : Machine) (ts : List Token) (a b : List Char) :
    (∃ rest, b = c :: rest ∧
      ((m.stand ts a b).reading (Reader.eatIf (· == c)) : Run LexError (Bool × Machine))
        = .ok (true, m.stand ts (a ++ [c]) rest)) ∨
    (b.head? ≠ some c ∧
      ((m.stand ts a b).reading (Reader.eatIf (· == c)) : Run LexError (Bool × Machine))
        = .ok (false, m.stand ts a b)) := by
  by_cases hb : b.head? = some c
  · obtain ⟨rest, rfl⟩ := List.head?_eq_some_iff.mp hb
    exact .inl ⟨rest, rfl, eatIf_stand_pos hc (beq_self_eq_true c)⟩
  · refine .inr ⟨hb, eatIf_stand_neg fun d hd => beq_eq_false_iff_ne.mpr ?_⟩
    rintro rfl
    exact hb hd

theorem eatWhile_stand {p : Char → Bool} (h : p '\n' = false) (b : List Char) :
    ((m.stand ts a b).reading (Reader.eatWhile p) : Run LexError (List Char × Machine))
      = .ok (b.takeWhile p, m.stand ts (a ++ b.takeWhile p) (b.dropWhile p)) := by
  have hbreak : '\n' ∉ b.takeWhile p := fun hmem => by
    rw [List.mem_takeWhile_imp hmem] at h
    cases h
  rw [← moved_stand hbreak m ts a _ b]
  show (Reader.eatWhile p (.between a b) >>= fun r => _) = _
  rw [Reader.eatWhile_between]
  rfl

theorem eatText_stand {literal : List Char} (h : '\n' ∉ literal) (b : List Char) :
    ((m.stand ts a b).reading (Reader.eatText literal) : Run LexError (Bool × Machine)) =
      if literal.isPrefixOf b then
        .ok (true, m.stand ts (a ++ literal) (b.drop literal.length))
      else .ok (false, m.stand ts a b) := by
  rw [← moved_stand h m ts a _ b]
  show (Reader.eatText literal (.between a b) >>= fun r => _) = _
  rw [Reader.eatText_between]
  split <;> rfl

theorem eatBlanks_stand (b : List Char) :
    ((m.stand ts a b).eatBlanks : Run LexError Machine)
      = .ok (m.stand ts (a ++ b.takeWhile isBlank) (b.dropWhile isBlank)) := by
  rw [eatBlanks, eatWhile_stand (by decide)]
  rfl

theorem eatLine_stand (b : List Char) :
    ((m.stand ts a b).reading Reader.eatLine : Run LexError (List Char × Machine))
      = .ok (b.takeWhile (· != '\n'),
          m.stand ts (a ++ b.takeWhile (· != '\n')) (b.dropWhile (· != '\n'))) := by
  have hbreak : '\n' ∉ b.takeWhile (· != '\n') := fun hmem =>
    absurd (List.mem_takeWhile_imp hmem) (by decide)
  rw [← moved_stand hbreak m ts a _ b]
  show (Reader.eatLine (.between a b) >>= fun r => _) = _
  rw [Reader.eatLine_between]
  rfl

/-- the text that ends in front of `t` -/
theorem sliceBack_stand {n : Nat} {t : List Char} (ht : byteLength t = n) (u body : List Char) :
    (m.stand ts (u ++ body ++ t) b).sliceBack (byteLength u) n = .ok body := by
  have hpos : byteLength (u ++ body ++ t) = byteLength u + byteLength body + n := by
    rw [byteLength_append, byteLength_append, ht]
  show (Run.subtract (byteLength (u ++ body ++ t)) n >>= fun stop => _) = _
  rw [Run.subtract_eq (by omega), Run.ok_bind, hpos, Nat.add_sub_cancel]
  exact Reader.slice_between (v := t ++ b) (by simp)

/-- the token of the text that was read last -/
theorem push_stand {k : Kind} {text : List Char} (hk : k ≠ .atom .newline)
    (h : byteLength (a ++ text) ≤ countLimit) :
    ((m.stand ts (a ++ text) b).push k (after a) : Run LexError Machine)
      = .ok (m.stand (⟨k, after a, stopOf k (after a) text⟩ :: ts) (a ++ text) b) := by
  rw [push, position_stand h, stopOf_of_ne hk, Position.advance_after,
    Run.token_eq (byteLength_le_append a text)]
  rfl

/-! ## decisions -/

/-- the machine, having made the tokens `ts` and read `a`, does what was decided -/
def Settles (m : Machine) (ts : List Token) (a : List Char) (f : Front)
    (r : Run LexError Machine) : Prop :=
  match f with
  | .atom x text rest =>
    r = .ok (m.stand (⟨.atom x, after a, stopOf (.atom x) (after a) text⟩ :: ts) (a ++ text) rest)
  | .blank c rest => r = .ok (m.stand ts (a ++ [c]) rest)
  | .fail e => r = Run.fail e
  | _ => False

/-- one more atom -/
theorem settles_push {x : Atom} {text rest : List Char} (hx : x ≠ .newline)
    (h : byteLength (a ++ text) ≤ countLimit) :
    m.Settles ts a (.atom x text rest) ((m.stand ts (a ++ text) rest).push (.atom x) (after a)) :=
  push_stand (fun e => hx (Kind.atom.inj e)) h

end Machine

end ScriptLexer

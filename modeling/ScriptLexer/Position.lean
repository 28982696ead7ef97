import ScriptLexer.Text.Bytes

/-!
# Positions in a source

A position is a byte offset together with the line it lies on: the number of line breaks before
it, and the offset at which that line begins.  The column is derived, not stored.

* `Position.advance p cs`   the position after reading `cs` from `p`.  Every position of a scan is
                            made by it, so `Position.after` says what it must be: the position of
                            a text's end, counted from that text alone;
* `Position.along p cs`     the same offset, still counted on the line of `p`: where a line break
                            itself ends;
* `Position.embed base p`   a position of a text that was cut out of a source at `base`, as a
                            position of that source.

All counts are shown to users from one and must then fit in 32 bits (`Position.Showable`).
-/

namespace ScriptLexer

/-- the largest count that a position or a span may hold: counts have 32 bits -/
def countLimit : Nat := Nat.pow 2 32 - 1

/-- a place in a source: byte offset, line (from zero) and the offset where that line begins -/
structure Position where
  offset : Nat
  line : Nat
  lineStart : Nat
deriving DecidableEq, Repr

namespace Position

/-- the beginning of a source -/
def start : Position := ⟨0, 0, 0⟩

/-! ## moving on -/

/-- the position after one more character -/
def next (p : Position) (c : Char) : Position :=
  if c = '\n' then ⟨p.offset + 1, p.line + 1, p.offset + 1⟩
  else { p with offset := p.offset + c.utf8Size }

/-- the position after reading `cs` -/
def advance (p : Position) (cs : List Char) : Position := cs.foldl next p

/-- `cs` further on, counted on the same line -/
def along (p : Position) (cs : List Char) : Position :=
  { p with offset := p.offset + byteLength cs }

theorem next_newline (p : Position) : p.next '\n' = ⟨p.offset + 1, p.line + 1, p.offset + 1⟩ := rfl

theorem next_of_ne (p : Position) {c : Char} (h : c ≠ '\n') :
    p.next c = { p with offset := p.offset + c.utf8Size } := if_neg h

theorem advance_nil (p : Position) : p.advance [] = p := rfl

theorem advance_cons (p : Position) (c : Char) (cs : List Char) :
    p.advance (c :: cs) = (p.next c).advance cs := rfl

theorem advance_append (p : Position) (a b : List Char) :
    p.advance (a ++ b) = (p.advance a).advance b := List.foldl_append

theorem offset_next (p : Position) (c : Char) : (p.next c).offset = p.offset + c.utf8Size := by
  unfold next
  split
  · rename_i h; subst h; rfl
  · rfl

theorem offset_advance (p : Position) (cs : List Char) :
    (p.advance cs).offset = p.offset + byteLength cs := by
  induction cs generalizing p with
  | nil => simp [advance_nil, byteLength_nil]
  | cons c cs ih => rw [advance_cons, ih, offset_next, byteLength_cons, Nat.add_assoc]

/-- without a line break both ways of counting agree -/
theorem advance_eq_along (p : Position) (cs : List Char) (h : '\n' ∉ cs) :
    p.advance cs = p.along cs := by
  induction cs generalizing p with
  | nil => simp [advance_nil, along, byteLength_nil]
  | cons c cs ih =>
    have hc : c ≠ '\n' := fun e => h (e ▸ List.mem_cons_self)
    have hcs : '\n' ∉ cs := fun m => h (List.mem_cons_of_mem _ m)
    rw [advance_cons, ih _ hcs, next_of_ne p hc]
    simp [along, byteLength_cons, Nat.add_assoc]

/-! ## the position of a text's end -/

/-- the part of a text up to and with its last line break -/
def throughLastBreak (cs : List Char) : List Char :=
  (cs.reverse.dropWhile (· ≠ '\n')).reverse

/-- the end of `cs` as a position: line breaks counted, the line beginning after the last one -/
def after (cs : List Char) : Position :=
  ⟨byteLength cs, cs.count '\n', byteLength (throughLastBreak cs)⟩

theorem throughLastBreak_append_newline (cs : List Char) :
    throughLastBreak (cs ++ ['\n']) = cs ++ ['\n'] := by
  simp [throughLastBreak]

theorem throughLastBreak_append_of_ne (cs : List Char) {c : Char} (h : c ≠ '\n') :
    throughLastBreak (cs ++ [c]) = throughLastBreak cs := by
  simp [throughLastBreak, h]

theorem after_append_singleton (cs : List Char) (c : Char) :
    after (cs ++ [c]) = (after cs).next c := by
  by_cases h : c = '\n'
  · subst h
    have h1 : ('\n' : Char).utf8Size = 1 := rfl
    rw [next_newline, after, throughLastBreak_append_newline, byteLength_append, byteLength_cons,
      byteLength_nil, h1, List.count_append]
    rfl
  · rw [next_of_ne _ h, after, throughLastBreak_append_of_ne _ h, byteLength_append,
      byteLength_cons, byteLength_nil, List.count_append]
    simp [after, h]

/-- reading on from the end of `a` leads to the end of `a ++ b` -/
theorem advance_after (a b : List Char) : (after a).advance b = after (a ++ b) := by
  induction b generalizing a with
  | nil => rw [advance_nil, List.append_nil]
  | cons c b ih =>
    rw [advance_cons, ← after_append_singleton, ih, List.append_assoc, List.singleton_append]

/-- reading from the beginning leads to the end of what was read -/
theorem start_advance (cs : List Char) : start.advance cs = after cs :=
  advance_after [] cs

/-! ## embedding -/

/-- a position of a text that begins at `base` in a source, as a position of the source -/
def embed (base p : Position) : Position :=
  ⟨p.offset + base.offset, p.line + base.line,
    if p.line = 0 then base.lineStart else p.lineStart + base.offset⟩

theorem embed_next (base p : Position) (c : Char) :
    embed base (p.next c) = (embed base p).next c := by
  by_cases h : c = '\n'
  · subst h
    simp only [next_newline, embed, Nat.add_eq_zero_iff, Nat.one_ne_zero, and_false, if_false]
    congr 1 <;> omega
  · rw [next_of_ne _ h, next_of_ne _ h]
    simp only [embed]
    congr 1
    omega

theorem embed_start (base : Position) : embed base start = base := by
  simp [embed, start]

/-- reading commutes with embedding -/
theorem embed_advance (base p : Position) (cs : List Char) :
    embed base (p.advance cs) = (embed base p).advance cs := by
  induction cs generalizing p with
  | nil => rfl
  | cons c cs ih => rw [advance_cons, ih, embed_next, advance_cons]

/-! ## the form shown to users -/

/-- bytes from the beginning of the line, from zero -/
def column (p : Position) : Nat := p.offset - p.lineStart

/-- line and column from one -/
def display (p : Position) : String := s!"{p.line + 1}:{p.column + 1}"

/-- the display form with the byte offset behind it -/
def inspect (p : Position) : String := s!"{p.display}@{p.offset}"

/-- the column exists: the line begins no later than the position -/
def HasColumn (p : Position) : Prop := p.lineStart ≤ p.offset

/-- line and column exist and still fit when counted from one -/
def Showable (p : Position) : Prop :=
  p.HasColumn ∧ p.line + 1 ≤ countLimit ∧ p.column + 1 ≤ countLimit

instance (p : Position) : Decidable p.HasColumn := inferInstanceAs (Decidable (_ ≤ _))
instance (p : Position) : Decidable p.Showable := inferInstanceAs (Decidable (_ ∧ _))

theorem hasColumn_next (p : Position) (c : Char) (h : p.HasColumn) : (p.next c).HasColumn := by
  unfold HasColumn next at *
  split
  · exact Nat.le_refl _
  · exact Nat.le_trans h (Nat.le_add_right _ _)

/-- a column never gets lost by reading on -/
theorem hasColumn_advance (p : Position) (cs : List Char) (h : p.HasColumn) :
    (p.advance cs).HasColumn := by
  induction cs generalizing p with
  | nil => exact h
  | cons c cs ih => exact ih _ (hasColumn_next p c h)

end Position

end ScriptLexer

import Mathlib.Data.List.TakeWhile
import ScriptLexer.Machine.Reader
import ScriptLexer.Proofs.Machine.Checks

/-!
# The slices of a reader

`Reader.between a b` stands behind `a` and in front of `b`.  The lemmas `…_between` say that in such a
place no check fails, and that every operation leads to such a place again.
-/

namespace ScriptLexer

/-! ## bytes -/

theorem utf8EncodeChar_ascii {c : Char} (h : c.toNat < 128) :
    String.utf8EncodeChar c = [UInt8.ofNat c.toNat] := by
  unfold String.utf8EncodeChar
  exact if_pos (Nat.le_of_lt_succ h)

/-- a character that is not one of ASCII has no byte of ASCII -/
theorem le_of_mem_utf8EncodeChar {c : Char} (h : 128 ≤ c.toNat) {b : UInt8}
    (hb : b ∈ String.utf8EncodeChar c) : 128 ≤ b.toNat := by
  have hv : ¬c.val.toNat ≤ 127 := Nat.not_le_of_lt h
  unfold String.utf8EncodeChar at hb
  simp only [if_neg hv] at hb
  split at hb
  · simp only [List.mem_cons, List.not_mem_nil, or_false] at hb
    rcases hb with rfl | rfl <;> rw [UInt8.toNat_ofNat'] <;> omega
  split at hb
  · simp only [List.mem_cons, List.not_mem_nil, or_false] at hb
    rcases hb with rfl | rfl | rfl <;> rw [UInt8.toNat_ofNat'] <;> omega
  · simp only [List.mem_cons, List.not_mem_nil, or_false] at hb
    rcases hb with rfl | rfl | rfl | rfl <;> rw [UInt8.toNat_ofNat'] <;> omega

/-- only a line break has the byte of a line break -/
theorem newline_notMem_utf8EncodeChar {c : Char} (h : c ≠ '\n') : 10 ∉ String.utf8EncodeChar c := by
  intro hmem
  by_cases hc : c.toNat < 128
  · rw [utf8EncodeChar_ascii hc, List.mem_singleton] at hmem
    have hval := congrArg UInt8.toNat hmem
    rw [UInt8.toNat_ofNat', Nat.mod_eq_of_lt (by omega)] at hval
    exact h (Char.toNat_inj.mp hval.symm)
  · exact absurd (le_of_mem_utf8EncodeChar (Nat.le_of_not_lt hc) hmem) (by decide)

/-- the bytes in front of the first line break are those of the characters in front of it -/
theorem lineBytes_eq (cs : List Char) :
    Cursor.lineBytes cs = byteLength (cs.takeWhile (· != '\n')) := by
  unfold Cursor.lineBytes
  induction cs with
  | nil => rfl
  | cons c cs ih =>
    by_cases hc : c = '\n'
    · subst hc
      rfl
    · have htake : (c :: cs).takeWhile (· != '\n') = c :: cs.takeWhile (· != '\n') :=
        List.takeWhile_cons_of_pos (by simpa using hc)
      rw [htake, byteLength_cons, ← ih, Cursor.utf8, List.flatMap_cons,
        List.idxOf_append, if_neg (newline_notMem_utf8EncodeChar hc), String.length_utf8EncodeChar,
        Nat.add_comm]
      rfl

/-! ## between two texts -/

namespace Reader

variable {ε : Type}

/-- the reader behind `a` and in front of `b` -/
def between (a b : List Char) : Reader := ⟨a ++ b, byteLength a⟩

/-- behind the first characters of what is in front -/
theorem between_advance (a t b : List Char) :
    (⟨a ++ (t ++ b), byteLength a + byteLength t⟩ : Reader) = between (a ++ t) b := by
  rw [between, List.append_assoc, byteLength_append]

theorem slice_between {a b u t v : List Char} (h : a ++ b = u ++ t ++ v) :
    (Run.slice (between a b).text (byteLength u) (byteLength u + byteLength t) : Run ε (List Char))
      = .ok t :=
  Run.slice_eq (slice?_eq_some_iff.mpr ⟨u, v, h, rfl, rfl⟩)

theorem exists_between {r : Reader} {b : List Char} (h : (r.remaining : Run ε _) = .ok b) :
    ∃ a, r = .between a b := by
  have hslice : slice? r.text r.pos (byteLength r.text) = some b := by
    unfold remaining length Run.slice at h
    split at h
    · rename_i t ht
      cases h
      exact ht
    · cases h
  obtain ⟨a, htext, hpos⟩ := slice?_end_iff.mp hslice
  refine ⟨a, ?_⟩
  rw [between, ← htext, hpos]

theorem remaining_between (a b : List Char) : ((between a b).remaining : Run ε (List Char)) = .ok b :=
  Run.slice_eq (slice?_end_iff.mpr ⟨a, rfl, rfl⟩)

theorem peek_between (a b : List Char) :
    ((between a b).peek : Run ε (Option Char)) = .ok b.head? := by
  rw [peek, remaining_between]
  rfl

theorem read_nil (a : List Char) :
    ((between a []).read : Run ε (Option Char × Reader)) = .ok (none, between a []) := by
  rw [read, peek_between]
  rfl

theorem read_cons (a : List Char) (c : Char) (b : List Char) :
    ((between a (c :: b)).read : Run ε (Option Char × Reader))
      = .ok (some c, between (a ++ [c]) b) := by
  rw [read, peek_between, ← between_advance]
  rfl

theorem rewind_between (a : List Char) (c : Char) (b : List Char) :
    ((between (a ++ [c]) b).rewind : Run ε Reader) = .ok (between a (c :: b)) := by
  have hslice : (Run.slice (between (a ++ [c]) b).text 0 (between (a ++ [c]) b).pos : Run ε _)
      = .ok (a ++ [c]) :=
    Run.slice_eq (slice?_eq_some_iff.mpr ⟨[], b, rfl, rfl, Nat.zero_add _⟩)
  have hpos : byteLength (a ++ [c]) = byteLength a + c.utf8Size := byteLength_append a [c]
  have hback : (Run.subtract (byteLength (a ++ [c])) c.utf8Size : Run ε Nat)
      = .ok (byteLength a) := by
    rw [hpos, Run.subtract_eq (Nat.le_add_left _ _), Nat.add_sub_cancel]
  rw [rewind, hslice, Run.ok_bind, List.getLast?_concat]
  show (Run.subtract (byteLength (a ++ [c])) c.utf8Size >>= fun n => _) = _
  rw [hback, Run.ok_bind, between, between, List.append_assoc]
  rfl

theorem eatIf_nil (p : Char → Bool) (a : List Char) :
    ((between a []).eatIf p : Run ε (Bool × Reader)) = .ok (false, between a []) := by
  rw [eatIf, peek_between]
  rfl

theorem eatIf_pos {p : Char → Bool} {c : Char} (h : p c = true) (a b : List Char) :
    ((between a (c :: b)).eatIf p : Run ε (Bool × Reader)) = .ok (true, between (a ++ [c]) b) := by
  rw [eatIf, peek_between, ← between_advance]
  exact if_pos h

theorem eatIf_neg {p : Char → Bool} {c : Char} (h : p c = false) (a b : List Char) :
    ((between a (c :: b)).eatIf p : Run ε (Bool × Reader)) = .ok (false, between a (c :: b)) := by
  rw [eatIf, peek_between]
  exact if_neg (by simp [h])

theorem eatText_between (literal a b : List Char) :
    ((between a b).eatText literal : Run ε (Bool × Reader)) =
      if literal.isPrefixOf b then .ok (true, between (a ++ literal) (b.drop literal.length))
      else .ok (false, between a b) := by
  rw [eatText, remaining_between, Run.ok_bind]
  by_cases h : literal.isPrefixOf b = true
  · obtain ⟨t, rfl⟩ := List.isPrefixOf_iff_prefix.mp h
    rw [if_pos h, if_pos h, List.drop_left, ← between_advance]
    rfl
  · rw [if_neg h, if_neg h]
    rfl

theorem eatWhileLoop_between (p : Char → Bool) {n : Nat} (a b : List Char) (hn : b.length < n) :
    (eatWhileLoop p n (between a b) : Run ε Reader)
      = .ok (between (a ++ b.takeWhile p) (b.dropWhile p)) := by
  induction n generalizing a b with
  | zero => exact absurd hn (Nat.not_lt_zero _)
  | succ n ih =>
    cases b with
    | nil =>
      rw [eatWhileLoop, eatIf_nil, List.takeWhile_nil, List.dropWhile_nil, List.append_nil]
      rfl
    | cons c b =>
      rw [eatWhileLoop]
      cases hc : p c with
      | true =>
        have hloop := ih (a ++ [c]) b (Nat.lt_of_succ_lt_succ hn)
        rw [eatIf_pos hc, List.takeWhile_cons_of_pos hc, List.dropWhile_cons_of_pos hc]
        rw [List.append_assoc] at hloop
        exact hloop
      | false =>
        rw [eatIf_neg hc, List.takeWhile_cons_of_neg (by simp [hc]),
          List.dropWhile_cons_of_neg (by simp [hc]), List.append_nil]
        rfl

theorem turns_between (a b : List Char) : b.length < (between a b).turns := by
  show b.length < (a ++ b).length + 1
  rw [List.length_append]
  omega

theorem eatWhile_between (p : Char → Bool) (a b : List Char) :
    ((between a b).eatWhile p : Run ε (List Char × Reader))
      = .ok (b.takeWhile p, between (a ++ b.takeWhile p) (b.dropWhile p)) := by
  have hsplit : a ++ b = a ++ b.takeWhile p ++ b.dropWhile p := by
    rw [List.append_assoc, List.takeWhile_append_dropWhile]
  have hslice : (Run.slice (between a b).text (byteLength a) (byteLength (a ++ b.takeWhile p)) :
      Run ε _) = .ok (b.takeWhile p) := by
    rw [byteLength_append]
    exact slice_between hsplit
  rw [eatWhile, eatWhileLoop_between p a b (turns_between a b), Run.ok_bind]
  show (Run.slice (between a b).text (byteLength a) (byteLength (a ++ b.takeWhile p)) >>= _) = _
  rw [hslice]
  rfl

theorem eatLine_between (a b : List Char) :
    ((between a b).eatLine : Run ε (List Char × Reader))
      = .ok (b.takeWhile (· != '\n'),
          between (a ++ b.takeWhile (· != '\n')) (b.dropWhile (· != '\n'))) := by
  have hrest : b = b.takeWhile (· != '\n') ++ b.dropWhile (· != '\n') :=
    List.takeWhile_append_dropWhile.symm
  have hsplit : a ++ b = a ++ b.takeWhile (· != '\n') ++ b.dropWhile (· != '\n') := by
    rw [List.append_assoc]
    exact congrArg (a ++ ·) hrest
  have hslice : (Run.slice (between a b).text (byteLength a)
      (byteLength a + byteLength (b.takeWhile (· != '\n'))) : Run ε _)
      = .ok (b.takeWhile (· != '\n')) := slice_between hsplit
  rw [eatLine, remaining_between, Run.ok_bind, lineBytes_eq]
  show (Run.slice (between a b).text (byteLength a)
    (byteLength a + byteLength (b.takeWhile (· != '\n'))) >>= _) = _
  rw [hslice, ← between_advance, ← hrest]
  rfl

end Reader

end ScriptLexer

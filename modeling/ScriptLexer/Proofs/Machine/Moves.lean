import ScriptLexer.Proofs.Machine.Reader

/-!
# The other operations of a reader

What a scan does not need of a reader is compared here with what a cursor does.

* `FindsFirst find`          `find` gives the index of the first byte that is equal;
* `Reader.eatLineBy_eq`      with such a search the rest of a line is what a scan takes;
* `…_between`                behind one text and in front of another no check fails, and the operation
                             leads to such a place again.
-/

namespace ScriptLexer

/-! ## the search for a byte -/

/-- a search that gives the index of the first byte that is equal, and nothing if there is none -/
structure FindsFirst (find : UInt8 → List UInt8 → Option Nat) : Prop where
  found : ∀ {b : UInt8} {bs : List UInt8} {i : Nat}, find b bs = some i →
    bs[i]? = some b ∧ b ∉ bs.take i
  absent : ∀ {b : UInt8} {bs : List UInt8}, find b bs = none → b ∉ bs

/-- where the search ends, if it ends at the end when it has found nothing -/
theorem FindsFirst.getD {find : UInt8 → List UInt8 → Option Nat} (h : FindsFirst find) (b : UInt8)
    (bs : List UInt8) : (find b bs).getD bs.length = bs.idxOf b := by
  cases hfind : find b bs with
  | none => exact (List.idxOf_eq_length (h.absent hfind)).symm
  | some i =>
    obtain ⟨hget, hnone⟩ := h.found hfind
    obtain ⟨hi, rfl⟩ := List.getElem?_eq_some_iff.mp hget
    have hsplit : bs.take i ++ bs[i] :: bs.drop (i + 1) = bs := by
      rw [← List.drop_eq_getElem_cons hi, List.take_append_drop]
    have hfirst : (bs.take i ++ bs[i] :: bs.drop (i + 1)).idxOf bs[i] = i := by
      rw [List.idxOf_append, if_neg hnone, List.idxOf_cons_self, Nat.zero_add,
        List.length_take_of_le (Nat.le_of_lt hi)]
    rw [hsplit] at hfirst
    exact hfirst.symm

theorem findsFirst_idxOf? : FindsFirst fun b bs => bs.idxOf? b where
  found h := by
    obtain ⟨hi, hget, hnone⟩ := List.idxOf?_eq_some_iff.mp h
    refine ⟨List.getElem?_eq_some_iff.mpr ⟨hi, hget⟩, fun hmem => ?_⟩
    obtain ⟨j, hj, hget⟩ := List.mem_take_iff_getElem.mp hmem
    exact hnone j (Nat.lt_of_lt_of_le hj (Nat.min_le_left _ _)) hget
  absent h := List.idxOf?_eq_none_iff.mp h

theorem length_utf8 (cs : List Char) : (Cursor.utf8 cs).length = byteLength cs := by
  induction cs with
  | nil => rfl
  | cons c cs ih =>
    rw [Cursor.utf8, List.flatMap_cons, List.length_append, String.length_utf8EncodeChar,
      byteLength_cons, ← ih]
    rfl

/-- where a line ends does not depend on how its end is looked for -/
theorem FindsFirst.lineBytes_eq {find : UInt8 → List UInt8 → Option Nat} (h : FindsFirst find)
    (cs : List Char) :
    Cursor.lineBytes cs = (find 10 (Cursor.utf8 cs)).getD (byteLength cs) := by
  rw [Cursor.lineBytes, ← h.getD, length_utf8]

/-! ## between two texts -/

namespace Reader

variable {ε : Type}

theorem peekNth_between (n : Nat) (a b : List Char) :
    ((between a b).peekNth n : Run ε (Option Char)) = .ok b[n]? := by
  rw [peekNth, remaining_between]
  rfl

theorem skip_between (n : Nat) (a b : List Char) :
    ((between a b).skip n : Run ε Reader) = .ok (between (a ++ b.take n) (b.drop n)) := by
  induction n generalizing a b with
  | zero =>
    rw [List.take_zero, List.append_nil]
    rfl
  | succ n ih =>
    cases b with
    | nil =>
      rw [skip, read_nil, List.take_nil, List.drop_nil, List.append_nil]
      rfl
    | cons c b =>
      have hskip := ih (a ++ [c]) b
      rw [List.append_assoc] at hskip
      rw [skip, read_cons]
      exact hskip

theorem rewind_nil (b : List Char) : ((between [] b).rewind : Run ε Reader) = .ok (between [] b) := by
  have hslice : (Run.slice (between [] b).text 0 (between [] b).pos : Run ε _) = .ok [] :=
    slice_between (u := []) (t := []) rfl
  rw [rewind, hslice]
  rfl

/-- the offsets that can be looked for are those that split the text -/
theorem seek_eq (offset : Nat) (r : Reader) :
    (r.seek offset : Run ε Reader) =
      match charIndex? offset r.text with
      | some k => .ok (between (r.text.take k) (r.text.drop k))
      | none => Run.fault .slice := by
  rw [seek]
  cases hindex : charIndex? offset r.text with
  | none =>
    rw [if_neg (by simp [IsBoundary, hindex])]
  | some k =>
    obtain ⟨u, v, htext, rfl, rfl⟩ := charIndex?_eq_some_iff.mp hindex
    rw [if_pos (by simp [IsBoundary, hindex])]
    simp only [htext, List.take_left, List.drop_left]
    rfl

theorem eatBlanks_between (a b : List Char) :
    ((between a b).eatBlanks : Run ε Reader)
      = .ok (between (a ++ b.takeWhile isBlank) (b.dropWhile isBlank)) :=
  eatWhileLoop_between isBlank a b (turns_between a b)

/-- The rest of a line is the one thing that a scan searches the bytes for.  It takes the same with every
search for the first byte, so a scan is the same with all of them. -/
theorem eatLineBy_eq {find : UInt8 → List UInt8 → Option Nat} (h : FindsFirst find) (r : Reader) :
    (r.eatLineBy find : Run ε (List Char × Reader)) = r.eatLine := by
  rw [eatLineBy, eatLine]
  cases hrest : (r.remaining : Run ε (List Char)) with
  | error stop => rfl
  | ok b =>
    obtain ⟨a, rfl⟩ := exists_between hrest
    rw [Run.ok_bind, Run.ok_bind, h.lineBytes_eq]
    cases find 10 (Cursor.utf8 b) with
    | none =>
      have hlength : (between a b).length = (between a b).pos + byteLength b := byteLength_append a b
      simp only [hlength]
      rfl
    | some count => rfl

end Reader

end ScriptLexer

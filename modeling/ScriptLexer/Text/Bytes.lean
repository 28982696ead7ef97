/-!
# Byte offsets in a list of characters

The library reads a text as its list of characters and names places in it by BYTE offsets of the
UTF-8 encoding.

* `byteLength cs`        the bytes that `cs` takes;
* `charIndex? n cs`      the number of characters in the first `n` bytes, or `none` when `n` lies
                         inside a character or past the end;
* `slice? cs a b`        the characters between two byte offsets, or `none` when they are in the
                         wrong order or one of them is no character boundary.

`slice?_append` is the fact the other modules use: the middle of `a ++ b ++ c` is what a slice
at its two byte offsets gives.
-/

namespace ScriptLexer

/-! ## length -/

/-- the number of bytes that a list of characters takes in UTF-8 -/
def byteLength (cs : List Char) : Nat := cs.foldr (fun c n => c.utf8Size + n) 0

theorem byteLength_nil : byteLength [] = 0 := rfl

theorem byteLength_cons (c : Char) (cs : List Char) :
    byteLength (c :: cs) = c.utf8Size + byteLength cs := rfl

theorem byteLength_append (a b : List Char) :
    byteLength (a ++ b) = byteLength a + byteLength b := by
  induction a with
  | nil => rw [List.nil_append, byteLength_nil, Nat.zero_add]
  | cons c a ih => rw [List.cons_append, byteLength_cons, ih, byteLength_cons, Nat.add_assoc]

theorem byteLength_reverse (cs : List Char) : byteLength cs.reverse = byteLength cs := by
  induction cs with
  | nil => rfl
  | cons c cs ih =>
    rw [List.reverse_cons, byteLength_append, ih, byteLength_cons, byteLength_cons, byteLength_nil]
    omega

/-! ## character boundaries -/

/-- the number of characters in the first `n` bytes, counted on from `k` -/
def charIndexFrom? (k : Nat) : Nat → List Char → Option Nat
  | 0, _ => some k
  | _ + 1, [] => none
  | n + 1, c :: cs =>
    if c.utf8Size ≤ n + 1 then charIndexFrom? (k + 1) (n + 1 - c.utf8Size) cs else none

/-- the number of characters in the first `n` bytes, if `n` is a character boundary -/
def charIndex? (n : Nat) (cs : List Char) : Option Nat := charIndexFrom? 0 n cs

/-- a byte offset that lies between two characters of the text or at one of its ends -/
def IsBoundary (cs : List Char) (n : Nat) : Prop := (charIndex? n cs).isSome

instance (cs : List Char) (n : Nat) : Decidable (IsBoundary cs n) :=
  inferInstanceAs (Decidable ((charIndex? n cs).isSome = true))

theorem charIndexFrom?_append (k : Nat) (a b : List Char) :
    charIndexFrom? k (byteLength a) (a ++ b) = some (k + a.length) := by
  induction a generalizing k with
  | nil => simp [byteLength_nil, charIndexFrom?]
  | cons c a ih =>
    have hc := c.utf8Size_pos
    obtain ⟨m, hm⟩ : ∃ m, c.utf8Size + byteLength a = m + 1 := ⟨_, (Nat.succ_pred (by omega)).symm⟩
    rw [byteLength_cons, hm, List.cons_append, charIndexFrom?, if_pos (by omega),
      show m + 1 - c.utf8Size = byteLength a by omega, ih, List.length_cons]
    congr 1
    omega

/-- the end of the first part is a boundary of the whole -/
theorem charIndex?_append (a b : List Char) :
    charIndex? (byteLength a) (a ++ b) = some a.length := by
  rw [charIndex?, charIndexFrom?_append, Nat.zero_add]

/-! ## slices -/

/-- the characters between the byte offsets `start` and `stop` -/
def slice? (cs : List Char) (start stop : Nat) : Option (List Char) :=
  if start ≤ stop then do
    let i ← charIndex? start cs
    let j ← charIndex? stop cs
    return (cs.drop i).take (j - i)
  else none

theorem slice?_append (a b c : List Char) :
    slice? (a ++ b ++ c) (byteLength a) (byteLength a + byteLength b) = some b := by
  have hi : charIndex? (byteLength a) (a ++ b ++ c) = some a.length := by
    rw [List.append_assoc, charIndex?_append]
  have hj : charIndex? (byteLength a + byteLength b) (a ++ b ++ c) = some (a ++ b).length := by
    rw [← byteLength_append, charIndex?_append]
  rw [slice?, if_pos (Nat.le_add_right _ _), hi, hj]
  simp

end ScriptLexer

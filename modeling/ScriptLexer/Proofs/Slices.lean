import ScriptLexer.Text.Bytes

/-!
# Slices as splits

A byte offset that is a character boundary splits a text in two, and a slice that exists splits it in
three.  Facts about slices are then facts about `++`:

* `charIndex?_eq_some_iff`, `slice?_eq_some_iff`   what it means that an index or a slice exists;
* `slice?_append_right`                            more text behind a slice does not change it;
* `slice?_slice?`                                  a slice of a slice is a slice;
* `slice?_adjacent`                                so are two slices, one right behind the other.
-/

namespace ScriptLexer

/-! ## boundaries -/

theorem eq_nil_of_byteLength {cs : List Char} (h : byteLength cs = 0) : cs = [] := by
  cases cs with
  | nil => rfl
  | cons c cs =>
    rw [byteLength_cons] at h
    have := c.utf8Size_pos
    omega

theorem charIndexFrom?_shift (k n : Nat) (cs : List Char) :
    charIndexFrom? k n cs = (charIndex? n cs).map (k + ·) := by
  induction cs generalizing k n with
  | nil =>
    cases n with
    | zero => simp [charIndex?, charIndexFrom?]
    | succ n => rfl
  | cons c cs ih =>
    cases n with
    | zero => simp [charIndex?, charIndexFrom?]
    | succ n =>
      rw [charIndex?, charIndexFrom?, charIndexFrom?]
      by_cases h : c.utf8Size ≤ n + 1
      · rw [if_pos h, if_pos h, ih, ih (0 + 1), Option.map_map]
        congr 1
        funext j
        show k + 1 + j = k + (0 + 1 + j)
        omega
      · rw [if_neg h, if_neg h]
        rfl

/-- the offset `n` is a boundary with `k` characters in front of it if it splits the text so -/
theorem charIndex?_eq_some_iff {cs : List Char} {n k : Nat} :
    charIndex? n cs = some k ↔ ∃ u v, cs = u ++ v ∧ byteLength u = n ∧ u.length = k := by
  constructor
  · intro h
    induction cs generalizing n k with
    | nil =>
      cases n with
      | zero => exact ⟨[], [], rfl, rfl, Option.some.inj h⟩
      | succ n => cases h
    | cons c cs ih =>
      cases n with
      | zero => exact ⟨[], c :: cs, rfl, rfl, Option.some.inj h⟩
      | succ n =>
        rw [charIndex?, charIndexFrom?] at h
        split at h
        · rename_i hc
          rw [charIndexFrom?_shift] at h
          obtain ⟨j, hj, hk⟩ := Option.map_eq_some_iff.mp h
          obtain ⟨u, v, rfl, hu, rfl⟩ := ih hj
          refine ⟨c :: u, v, rfl, ?_, ?_⟩
          · rw [byteLength_cons, hu]
            omega
          · rw [← hk, List.length_cons]
            omega
        · cases h
  · rintro ⟨u, v, rfl, rfl, rfl⟩
    exact charIndex?_append u v

/-- two splits of a text, the first one no later than the second -/
theorem exists_middle {u v u' v' : List Char} (h : u ++ v = u' ++ v')
    (hle : byteLength u ≤ byteLength u') : ∃ w, u' = u ++ w ∧ v = w ++ v' := by
  rcases List.append_eq_append_iff.mp h with ⟨w, hu, hv⟩ | ⟨w, hu, hv⟩
  · exact ⟨w, hu, hv⟩
  · -- the other order leaves no room for `w`
    rw [hu, byteLength_append] at hle
    obtain rfl : w = [] := eq_nil_of_byteLength (by omega)
    exact ⟨[], by rw [hu, List.append_nil, List.append_nil], by rw [hv]; rfl⟩

/-- a boundary splits a text in one way -/
theorem append_inj_of_byteLength {u v u' v' : List Char} (h : u ++ v = u' ++ v')
    (hlen : byteLength u = byteLength u') : u = u' ∧ v = v' := by
  obtain ⟨w, rfl, rfl⟩ := exists_middle h (Nat.le_of_eq hlen)
  rw [byteLength_append] at hlen
  obtain rfl : w = [] := eq_nil_of_byteLength (by omega)
  exact ⟨(List.append_nil u).symm, rfl⟩

/-! ## slices -/

theorem slice?_eq_some_iff {cs t : List Char} {a b : Nat} :
    slice? cs a b = some t ↔
      ∃ u v, cs = u ++ t ++ v ∧ byteLength u = a ∧ byteLength u + byteLength t = b := by
  constructor
  · intro h
    unfold slice? at h
    split at h
    · rename_i hab
      obtain ⟨i, hi, h⟩ := Option.bind_eq_some_iff.mp h
      obtain ⟨j, hj, h⟩ := Option.bind_eq_some_iff.mp h
      obtain ⟨u, v, hcs, rfl, rfl⟩ := charIndex?_eq_some_iff.mp hi
      obtain ⟨u', v', hcs', rfl, rfl⟩ := charIndex?_eq_some_iff.mp hj
      obtain ⟨w, rfl, rfl⟩ := exists_middle (hcs.symm.trans hcs') hab
      have ht : ((cs.drop u.length).take ((u ++ w).length - u.length)) = t := Option.some.inj h
      rw [hcs, List.drop_left, List.length_append, Nat.add_sub_cancel_left, List.take_left] at ht
      subst ht
      exact ⟨u, v', by rw [hcs, List.append_assoc], rfl, (byteLength_append u w).symm⟩
    · cases h
  · rintro ⟨u, v, rfl, rfl, rfl⟩
    exact slice?_append u t v

theorem slice?_le {cs t : List Char} {a b : Nat} (h : slice? cs a b = some t) :
    a ≤ b ∧ b ≤ byteLength cs := by
  obtain ⟨u, v, rfl, hu, ht⟩ := slice?_eq_some_iff.mp h
  rw [byteLength_append, byteLength_append]
  omega

theorem slice?_append_right {cs t : List Char} {a b : Nat} (h : slice? cs a b = some t)
    (w : List Char) : slice? (cs ++ w) a b = some t := by
  obtain ⟨u, v, rfl, hu, ht⟩ := slice?_eq_some_iff.mp h
  exact slice?_eq_some_iff.mpr ⟨u, v ++ w, by simp, hu, ht⟩

theorem slice?_end_iff {cs t : List Char} {a : Nat} :
    slice? cs a (byteLength cs) = some t ↔ ∃ u, cs = u ++ t ∧ byteLength u = a := by
  rw [slice?_eq_some_iff]
  constructor
  · rintro ⟨u, v, rfl, hu, ht⟩
    rw [byteLength_append, byteLength_append] at ht
    obtain rfl : v = [] := eq_nil_of_byteLength (by omega)
    exact ⟨u, List.append_nil _, hu⟩
  · rintro ⟨u, rfl, hu⟩
    exact ⟨u, [], (List.append_nil _).symm, hu, (byteLength_append u t).symm⟩

/-- it goes on over what is added to the text -/
theorem slice?_append_end {cs t : List Char} {a : Nat} (h : slice? cs a (byteLength cs) = some t)
    (w : List Char) : slice? (cs ++ w) a (byteLength (cs ++ w)) = some (t ++ w) := by
  obtain ⟨u, rfl, hu⟩ := slice?_end_iff.mp h
  exact slice?_end_iff.mpr ⟨u, List.append_assoc u t w, hu⟩

theorem slice?_adjacent {cs s t : List Char} {a b c : Nat} (hs : slice? cs a b = some s)
    (ht : slice? cs b c = some t) : slice? cs a c = some (s ++ t) := by
  obtain ⟨u, v, hcs, hu, hb⟩ := slice?_eq_some_iff.mp hs
  obtain ⟨u', v', hcs', hu', hc⟩ := slice?_eq_some_iff.mp ht
  have hlen : byteLength (u ++ s) = byteLength u' := by
    rw [byteLength_append]
    omega
  have hsplit : u ++ s ++ v = u' ++ (t ++ v') := by rw [← hcs, hcs', List.append_assoc]
  obtain ⟨rfl, rfl⟩ := append_inj_of_byteLength hsplit hlen
  refine slice?_eq_some_iff.mpr ⟨u, v', by simp [hcs], hu, ?_⟩
  rw [byteLength_append]
  omega

theorem slice?_slice? {cs t s : List Char} {a b i j : Nat} (h : slice? cs a b = some t)
    (hs : slice? t i j = some s) : slice? cs (i + a) (j + a) = some s := by
  obtain ⟨u, v, rfl, hu, _⟩ := slice?_eq_some_iff.mp h
  obtain ⟨u', v', rfl, hu', hs'⟩ := slice?_eq_some_iff.mp hs
  refine slice?_eq_some_iff.mpr ⟨u ++ u', v' ++ v, by simp, ?_, ?_⟩
  · rw [byteLength_append]
    omega
  · rw [byteLength_append]
    omega

end ScriptLexer

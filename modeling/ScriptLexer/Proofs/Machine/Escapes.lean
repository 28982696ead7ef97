import Mathlib.Algebra.Group.Nat.Defs
import ScriptLexer.Machine.Escapes
import ScriptLexer.Proofs.Break
import ScriptLexer.Proofs.Escapes
import ScriptLexer.Proofs.Machine.Reader

/-!
# The slices of a decoder

`decode_eq` says that no slice is wrong, and that the result is that of `decodeEscapes`.  Slicing one
byte off is right because every letter that is recognised is one of ASCII.
-/

namespace ScriptLexer

namespace Machine

/-! ## hexadecimal digits -/

theorem isHexByte_ascii {c : Char} (h : c.toNat < 128) :
    isHexByte (UInt8.ofNat c.toNat) = isHexDigit c := by
  rw [isHexByte, UInt8.toNat_ofNat', Nat.mod_eq_of_lt (by omega), Char.ofNat_toNat]

theorem isHexByte_of_le {b : UInt8} (h : 128 ≤ b.toNat) : isHexByte b = false := by
  have hall : (List.range 256).all (fun n => n < 128 || !isHexDigit (.ofNat n)) = true := by
    decide +kernel
  have hb := List.all_eq_true.mp hall b.toNat (List.mem_range.mpr b.toNat_lt)
  rw [decide_eq_false (Nat.not_lt_of_le h), Bool.false_or, Bool.not_eq_true'] at hb
  exact hb

/-- the digits at the front are as many among the bytes as among the characters -/
theorem length_takeWhile_isHexByte (cs : List Char) (count : Nat) :
    ((Cursor.utf8 cs).take count |>.takeWhile isHexByte).length
      = ((cs.take count).takeWhile isHexDigit).length := by
  induction cs generalizing count with
  | nil => simp [Cursor.utf8]
  | cons c cs ih =>
    cases count with
    | zero => rfl
    | succ count =>
      rw [Cursor.utf8, List.flatMap_cons]
      by_cases hc : c.toNat < 128
      · rw [utf8EncodeChar_ascii hc, List.singleton_append, List.take_succ_cons, List.take_succ_cons,
          List.takeWhile_cons, List.takeWhile_cons, isHexByte_ascii hc]
        split
        · rw [List.length_cons, List.length_cons]
          exact congrArg (· + 1) (ih count)
        · rfl
      · have hhex : isHexDigit c = false := Bool.eq_false_iff.mpr fun h => hc (isHexDigit_ascii h)
        rw [List.take_succ_cons, List.takeWhile_cons, hhex]
        obtain ⟨b, bs, hbytes⟩ : ∃ b bs, String.utf8EncodeChar c = b :: bs := by
          refine List.exists_cons_of_ne_nil fun h => ?_
          have hlen := String.length_utf8EncodeChar c
          rw [h] at hlen
          exact absurd c.utf8Size_pos (by simp [← hlen])
        have hbyte : isHexByte b = false := by
          refine isHexByte_of_le (le_of_mem_utf8EncodeChar (Nat.le_of_not_lt hc) ?_)
          rw [hbytes]
          exact List.mem_cons_self
        rw [hbytes, List.cons_append, List.take_succ_cons, List.takeWhile_cons, hbyte]
        rfl

theorem addDigits_eq {ds : List Char} (h : ∀ c ∈ ds, isHexDigit c = true) {n : Nat}
    (hfits : digitsValueFrom 16 n ds ≤ countLimit) :
    addDigits n ds = .ok (digitsValueFrom 16 n ds) := by
  induction ds generalizing n with
  | nil => rfl
  | cons c ds ih =>
    have hc := h c List.mem_cons_self
    obtain ⟨d, hd⟩ := Option.isSome_iff_exists.mp hc
    rw [digitsValueFrom_cons 16 n (ne_underscore_of_isHexDigit hc), hd, Option.getD_some] at hfits ⊢
    have hstep := le_digitsValueFrom 16 (n * 16 + d) (by decide) ds
    rw [addDigits, hd]
    show (Run.count (n * 16 + d) >>= fun m => addDigits m ds) = _
    rw [Run.count_eq (Nat.le_trans hstep hfits), Run.ok_bind]
    exact ih (fun x hx => h x (List.mem_cons_of_mem c hx)) hfits

/-! ## one sequence -/

theorem pushHex_eq (out cs : List Char) (escape : Char) {count : Nat} (hcount : count ≤ 4)
    (offset : Nat) :
    pushHex out cs escape count offset =
      match readHex escape count cs with
      | .ok d => .ok (out ++ [d], count)
      | .error cause => Run.fail ⟨cause, offset⟩ := by
  have hprefix : (cs.take count).takeWhile isHexDigit <+: cs :=
    (List.takeWhile_prefix _).trans (List.take_prefix _ _)
  have hhex : ∀ c ∈ (cs.take count).takeWhile isHexDigit, isHexDigit c = true :=
    fun c hc => List.mem_takeWhile_imp hc
  have hle : ((cs.take count).takeWhile isHexDigit).length ≤ count :=
    Nat.le_trans (List.takeWhile_prefix _).length_le (List.length_take_le count cs)
  rw [pushHex]
  simp only [length_takeWhile_isHexByte]
  unfold readHex
  simp only
  generalize (cs.take count).takeWhile isHexDigit = digits at hprefix hhex hle ⊢
  split
  · rfl
  rename_i hlen
  obtain ⟨rest, rfl⟩ := hprefix
  have hbytes := byteLength_eq_length fun c hc => isHexDigit_ascii (hhex c hc)
  have hslice : (Run.slice (digits ++ rest) 0 digits.length : Run EscapeError _) = .ok digits :=
    Run.slice_eq (slice?_eq_some_iff.mpr ⟨[], rest, rfl, rfl, by rw [← hbytes]; exact Nat.zero_add _⟩)
  have hfits : digitsValueFrom 16 0 digits ≤ countLimit := by
    have hlt := digitsValueFrom_lt 16 0 fun c hc => .inr (isDigitOf_of_isHexDigit (hhex c hc))
    rw [digitCount_eq_length fun c hc => ne_underscore_of_isHexDigit (hhex c hc)] at hlt
    have hpow : 16 ^ digits.length ≤ 16 ^ 4 := Nat.pow_le_pow_right (by decide) (by omega)
    have hlimit : 16 ^ 4 ≤ countLimit := by decide
    omega
  rw [hslice, Run.ok_bind, addDigits_eq hhex hfits, Run.ok_bind]
  show (if (digitsValue 16 digits).isValidChar then _ else _) = _
  split
  · rw [show digits.length = count by omega]
    rfl
  · rfl

theorem lookup_simpleEscapes {c : Char} (hself : ¬(c = '\\' ∨ c = '"' ∨ c = '\''))
    (hoctal : ¬('0' ≤ c ∧ c ≤ '7')) : simpleEscapes.lookup c = controlEscapes.lookup c := by
  have hne : ∀ d ∈ ['0', '1', '2', '3', '4', '5', '6', '7'], (c == d) = false := by
    intro d hd
    refine beq_eq_false_iff_ne.mpr ?_
    rintro rfl
    have hrange : (['0', '1', '2', '3', '4', '5', '6', '7'].all fun d => '0' ≤ d ∧ d ≤ '7') := by
      decide
    exact hoctal (of_decide_eq_true (List.all_eq_true.mp hrange c hd))
  have hself : (c == '\\') = false ∧ (c == '"') = false ∧ (c == '\'') = false := by
    simpa [not_or] using hself
  simp only [List.forall_mem_cons] at hne
  simp [simpleEscapes, controlEscapes, List.lookup_cons, hself, hne]

/-- the digits that are escapes of their own -/
theorem octal_mem {c : Char} (h : '0' ≤ c ∧ c ≤ '7') :
    c ∈ ['0', '1', '2', '3', '4', '5', '6', '7'] := by
  have hc : c.toNat < 128 := Nat.lt_of_le_of_lt h.2 (by decide)
  have hall : (List.range 128).all (fun n => !('0' ≤ Char.ofNat n && Char.ofNat n ≤ '7')
      || ['0', '1', '2', '3', '4', '5', '6', '7'].contains (Char.ofNat n)) = true := by
    decide +kernel
  have hval := forall_ascii (p := fun c => !('0' ≤ c && c ≤ '7')
    || ['0', '1', '2', '3', '4', '5', '6', '7'].contains c) hall hc
  simp only [decide_eq_true h.1, decide_eq_true h.2] at hval
  exact List.contains_iff_mem.mp hval

theorem pushEscape_eq (out : List Char) (esc : Char) (cs : List Char) (offset : Nat) :
    pushEscape out (esc :: cs) esc offset =
      match readEscape (esc :: cs) with
      | .ok (d, count) => .ok (out ++ [d], count)
      | .error cause => Run.fail ⟨cause, offset⟩ := by
  have hdigits : esc.utf8Size = 1 → (Run.slice (esc :: cs) 1 (byteLength (esc :: cs)) :
      Run EscapeError _) = .ok cs := fun hsize =>
    Run.slice_eq (slice?_end_iff.mpr ⟨[esc], rfl, by rw [byteLength_cons, hsize]; rfl⟩)
  have hhex : ∀ c count, count ≤ 4 →
      (pushHex out cs c count offset >>= fun r => (.ok (r.1, 1 + r.2) : Run EscapeError _)) =
        match (readHex c count cs).map fun d => (d, count + 1) with
        | .ok (d, count) => .ok (out ++ [d], count)
        | .error cause => Run.fail ⟨cause, offset⟩ := by
    intro c count hcount
    rw [pushHex_eq out cs c hcount]
    cases readHex c count cs with
    | error cause => rfl
    | ok d =>
      show (Except.ok (out ++ [d], 1 + count) : Run EscapeError _) = .ok (out ++ [d], count + 1)
      rw [Nat.add_comm]
  rw [pushEscape]
  split
  · rename_i hself
    rcases hself with rfl | rfl | rfl <;> rfl
  rename_i hself
  split
  · rename_i hu
    subst hu
    rw [hdigits rfl, Run.ok_bind]
    exact hhex 'u' 4 (by decide)
  split
  · rename_i hx
    subst hx
    rw [hdigits rfl, Run.ok_bind]
    exact hhex 'x' 2 (by decide)
  rename_i hu hx
  split
  · rename_i hoctal
    have hmem := octal_mem hoctal
    simp only [List.mem_cons, List.not_mem_nil, or_false] at hmem
    rcases hmem with rfl | rfl | rfl | rfl | rfl | rfl | rfl | rfl <;> rfl
  rename_i hoctal
  have hnone : hexEscapes.lookup esc = none := by
    simp [hexEscapes, List.lookup_cons, beq_eq_false_iff_ne.mpr hu, beq_eq_false_iff_ne.mpr hx]
  rw [readEscape, lookup_simpleEscapes hself hoctal, hnone]
  cases controlEscapes.lookup esc <;> rfl

/-! ## a body -/

theorem findBackslash_none {text : List Char} (h : findBackslash text = none) :
    isPlainBody text = true := by
  unfold findBackslash at h
  split at h
  · cases h
  · rename_i hnone
    simpa [isPlainBody] using hnone

theorem findBackslash_some {text : List Char} {slash : Nat} (h : findBackslash text = some slash) :
    ∃ plain after, text = plain ++ '\\' :: after ∧ '\\' ∉ plain ∧ slash = byteLength plain := by
  unfold findBackslash at h
  split at h
  · rename_i hmem
    cases h
    have hdrop : text.dropWhile (· != '\\') ≠ [] := by
      intro hnil
      have hall := List.dropWhile_eq_nil_iff.mp hnil '\\' (List.contains_iff_mem.mp hmem)
      exact absurd hall (by decide)
    obtain ⟨c, after, hafter⟩ := List.exists_cons_of_ne_nil hdrop
    have hc : c = '\\' := by
      simpa using dropWhile_stops (· != '\\') text c (by rw [hafter]; rfl)
    subst hc
    refine ⟨text.takeWhile (· != '\\'), after, ?_, fun hplain => ?_, rfl⟩
    · rw [← hafter, List.takeWhile_append_dropWhile]
    · exact absurd (List.mem_takeWhile_imp hplain) (by decide)
  · cases h

theorem decodeLoop_eq {n : Nat} (pre rest done : List Char) (hn : rest.length < n) :
    decodeLoop (pre ++ rest) n done.reverse rest
      = Run.ofExcept (decodeFrom (byteLength pre) done rest) := by
  induction n generalizing pre rest done with
  | zero => exact absurd hn (Nat.not_lt_zero _)
  | succ n ih =>
    rw [decodeLoop]
    cases hfind : findBackslash rest with
    | none =>
      rw [decodeFrom_plain _ _ _ (findBackslash_none hfind)]
      rfl
    | some slash =>
      obtain ⟨plain, after, rfl, hplain, rfl⟩ := findBackslash_some hfind
      have hfront : (Run.slice (plain ++ '\\' :: after) 0 (byteLength plain) : Run EscapeError _)
          = .ok plain :=
        Run.slice_eq (slice?_eq_some_iff.mpr ⟨[], '\\' :: after, rfl, rfl, Nat.zero_add _⟩)
      have hoffset : (Run.subtract (byteLength (pre ++ (plain ++ '\\' :: after)))
          (byteLength (plain ++ '\\' :: after)) : Run EscapeError _) = .ok (byteLength pre) := by
        rw [byteLength_append pre, Run.subtract_eq (Nat.le_add_left _ _), Nat.add_sub_cancel]
      have hafter : (Run.slice (plain ++ '\\' :: after) (byteLength plain + 1)
          (byteLength (plain ++ '\\' :: after)) : Run EscapeError _) = .ok after :=
        Run.slice_eq (slice?_end_iff.mpr ⟨plain ++ ['\\'], by simp, byteLength_append _ _⟩)
      simp only [hfront, hoffset, hafter, Run.ok_bind]
      rw [decodeFrom_append _ _ hplain, decodeFrom, if_pos rfl]
      cases after with
      | nil => rfl
      | cons esc cs =>
        rw [List.head?_cons]
        simp only [pushEscape_eq]
        cases hread : readEscape (esc :: cs) with
        | error cause => rfl
        | ok r =>
          obtain ⟨d, count⟩ := r
          obtain ⟨t, after', hsplit, hlen, hbytes⟩ := readEscape_split hread
          have hrest : (Run.slice (esc :: cs) count (byteLength (esc :: cs)) : Run EscapeError _)
              = .ok after' := by
            rw [hsplit]
            exact Run.slice_eq (slice?_end_iff.mpr ⟨t, rfl, hbytes⟩)
          have hdrop : (esc :: cs).drop count = after' := by
            rw [hsplit, ← hlen, List.drop_left]
          have hshort : after'.length < n := by
            rw [hsplit] at hn
            simp only [List.length_append, List.length_cons] at hn
            omega
          have hloop := ih (pre ++ (plain ++ '\\' :: t)) after' (d :: (plain.reverse ++ done)) hshort
          have hbody : pre ++ (plain ++ '\\' :: t) ++ after'
              = pre ++ (plain ++ '\\' :: esc :: cs) := by
            rw [hsplit]
            simp
          have hout : (d :: (plain.reverse ++ done)).reverse = done.reverse ++ plain ++ [d] := by simp
          have hplace : byteLength (pre ++ (plain ++ '\\' :: t))
              = byteLength pre + byteLength plain + 1 + count := by
            rw [byteLength_append, byteLength_append, byteLength_cons, hbytes]
            have hslash : ('\\' : Char).utf8Size = 1 := rfl
            omega
          rw [hbody, hout, hplace] at hloop
          simp only [Run.ok_bind, hrest, hdrop]
          exact hloop

/-- decoding by byte offsets never slices wrongly, and gives what decoding characters gives -/
theorem decode_eq (body : List Char) : decode body = Run.ofExcept (decodeEscapes body) := by
  unfold decode
  split
  · exact decodeLoop_eq [] body [] (Nat.lt_succ_self _)
  · rename_i hnone
    rw [decodeEscapes_plain body (by simpa [isPlainBody] using hnone)]
    rfl

end Machine

end ScriptLexer

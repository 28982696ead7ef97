import Mathlib.Data.List.TakeWhile
import ScriptLexer.Proofs.Digits
import ScriptLexer.Text.Escape

/-!
# Escape sequences in a body

* `readEscape_split`    a sequence that stands for a character is an initial part of the text
                        behind its backslash, and has as many bytes as characters;
* `decodeFrom_append`   text without a backslash is taken as it stands;
* `decodeFrom_error`    a body that cannot be decoded fails at a backslash behind which no sequence
                        stands, and is placed there.
-/

namespace ScriptLexer

/-! ## one sequence -/

theorem byteLength_eq_length {cs : List Char} (h : ∀ c ∈ cs, c.toNat < 128) :
    byteLength cs = cs.length := by
  induction cs with
  | nil => rfl
  | cons c cs ih =>
    have hc : c.utf8Size = 1 :=
      Char.utf8Size_eq_one_iff.mpr (UInt32.le_iff_toNat_le.mpr (Nat.le_of_lt_succ (h c List.mem_cons_self)))
    rw [byteLength_cons, hc, ih fun x hx => h x (List.mem_cons_of_mem c hx), List.length_cons,
      Nat.add_comm]

/-- digits that were all found are the characters in front -/
theorem readHex_ok {escape d : Char} {count : Nat} {cs : List Char}
    (h : readHex escape count cs = .ok d) :
    ∃ digits rest, cs = digits ++ rest ∧ (∀ c ∈ digits, isHexDigit c = true) ∧
      digits = (cs.take count).takeWhile isHexDigit ∧ digits.length = count := by
  unfold readHex at h
  simp only at h
  split at h
  · cases h
  rename_i hlen
  have hprefix : (cs.take count).takeWhile isHexDigit <+: cs :=
    (List.takeWhile_prefix _).trans (List.take_prefix _ _)
  obtain ⟨rest, hrest⟩ := hprefix
  refine ⟨_, rest, hrest.symm, fun c hc => List.mem_takeWhile_imp hc, rfl, ?_⟩
  have hle := (List.takeWhile_prefix (l := cs.take count) isHexDigit).length_le
  have htake := List.length_take_le count cs
  omega

/-- a sequence takes as many bytes as characters -/
theorem readEscape_split {cs : List Char} {d : Char} {count : Nat}
    (h : readEscape cs = .ok (d, count)) :
    ∃ t rest, cs = t ++ rest ∧ t.length = count ∧ byteLength t = count := by
  cases cs with
  | nil => cases h
  | cons c cs =>
    have hkeys : ∀ p ∈ simpleEscapes, p.1.toNat < 128 := by decide
    have hhex : ∀ p ∈ hexEscapes, p.1.toNat < 128 := by decide
    have hmem : ∀ {β : Type} {l : List (Char × β)} {b : β}, l.lookup c = some b → (c, b) ∈ l := by
      intro β l b hl
      obtain ⟨u, v, rfl, _⟩ := List.lookup_eq_some_iff.mp hl
      simp
    rw [readEscape] at h
    split at h
    · rename_i d' hlookup
      cases h
      have hc := hkeys _ (hmem hlookup)
      exact ⟨[c], cs, rfl, rfl, byteLength_eq_length (by simpa using hc)⟩
    · rename_i n _ hlookup
      cases hread : readHex c n cs with
      | error cause =>
        rw [hread] at h
        cases h
      | ok d' =>
        rw [hread] at h
        cases h
        obtain ⟨digits, rest, rfl, hdigits, _, hlen⟩ := readHex_ok hread
        refine ⟨c :: digits, rest, rfl, by rw [List.length_cons, hlen], ?_⟩
        rw [byteLength_eq_length, List.length_cons, hlen]
        intro x hx
        rcases List.mem_cons.mp hx with rfl | hx
        · exact hhex _ (hmem hlookup)
        · exact isHexDigit_ascii (hdigits x hx)
    · cases h

/-! ## a body -/

theorem decodeFrom_append (offset : Nat) (done : List Char) {plain : List Char} (h : '\\' ∉ plain)
    (cs : List Char) : decodeFrom offset done (plain ++ cs)
      = decodeFrom (offset + byteLength plain) (plain.reverse ++ done) cs := by
  induction plain generalizing offset done with
  | nil => rfl
  | cons c plain ih =>
    have hc : c ≠ '\\' := fun e => h (e ▸ List.mem_cons_self)
    rw [List.cons_append, decodeFrom_of_ne offset done hc,
      ih _ _ fun m => h (List.mem_cons_of_mem c m), byteLength_cons, List.reverse_cons,
      List.append_assoc, Nat.add_assoc]
    rfl

/-- a body that cannot be decoded fails at a backslash, with what is wrong with the sequence behind
it -/
theorem decodeFrom_error {offset : Nat} {done cs : List Char} {e : EscapeError}
    (h : decodeFrom offset done cs = .error e) :
    ∃ u v, cs = u ++ '\\' :: v ∧ e.offset = offset + byteLength u ∧
      readEscape v = .error e.cause := by
  induction cs using (measure List.length).wf.induction generalizing offset done with
  | _ cs ih =>
  cases cs with
  | nil =>
    rw [decodeFrom_nil] at h
    cases h
  | cons c cs =>
    by_cases hc : c = '\\'
    · subst hc
      rw [decodeFrom, if_pos rfl] at h
      cases hread : readEscape cs with
      | error cause =>
        simp only [hread] at h
        cases h
        exact ⟨[], cs, rfl, rfl, hread⟩
      | ok r =>
        obtain ⟨d, count⟩ := r
        obtain ⟨t, rest, rfl, hlen, hbytes⟩ := readEscape_split hread
        simp only [hread, ← hlen, List.drop_left] at h
        have hshort : rest.length < ('\\' :: (t ++ rest)).length := by
          simp only [List.length_cons, List.length_append]
          omega
        obtain ⟨u, v, rfl, hoffset, hv⟩ := ih rest hshort h
        have hslash : ('\\' : Char).utf8Size = 1 := rfl
        refine ⟨'\\' :: (t ++ u), v, by simp, ?_, hv⟩
        rw [byteLength_cons, byteLength_append]
        omega
    · rw [decodeFrom_of_ne offset done hc] at h
      obtain ⟨u, v, rfl, hoffset, hv⟩ := ih cs (Nat.lt_succ_self _) h
      refine ⟨c :: u, v, rfl, ?_, hv⟩
      rw [byteLength_cons]
      omega

end ScriptLexer

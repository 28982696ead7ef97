import ScriptLexer.Proofs.EscapeGrammar
import ScriptLexer.Proofs.Trails

/-!
# Backslashes in pairs

The hunt for the closing quote and the decoder of the body both pass over a backslash together with the
character behind it.  They agree on what is hidden, so a body never ends behind a lone backslash.

* `Paired cs`               every backslash of the text has a character behind it, which it hides;
* `quotedBody_paired`       so it is in a body up to its closing quote;
* `decodeEscapes_paired`    and a body like that can be decoded, or fails in front of its end;
* `AlignedBefore rest cs`   `cs` is in pairs, but for one last backslash that hides nothing of the text
                            `rest` behind it;
* `Enters.aligned`          so is the text of every template that a scan is in.

The text of a template is decoded with numbers for its sections.  A backslash in front of a section hides
nothing in the source, and the first digit of the number in the text that is decoded; the pairs meant are
those of that text.
-/

namespace ScriptLexer

/-! ## pairs of backslashes -/

/-- every backslash has a character behind it, which it hides -/
inductive Paired : List Char → Prop
  | nil : Paired []
  | plain {c : Char} {cs : List Char} : c ≠ '\\' → Paired cs → Paired (c :: cs)
  | pair {c : Char} {cs : List Char} : Paired cs → Paired ('\\' :: c :: cs)

namespace Paired

variable {a b cs : List Char} {c : Char}

theorem append (ha : Paired a) (hb : Paired b) : Paired (a ++ b) := by
  induction ha with
  | nil => exact hb
  | plain hc _ ih => exact .plain hc ih
  | pair _ ih => exact .pair ih

theorem behind_plain (h : Paired (c :: cs)) (hc : c ≠ '\\') : Paired cs := by
  cases h with
  | plain _ h => exact h
  | pair _ => exact absurd rfl hc

theorem behind_pair (h : Paired ('\\' :: c :: cs)) : Paired cs := by
  cases h with
  | plain hc _ => exact absurd rfl hc
  | pair h => exact h

end Paired

theorem not_paired_backslash : ¬Paired ['\\'] := by
  intro h
  cases h with
  | plain hc _ => exact hc rfl

/-- text without a backslash does not move the pairs behind it -/
theorem paired_append_iff {a b : List Char} (ha : '\\' ∉ a) : Paired (a ++ b) ↔ Paired b := by
  induction a with
  | nil => exact Iff.rfl
  | cons c a ih =>
    obtain ⟨hc, ha⟩ := not_or.mp (mt List.mem_cons.mpr ha)
    have hc : c ≠ '\\' := Ne.symm hc
    exact ⟨fun h => (ih ha).mp (h.behind_plain hc), fun h => .plain hc ((ih ha).mpr h)⟩

theorem paired_of_notMem {a : List Char} (ha : '\\' ∉ a) : Paired a := by
  have hall := (paired_append_iff (b := []) ha).mpr .nil
  rwa [List.append_nil] at hall

/-! ## decoding -/

theorem EscapeUnit.paired {unit rest : List Char} {c : Char} (h : EscapeUnit unit c)
    (hpaired : Paired (unit ++ rest)) : Paired rest := by
  cases h with
  | plain hc => exact hpaired.behind_plain hc
  | itself _ => exact hpaired.behind_pair
  | control _ => exact hpaired.behind_pair
  | octal _ _ => exact hpaired.behind_pair
  | @hex letter count n ds _ _ hrun _ =>
    have hslash : '\\' ∉ ds := fun hmem => absurd (hrun.digits _ hmem) (by decide)
    exact (paired_append_iff hslash).mp hpaired.behind_pair

theorem Factors.paired {body text rest : List Char} (h : Factors body text)
    (hpaired : Paired (body ++ rest)) : Paired rest := by
  induction h with
  | nil => exact hpaired
  | unit hunit _ ih =>
    rw [List.append_assoc] at hpaired
    exact ih (hunit.paired hpaired)

theorem decodeEscapes_paired {body : List Char} {e : EscapeError} (hpaired : Paired body)
    (h : decodeEscapes body = .error e) : e.cause ≠ .empty := by
  rcases factors_or_stops body with ⟨text, htext⟩ | ⟨e', hstops⟩
  · rw [htext.decode] at h
    cases h
  · rw [hstops.decode] at h
    cases h
    cases hstops with
    | mk hfront _ hblocked =>
      rintro ⟨⟩
      cases hblocked
      exact not_paired_backslash (hfront.paired hpaired)

/-- a body in pairs with escape sequences behind it is decoded in its own right, and they are -/
theorem exists_factors_of_decode {body units w t text : List Char} (hpaired : Paired body)
    (hunits : Factors ('\\' :: units) t)
    (h : decodeEscapes (body ++ ('\\' :: units ++ w)) = .ok text) :
    ∃ front rest, Factors body front ∧ text = front ++ t ++ rest := by
  rcases factors_or_stops body with ⟨front, hfront⟩ | ⟨e, hstops⟩
  · rcases factors_or_stops w with ⟨rest, hrest⟩ | ⟨e, hstops⟩
    · rw [(hfront.append (hunits.append hrest)).decode] at h
      cases h
      exact ⟨front, rest, hfront, (List.append_assoc ..).symm⟩
    · rw [(hfront.stopsAt (hunits.stopsAt hstops)).decode] at h
      cases h
  · have hcause := decodeEscapes_paired hpaired hstops.decode
    rw [List.cons_append, (hstops.in_front_of_backslash hcause _).decode] at h
    cases h

/-- the quote that ends a body is not hidden, and everything in front of it is paired -/
theorem quotedBody_paired {done cs body rest : List Char} (hdone : Paired done.reverse)
    (h : Lexeme.quotedBody done cs = .closed body rest) : Paired body := by
  fun_induction Lexeme.quotedBody done cs with
  | case1 => cases h
  | case2 done cs =>
    cases h
    exact hdone
  | case3 => cases h
  | case4 => cases h
  | case5 done c cs _ ih =>
    refine ih ?_ h
    rw [List.reverse_cons, List.reverse_cons, List.append_assoc]
    exact hdone.append (.pair .nil)
  | case6 done c cs _ _ hslash ih =>
    by_cases hc : c = '\\'
    · -- only at the end of the text is a backslash read alone, and there nothing is closed
      obtain rfl : cs = [] := List.eq_nil_iff_forall_not_mem.mpr fun x hx => by
        obtain ⟨y, ys, hcs⟩ := List.exists_cons_of_ne_nil (List.ne_nil_of_mem hx)
        exact hslash y ys hc hcs
      cases h
    · refine ih ?_ h
      rw [List.reverse_cons]
      exact hdone.append (.plain hc .nil)

/-! ## the text of a template -/

/-- the text is in pairs, but for one backslash at its end that hides nothing of the text behind -/
inductive AlignedBefore (rest : List Char) : List Char → Prop
  | paired {cs : List Char} : Paired cs → AlignedBefore rest cs
  | lone {cs : List Char} : Paired cs → (∀ c ∈ rest.head?, c ≠ '"' ∧ c ≠ '\\') →
      AlignedBefore rest (cs ++ ['\\'])

namespace AlignedBefore

variable {cs rest : List Char}

/-- in front of something that would have been hidden, it is in pairs -/
theorem paired_of_hides {c : Char} (h : AlignedBefore (c :: rest) cs) (hc : c = '"' ∨ c = '\\') :
    Paired cs := by
  cases h with
  | paired h => exact h
  | lone _ hnext =>
    obtain ⟨hquote, hslash⟩ := hnext c rfl
    exact absurd hc (not_or.mpr ⟨hquote, hslash⟩)

/-- a backslash at the end is paired with what comes next -/
theorem append {w : List Char} (h : AlignedBefore rest cs) (hne : w ≠ []) (hslash : '\\' ∉ w) :
    Paired (cs ++ w) := by
  cases h with
  | paired h => exact h.append (paired_of_notMem hslash)
  | lone h _ =>
    obtain ⟨c, w, rfl⟩ := List.exists_cons_of_ne_nil hne
    rw [List.append_assoc]
    exact h.append (.pair (paired_of_notMem fun hmem => hslash (List.mem_cons_of_mem c hmem)))

theorem piece {taken : List Char} (h : AlignedBefore (taken ++ rest) cs)
    (hpiece : piece (taken ++ rest) = .text taken rest) : AlignedBefore rest (cs ++ taken) := by
  generalize htext : taken ++ rest = text at h hpiece
  unfold ScriptLexer.piece at hpiece
  split at hpiece
  · cases hpiece
  · cases hpiece
  · cases hpiece
  · cases hpiece
  · cases hpiece
    exact .paired ((h.paired_of_hides (.inr rfl)).append (.pair .nil))
  · cases hpiece
    exact .paired ((h.paired_of_hides (.inr rfl)).append (.pair .nil))
  · rename_i c rest' _ _ _ hquote hslash
    cases hpiece
    by_cases hc : c = '\\'
    · subst hc
      refine .lone (h.paired_of_hides (.inr rfl)) fun d hd => ?_
      obtain ⟨tail, rfl⟩ := List.head?_eq_some_iff.mp hd
      exact ⟨fun hd => hquote tail rfl (by rw [hd]), fun hd => hslash tail rfl (by rw [hd])⟩
    · exact .paired (h.append (List.cons_ne_nil _ _) (by simpa using Ne.symm hc))

end AlignedBefore

/-- the draft of a job, if it has one, is aligned in front of the text that is left -/
def Job.Aligned (rest : List Char) : Job → Prop
  | .tokens _ _ => True
  | .template _ _ d => AlignedBefore rest d.numbered.reverse

theorem Reads.aligned {j k : Job} {x y : List Char} (h : Reads j x y k) :
    j.Aligned (x ++ y) → k.Aligned y := by
  induction h with
  | done => exact id
  | blank _ _ ih => exact fun _ => ih trivial
  | atom _ _ ih => exact fun _ => ih trivial
  | template _ _ _ _ _ ih => exact fun _ => ih trivial
  | macroDef _ _ _ _ _ ih => exact fun _ => ih trivial
  | @text scope start d taken x y k hpiece _ ih =>
    intro hj
    replace hj : AlignedBefore (taken ++ x ++ y) d.numbered.reverse := hj
    rw [List.append_assoc] at hj
    apply ih
    have hnumbered : (d.addText taken).numbered.reverse = d.numbered.reverse ++ taken := by
      simp [Draft.addText]
    show AlignedBefore (x ++ y) (d.addText taken).numbered.reverse
    rw [hnumbered]
    exact hj.piece hpiece
  | @braces scope start d st inner x y k _ _ _ _ ih =>
    intro hj
    replace hj : AlignedBefore _ d.numbered.reverse := hj
    apply ih
    have hnumbered : (d.addBraces start inner st.tokens.reverse).numbered.reverse
        = d.numbered.reverse ++ Nat.toDigits 10 d.sections.length := by
      simp [Draft.addBraces, Draft.addSection]
    show AlignedBefore (x ++ y) (d.addBraces start inner st.tokens.reverse).numbered.reverse
    rw [hnumbered]
    have hslash : '\\' ∉ Nat.toDigits 10 d.sections.length := fun hmem =>
      absurd (Nat.isDigit_of_mem_toDigits (by decide) (by decide) hmem) (by decide)
    exact .paired (hj.append Nat.toDigits_ne_nil hslash)

theorem Opens.aligned {j k : Job} {w y : List Char} {s : List Scope} (h : Opens j w y s k) :
    k.Aligned y := by
  cases h with
  | template _ => exact .paired .nil
  | body _ => trivial
  | braces => trivial

theorem Enters.aligned {j k : Job} {x y : List Char} {outer : List Scope}
    (h : Enters j x y outer k) (hj : j.Aligned (x ++ y)) : k.Aligned y := by
  induction h with
  | here hreads => exact hreads.aligned hj
  | into _ hopens _ ih => exact ih hopens.aligned

end ScriptLexer

import ScriptLexer.Proofs.EscapeGrammar

/-!
# Bodies decoded part by part

An escape sequence looks at the characters behind its backslash, and a failure is counted from the
beginning of the body.  So a body cut in two at any place may mean something else than its parts; but
not if the first part can be decoded in its own right.

* `EscapeUnit.eq_of_append`   where two units begin a text they are the same unit;
* `UnitAt cs front unit`      read from the left, `cs` has `unit` behind `front`;
* `Factors.unitAt_append`     the units of two parts are those of the first, and those of the second
                              further on: none of them begins in one part and ends in the other;
* `decodeEscapes_append`      the texts of two parts are put together, and an error of the second part
                              is moved over the first;
* `decode_append`             both, and the same of the decoder by byte offsets.
-/

namespace ScriptLexer

variable {a b x front unit : List Char}

/-! ## units -/

/-- no unit is a part of another one -/
theorem EscapeUnit.eq_of_append {unit' rest rest' : List Char} {c c' : Char}
    (h : EscapeUnit unit c) (h' : EscapeUnit unit' c') (heq : unit ++ rest = unit' ++ rest') :
    unit = unit' := by
  obtain ⟨d, t, rfl⟩ := List.exists_cons_of_ne_nil h.ne_nil
  obtain ⟨d', t', rfl⟩ := List.exists_cons_of_ne_nil h'.ne_nil
  obtain ⟨rfl, htail⟩ := List.cons.inj heq
  by_cases hd : d = '\\'
  · -- how far a sequence goes is decided by the text behind its backslash
    subst hd
    have htail : t ++ rest = t' ++ rest' := htail
    have hread := h.readEscape rest
    rw [htail, h'.readEscape rest'] at hread
    have hlength : t'.length = t.length := (Prod.mk.inj (Except.ok.inj hread)).2
    rw [(List.append_inj htail hlength.symm).1]
  · cases h with
    | plain _ =>
      cases h' with
      | plain _ => rfl
      | _ => exact absurd rfl hd
    | _ => exact absurd rfl hd

/-- read from the left, the text has a unit behind `front` -/
def UnitAt (cs front unit : List Char) : Prop :=
  ∃ text c rest, Factors front text ∧ EscapeUnit unit c ∧ cs = front ++ (unit ++ rest)

theorem UnitAt.append (h : UnitAt a front unit) (b : List Char) : UnitAt (a ++ b) front unit := by
  obtain ⟨text, c, rest, hfront, hunit, rfl⟩ := h
  exact ⟨text, c, rest ++ b, hfront, hunit, by simp⟩

theorem UnitAt.behind (ha : Factors a x) (h : UnitAt b front unit) :
    UnitAt (a ++ b) (a ++ front) unit := by
  obtain ⟨text, c, rest, hfront, hunit, rfl⟩ := h
  exact ⟨x ++ text, c, rest, ha.append hfront, hunit, (List.append_assoc ..).symm⟩

/-- behind a row of units, the units of a text are those of the row and those of what follows it -/
theorem Factors.unitAt_append (ha : Factors a x) :
    UnitAt (a ++ b) front unit ↔
      UnitAt a front unit ∨ ∃ front', front = a ++ front' ∧ UnitAt b front' unit := by
  constructor
  · rintro ⟨text, c, rest, hfront, hunit, hsplit⟩
    -- the row and `front` are walked in step until one of them ends
    induction ha generalizing front text with
    | nil => exact .inr ⟨front, rfl, text, c, rest, hfront, hunit, hsplit⟩
    | @unit u a x d hu ha ih =>
      rw [List.append_assoc] at hsplit
      cases hfront with
      | nil =>
        obtain rfl : u = unit := hu.eq_of_append hunit hsplit
        exact .inl ⟨[], d, a, .nil, hu, rfl⟩
      | @unit u' front text d' hu' hfront =>
        rw [List.append_assoc] at hsplit
        obtain rfl : u = u' := hu.eq_of_append hu' hsplit
        have hone : Factors u [d] := List.append_nil u ▸ .unit hu .nil
        rcases ih text hfront (List.append_cancel_left hsplit) with hinside | ⟨front', rfl, hbehind⟩
        · exact .inl (hinside.behind hone)
        · exact .inr ⟨front', (List.append_assoc ..).symm, hbehind⟩
  · rintro (h | ⟨front', rfl, h⟩)
    · exact h.append b
    · exact h.behind ha

/-! ## bodies -/

/-- a failure in a text that has `count` bytes in front of it -/
def EscapeError.shift (count : Nat) (e : EscapeError) : EscapeError := ⟨e.cause, e.offset + count⟩

theorem factors_of_decode (h : decodeEscapes a = .ok x) : Factors a x := by
  rcases factors_or_stops a with ⟨text, htext⟩ | ⟨e, he⟩
  · rw [htext.decode] at h
    cases h
    exact htext
  · rw [he.decode] at h
    cases h

/-- behind a part that can be decoded, the rest of a body is decoded as if it stood alone -/
theorem decodeEscapes_append (h : decodeEscapes a = .ok x) (b : List Char) :
    decodeEscapes (a ++ b)
      = ((decodeEscapes b).map (x ++ ·)).mapError (.shift (byteLength a)) := by
  have ha := factors_of_decode h
  rcases factors_or_stops b with ⟨text, htext⟩ | ⟨e, he⟩
  · rw [htext.decode, (ha.append htext).decode]
    rfl
  · rw [he.decode, (ha.stopsAt he).decode, Nat.add_comm]
    rfl

/-- Behind a part that can be decoded, the rest of a body gives what it gives alone: its text behind
that of the first part, or its error with the offset moved over the bytes of the first part.  The
decoder by byte offsets does the same, and no unit of the body begins in the first part and ends
in the second. -/
theorem decode_append (h : decodeEscapes a = .ok x) (b : List Char) :
    (∀ y, decodeEscapes b = .ok y → decodeEscapes (a ++ b) = .ok (x ++ y)) ∧
      (∀ cause offset, decodeEscapes b = .error ⟨cause, offset⟩ →
        decodeEscapes (a ++ b) = .error ⟨cause, offset + byteLength a⟩) ∧
      (∀ y, Machine.decode b = .ok y → Machine.decode (a ++ b) = .ok (x ++ y)) ∧
      (∀ cause offset, Machine.decode b = Run.fail ⟨cause, offset⟩ →
        Machine.decode (a ++ b) = Run.fail ⟨cause, offset + byteLength a⟩) ∧
      ∀ front unit, UnitAt (a ++ b) front unit ↔
        UnitAt a front unit ∨ ∃ front', front = a ++ front' ∧ UnitAt b front' unit := by
  have htext : ∀ y, decodeEscapes b = .ok y → decodeEscapes (a ++ b) = .ok (x ++ y) := by
    intro y hb
    rw [decodeEscapes_append h, hb]
    rfl
  have herror : ∀ cause offset, decodeEscapes b = .error ⟨cause, offset⟩ →
      decodeEscapes (a ++ b) = .error ⟨cause, offset + byteLength a⟩ := by
    intro cause offset hb
    rw [decodeEscapes_append h, hb]
    rfl
  refine ⟨htext, herror, fun y hb => ?_, fun cause offset hb => ?_,
    fun front unit => (factors_of_decode h).unitAt_append⟩
  · rw [Machine.decode_eq] at hb ⊢
    rw [htext y (Run.ofExcept_eq_ok hb), Run.ofExcept_ok]
  · rw [Machine.decode_eq] at hb ⊢
    rw [herror cause offset (Run.ofExcept_eq_fail hb), Run.ofExcept_error]

/-- digits behind a sequence that has all of its own, and a wide character in front of an error -/
theorem decode_append_digits :
    decodeEscapes ['é', '\\', 'x', '4', '1'] = .ok ['é', 'A'] ∧
      decodeEscapes ['é', '\\', 'x', '4', '1', '4', '2'] = .ok ['é', 'A', '4', '2'] ∧
      decodeEscapes ['é', '\\', 'x', '4', '1', '4', '\\'] = .error ⟨.empty, 7⟩ := by
  have hfront : decodeEscapes ['é', '\\', 'x', '4', '1'] = .ok ['é', 'A'] := by decide +kernel
  have hdigits : decodeEscapes ['4', '2'] = .ok ['4', '2'] := decodeEscapes_plain _ rfl
  have hslash : decodeEscapes ['4', '\\'] = .error ⟨.empty, 1⟩ := by decide +kernel
  exact ⟨hfront, (decode_append hfront ['4', '2']).1 _ hdigits,
    (decode_append hfront ['4', '\\']).2.1 _ _ hslash⟩

end ScriptLexer

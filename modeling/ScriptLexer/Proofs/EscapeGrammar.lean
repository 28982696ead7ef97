import Mathlib.Data.List.Induction
import ScriptLexer.Proofs.Machine.Escapes

/-!
# The grammar of escape sequences

A body is factored from the left into units, each of which stands for one character.

* `EscapeUnit unit c`    `unit` stands for `c`: a character other than the backslash, or a backslash
                         with a letter, or with digits in base sixteen;
* `Factors body text`    `body` is a row of units that stand for the characters of `text`;
* `Blocked v cause`      no unit begins with a backslash that has `v` behind it, for this cause;
* `StopsAt body e`       units lead up to a backslash where there is no unit.

Nothing in the grammar chooses: where a unit begins no other unit begins, and a body either factors
or stops (`factors_or_stops`).  Decoding gives what the grammar gives (`Factors.decodeFrom`,
`StopsAt.decode`), so that it says when a body is decoded and when it is not: `decode_grammar`.
-/

namespace ScriptLexer

/-! ## the grammar -/

/-- a hexadecimal digit of either case, with its value -/
inductive HexDigit : Char → Nat → Prop
  | decimal {c : Char} : '0' ≤ c → c ≤ '9' → HexDigit c (c.toNat - '0'.toNat)
  | lower {c : Char} : 'a' ≤ c → c ≤ 'f' → HexDigit c (c.toNat - 'a'.toNat + 10)
  | upper {c : Char} : 'A' ≤ c → c ≤ 'F' → HexDigit c (c.toNat - 'A'.toNat + 10)

/-- a row of hexadecimal digits, with its value -/
inductive HexRun : List Char → Nat → Prop
  | nil : HexRun [] 0
  | concat {ds : List Char} {c : Char} {n d : Nat} : HexRun ds n → HexDigit c d →
      HexRun (ds ++ [c]) (16 * n + d)

/-- the code points that are no characters, as far as four digits reach -/
def IsSurrogate (n : Nat) : Prop := 0xd800 ≤ n ∧ n ≤ 0xdfff

/-- the letters behind which digits stand, with the number of the digits -/
inductive Numbered : Char → Nat → Prop
  | byte : Numbered 'x' 2
  | wide : Numbered 'u' 4

/-- a part of a body that stands for one character -/
inductive EscapeUnit : List Char → Char → Prop
  | plain {c : Char} : c ≠ '\\' → EscapeUnit [c] c
  | itself {c : Char} : c = '\\' ∨ c = '"' ∨ c = '\'' → EscapeUnit ['\\', c] c
  | control {c d : Char} :
      (c, d) ∈ [('r', '\r'), ('n', '\n'), ('b', '\x08'), ('f', '\x0c'), ('t', '\t'), ('v', '\x0b'),
        ('a', '\x07')] →
      EscapeUnit ['\\', c] d
  | octal {c : Char} : '0' ≤ c → c ≤ '7' → EscapeUnit ['\\', c] (Char.ofNat (c.toNat - '0'.toNat))
  | hex {c : Char} {count n : Nat} {ds : List Char} : Numbered c count → ds.length = count →
      HexRun ds n → ¬IsSurrogate n → EscapeUnit ('\\' :: c :: ds) (Char.ofNat n)

/-- a body that is a row of units, with the text that they stand for -/
inductive Factors : List Char → List Char → Prop
  | nil : Factors [] []
  | unit {unit body text : List Char} {c : Char} : EscapeUnit unit c → Factors body text →
      Factors (unit ++ body) (c :: text)

/-- why no unit begins with a backslash and the text behind it -/
inductive Blocked : List Char → EscapeCause → Prop
  | empty : Blocked [] .empty
  | few {c : Char} {count n : Nat} {ds rest : List Char} : Numbered c count → HexRun ds n →
      (∀ x d, rest.head? = some x → ¬HexDigit x d) → ds.length < count →
      Blocked (c :: (ds ++ rest)) (.notEnoughDigits c count ds.length)
  | surrogate {c : Char} {count n : Nat} {ds rest : List Char} : Numbered c count →
      ds.length = count → HexRun ds n → IsSurrogate n →
      Blocked (c :: (ds ++ rest)) (.invalidCodePoint n)
  | unknown {c : Char} {rest : List Char} : (∀ d, ¬EscapeUnit ['\\', c] d) →
      (∀ count, ¬Numbered c count) → Blocked (c :: rest) (.unknown c)

/-- units lead up to a backslash behind which there is no unit -/
inductive StopsAt : List Char → EscapeError → Prop
  | mk {front text v : List Char} {cause : EscapeCause} : Factors front text →
      (∀ unit rest c, '\\' :: v = unit ++ rest → ¬EscapeUnit unit c) → Blocked v cause →
      StopsAt (front ++ '\\' :: v) ⟨cause, byteLength front⟩

/-! ## digits -/

theorem HexDigit.digitValue? {c : Char} {d : Nat} (h : HexDigit c d) : digitValue? c = some d := by
  have hnot : ∀ {a b : Char}, b < a → a ≤ c → ¬c ≤ b := fun hba hac hcb =>
    absurd (Nat.lt_of_lt_of_le hba (Nat.le_trans hac hcb)) (Nat.lt_irrefl _)
  unfold ScriptLexer.digitValue?
  cases h with
  | decimal hlow hhigh => rw [if_pos ⟨hlow, hhigh⟩]
  | lower hlow hhigh =>
    have hdecimal : ¬('0' ≤ c ∧ c ≤ '9') := fun h => hnot (by decide) hlow h.2
    rw [if_neg hdecimal, if_pos ⟨hlow, hhigh⟩]
  | upper hlow hhigh =>
    have hdecimal : ¬('0' ≤ c ∧ c ≤ '9') := fun h => hnot (by decide) hlow h.2
    have hlower : ¬('a' ≤ c ∧ c ≤ 'f') := fun h => hnot (by decide) h.1 hhigh
    rw [if_neg hdecimal, if_neg hlower, if_pos ⟨hlow, hhigh⟩]

theorem hexDigit_of_digitValue? {c : Char} {d : Nat} (h : digitValue? c = some d) :
    HexDigit c d := by
  unfold digitValue? at h
  split at h
  · rename_i hc
    cases h
    exact .decimal hc.1 hc.2
  split at h
  · rename_i hc
    cases h
    exact .lower hc.1 hc.2
  split at h
  · rename_i hc
    cases h
    exact .upper hc.1 hc.2
  · cases h

theorem hexDigit_iff {c : Char} {d : Nat} : HexDigit c d ↔ digitValue? c = some d :=
  ⟨HexDigit.digitValue?, hexDigit_of_digitValue?⟩

theorem isHexDigit_iff {c : Char} : isHexDigit c = true ↔ ∃ d, HexDigit c d := by
  simp only [isHexDigit, Option.isSome_iff_exists, hexDigit_iff]

theorem HexRun.digits {ds : List Char} {n : Nat} (h : HexRun ds n) :
    ∀ c ∈ ds, isHexDigit c = true := by
  induction h with
  | nil => exact fun c hc => absurd hc List.not_mem_nil
  | concat _ hd ih =>
    intro c hc
    rcases List.mem_append.mp hc with hc | hc
    · exact ih c hc
    · rw [List.mem_singleton.mp hc]
      exact isHexDigit_iff.mpr ⟨_, hd⟩

theorem HexRun.value {ds : List Char} {n : Nat} (h : HexRun ds n) : digitsValue 16 ds = n := by
  induction h with
  | nil => rfl
  | concat _ hd ih => rw [digitsValue_concat 16 _ hd.digitValue?, ih, Nat.mul_comm]

theorem hexRun_of_digits {ds : List Char} (h : ∀ c ∈ ds, isHexDigit c = true) :
    HexRun ds (digitsValue 16 ds) := by
  induction ds using List.reverseRecOn with
  | nil => exact .nil
  | append_singleton ds c ih =>
    obtain ⟨d, hd⟩ := isHexDigit_iff.mp (h c (by simp))
    rw [digitsValue_concat 16 ds hd.digitValue?, Nat.mul_comm]
    exact (ih fun x hx => h x (List.mem_append_left _ hx)).concat hd

/-- as many digits as stand in front, but no more than `count` -/
theorem hexRun_split (count : Nat) (cs : List Char) :
    ∃ ds rest, cs = ds ++ rest ∧ HexRun ds (digitsValue 16 ds) ∧
      (ds.length = count ∨ ds.length < count ∧ ∀ x d, rest.head? = some x → ¬HexDigit x d) := by
  suffices h : ∃ ds rest, cs = ds ++ rest ∧ (∀ c ∈ ds, isHexDigit c = true) ∧
      (ds.length = count ∨ ds.length < count ∧ ∀ x d, rest.head? = some x → ¬HexDigit x d) by
    obtain ⟨ds, rest, hsplit, hdigits, hlen⟩ := h
    exact ⟨ds, rest, hsplit, hexRun_of_digits hdigits, hlen⟩
  induction count generalizing cs with
  | zero => exact ⟨[], cs, rfl, by simp, .inl rfl⟩
  | succ count ih =>
    cases cs with
    | nil => exact ⟨[], [], rfl, by simp, .inr ⟨Nat.succ_pos _, by simp⟩⟩
    | cons c cs =>
      by_cases hc : isHexDigit c = true
      · obtain ⟨ds, rest, rfl, hdigits, hlen⟩ := ih cs
        refine ⟨c :: ds, rest, rfl, ?_, ?_⟩
        · simpa using ⟨hc, hdigits⟩
        · rcases hlen with hlen | ⟨hlen, hrest⟩
          · exact .inl (congrArg Nat.succ hlen)
          · exact .inr ⟨Nat.succ_lt_succ hlen, hrest⟩
      · refine ⟨[], c :: cs, rfl, by simp, .inr ⟨Nat.succ_pos _, ?_⟩⟩
        intro x d hx hd
        cases hx
        exact hc (isHexDigit_iff.mpr ⟨d, hd⟩)

/-- the digits that `readHex` counts are the row in front -/
theorem takeWhile_take_eq {count : Nat} {ds rest : List Char}
    (hdigits : ∀ c ∈ ds, isHexDigit c = true) (hle : ds.length ≤ count)
    (hrest : ds.length = count ∨ ∀ x d, rest.head? = some x → ¬HexDigit x d) :
    ((ds ++ rest).take count).takeWhile isHexDigit = ds := by
  rw [List.take_append, List.take_of_length_le hle, List.takeWhile_append_of_pos hdigits]
  rcases hrest with rfl | hrest
  · rw [Nat.sub_self, List.take_zero, List.takeWhile_nil, List.append_nil]
  · cases rest with
    | nil => rw [List.take_nil, List.takeWhile_nil, List.append_nil]
    | cons x rest =>
      have hx : isHexDigit x = false := by
        refine Bool.eq_false_iff.mpr fun h => ?_
        obtain ⟨d, hd⟩ := isHexDigit_iff.mp h
        exact hrest x d rfl hd
      cases count - ds.length with
      | zero => rw [List.take_zero, List.takeWhile_nil, List.append_nil]
      | succ k =>
        rw [List.take_succ_cons, List.takeWhile_cons, hx]
        exact List.append_nil ds

theorem HexRun.lt {ds : List Char} {n : Nat} (h : HexRun ds n) : n < 16 ^ ds.length := by
  have hlt := digitsValueFrom_lt 16 0 fun c hc => .inr (isDigitOf_of_isHexDigit (h.digits c hc))
  rw [digitCount_eq_length fun c hc => ne_underscore_of_isHexDigit (h.digits c hc), Nat.zero_add,
    Nat.one_mul] at hlt
  rw [← h.value]
  exact hlt

theorem Numbered.le {c : Char} {count : Nat} (h : Numbered c count) : count ≤ 4 := by
  cases h <;> decide

theorem Numbered.lookup {c : Char} {count : Nat} (h : Numbered c count) :
    simpleEscapes.lookup c = none ∧ hexEscapes.lookup c = some count := by
  cases h <;> decide

/-- a row of at most four digits names a character unless it names a surrogate -/
theorem HexRun.isValidChar_iff {ds : List Char} {n : Nat} (h : HexRun ds n)
    (hlen : ds.length ≤ 4) : n.isValidChar ↔ ¬IsSurrogate n := by
  have hlt : n < 16 ^ 4 := Nat.lt_of_lt_of_le h.lt (Nat.pow_le_pow_right (by decide) hlen)
  unfold Nat.isValidChar IsSurrogate
  omega

/-! ## one unit -/

theorem simpleEscapes_unit {c d : Char} (h : simpleEscapes.lookup c = some d) :
    EscapeUnit ['\\', c] d := by
  obtain ⟨u, v, hsplit, _⟩ := List.lookup_eq_some_iff.mp h
  have hmem : (c, d) ∈ simpleEscapes := by
    rw [hsplit]
    simp
  simp only [simpleEscapes, List.mem_cons, Prod.mk.injEq, List.not_mem_nil, or_false] at hmem
  rcases hmem with ⟨rfl, rfl⟩ | ⟨rfl, rfl⟩ | ⟨rfl, rfl⟩ | h
  · exact .itself (.inl rfl)
  · exact .itself (.inr (.inl rfl))
  · exact .itself (.inr (.inr rfl))
  rcases h with ⟨rfl, rfl⟩ | ⟨rfl, rfl⟩ | ⟨rfl, rfl⟩ | ⟨rfl, rfl⟩ | ⟨rfl, rfl⟩ | ⟨rfl, rfl⟩ |
    ⟨rfl, rfl⟩ | h
  iterate 7 exact .control (by decide)
  rcases h with ⟨rfl, rfl⟩ | ⟨rfl, rfl⟩ | ⟨rfl, rfl⟩ | ⟨rfl, rfl⟩ | ⟨rfl, rfl⟩ | ⟨rfl, rfl⟩ |
    ⟨rfl, rfl⟩ | ⟨rfl, rfl⟩
  all_goals exact .octal (by decide) (by decide)

theorem EscapeUnit.readEscape {t : List Char} {c : Char} (h : EscapeUnit ('\\' :: t) c)
    (rest : List Char) : readEscape (t ++ rest) = .ok (c, t.length) := by
  cases h with
  | plain hc => exact absurd rfl hc
  | itself hc => rcases hc with rfl | rfl | rfl <;> rfl
  | control hc =>
    simp only [List.mem_cons, Prod.mk.injEq, List.not_mem_nil, or_false] at hc
    rcases hc with ⟨rfl, rfl⟩ | ⟨rfl, rfl⟩ | ⟨rfl, rfl⟩ | ⟨rfl, rfl⟩ | ⟨rfl, rfl⟩ | ⟨rfl, rfl⟩ |
      ⟨rfl, rfl⟩ <;> rfl
  | octal hlow hhigh =>
    have hmem := Machine.octal_mem ⟨hlow, hhigh⟩
    simp only [List.mem_cons, List.not_mem_nil, or_false] at hmem
    rcases hmem with rfl | rfl | rfl | rfl | rfl | rfl | rfl | rfl <;> rfl
  | @hex letter count n ds hletter hlen hrun hvalid =>
    obtain ⟨hsimple, hhex⟩ := hletter.lookup
    have hle : ds.length ≤ 4 := hlen ▸ hletter.le
    have hread : readHex letter count (ds ++ rest) = .ok (Char.ofNat n) := by
      rw [readHex]
      simp only [takeWhile_take_eq hrun.digits (Nat.le_of_eq hlen) (.inl hlen), hrun.value]
      rw [if_neg (Nat.not_lt.mpr (Nat.le_of_eq hlen.symm)),
        if_pos ((hrun.isValidChar_iff hle).mpr hvalid)]
    rw [List.cons_append, ScriptLexer.readEscape, hsimple, hhex]
    show (readHex letter count (ds ++ rest)).map _ = _
    rw [hread, ← hlen]
    rfl

theorem Blocked.readEscape {v : List Char} {cause : EscapeCause} (h : Blocked v cause) :
    readEscape v = .error cause := by
  cases h with
  | empty => rfl
  | @few letter count n ds rest hletter hrun hrest hlt =>
    obtain ⟨hsimple, hhex⟩ := hletter.lookup
    rw [ScriptLexer.readEscape, hsimple, hhex]
    show (readHex letter count (ds ++ rest)).map _ = _
    rw [readHex]
    simp only [takeWhile_take_eq hrun.digits (Nat.le_of_lt hlt) (.inr hrest), if_pos hlt]
    rfl
  | @surrogate letter count n ds rest hletter hlen hrun hvalue =>
    obtain ⟨hsimple, hhex⟩ := hletter.lookup
    have hle : ds.length ≤ 4 := hlen ▸ hletter.le
    have hinvalid : ¬n.isValidChar := fun h => (hrun.isValidChar_iff hle).mp h hvalue
    rw [ScriptLexer.readEscape, hsimple, hhex]
    show (readHex letter count (ds ++ rest)).map _ = _
    rw [readHex]
    simp only [takeWhile_take_eq hrun.digits (Nat.le_of_eq hlen) (.inl hlen), hrun.value]
    rw [if_neg (Nat.not_lt.mpr (Nat.le_of_eq hlen.symm)), if_neg hinvalid]
    rfl
  | @unknown letter rest hsimple hnumbered =>
    have hnone : simpleEscapes.lookup letter = none := by
      refine Option.eq_none_iff_forall_ne_some.mpr fun d hd => ?_
      exact hsimple d (simpleEscapes_unit hd)
    have hx : letter ≠ 'x' := fun h => hnumbered 2 (h ▸ .byte)
    have hu : letter ≠ 'u' := fun h => hnumbered 4 (h ▸ .wide)
    have hhex : hexEscapes.lookup letter = none := by
      simp [hexEscapes, List.lookup_cons, beq_eq_false_iff_ne.mpr hu, beq_eq_false_iff_ne.mpr hx]
    rw [ScriptLexer.readEscape, hnone, hhex]

/-- behind a backslash there is a unit or a cause that there is none -/
theorem unit_or_blocked (v : List Char) :
    (∃ t rest c, v = t ++ rest ∧ EscapeUnit ('\\' :: t) c) ∨ ∃ cause, Blocked v cause := by
  cases v with
  | nil => exact .inr ⟨_, .empty⟩
  | cons c cs =>
    by_cases hletter : ∃ d, EscapeUnit ['\\', c] d
    · obtain ⟨d, hd⟩ := hletter
      exact .inl ⟨[c], cs, d, rfl, hd⟩
    by_cases hnumbered : ∃ count, Numbered c count
    · obtain ⟨count, hcount⟩ := hnumbered
      obtain ⟨ds, rest, rfl, hrun, hlen⟩ := hexRun_split count cs
      rcases hlen with hlen | ⟨hlt, hrest⟩
      · by_cases hvalue : IsSurrogate (digitsValue 16 ds)
        · exact .inr ⟨_, .surrogate hcount hlen hrun hvalue⟩
        · exact .inl ⟨c :: ds, rest, _, rfl, .hex hcount hlen hrun hvalue⟩
      · exact .inr ⟨_, .few hcount hrun hrest hlt⟩
    · refine .inr ⟨_, .unknown (fun d hd => hletter ⟨d, hd⟩) fun count hcount => ?_⟩
      exact hnumbered ⟨count, hcount⟩

theorem Blocked.not_unit {v : List Char} {cause : EscapeCause} (h : Blocked v cause)
    {unit rest : List Char} {c : Char} (hsplit : '\\' :: v = unit ++ rest) :
    ¬EscapeUnit unit c := by
  intro hunit
  cases unit with
  | nil => nomatch hunit
  | cons x t =>
    obtain ⟨rfl, hv⟩ := List.cons.inj hsplit
    have hread := hunit.readEscape rest
    rw [show t ++ rest = v from hv.symm, h.readEscape] at hread
    cases hread

/-! ## a body -/

theorem EscapeUnit.ne_nil {unit : List Char} {c : Char} (h : EscapeUnit unit c) : unit ≠ [] := by
  rintro rfl
  nomatch h

theorem EscapeUnit.decodeFrom {unit : List Char} {c : Char} (h : EscapeUnit unit c) (offset : Nat)
    (done rest : List Char) : decodeFrom offset done (unit ++ rest)
      = decodeFrom (offset + byteLength unit) (c :: done) rest := by
  obtain ⟨x, t, rfl⟩ := List.exists_cons_of_ne_nil h.ne_nil
  by_cases hx : x = '\\'
  · subst hx
    have hread := h.readEscape rest
    obtain ⟨t', rest', hsplit, hlen, hbytes⟩ := readEscape_split hread
    obtain ⟨rfl, rfl⟩ := List.append_inj hsplit hlen.symm
    have hslash : ('\\' : Char).utf8Size = 1 := rfl
    rw [List.cons_append, ScriptLexer.decodeFrom, if_pos rfl]
    simp only [hread, List.drop_left]
    rw [byteLength_cons, hbytes, hslash, Nat.add_assoc]
  · cases h with
    | plain => rw [List.singleton_append, decodeFrom_of_ne offset done hx, byteLength_cons]; rfl
    | _ => exact absurd rfl hx

theorem Factors.decodeFrom {body text : List Char} (h : Factors body text) (offset : Nat)
    (done rest : List Char) : decodeFrom offset done (body ++ rest)
      = decodeFrom (offset + byteLength body) (text.reverse ++ done) rest := by
  induction h generalizing offset done with
  | nil => rfl
  | @unit unit body text c hunit _ ih =>
    rw [List.append_assoc, hunit.decodeFrom, ih, byteLength_append, List.reverse_cons,
      List.append_assoc, Nat.add_assoc]
    rfl

theorem Factors.decode {body text : List Char} (h : Factors body text) :
    decodeEscapes body = .ok text := by
  have hdecode := h.decodeFrom 0 [] []
  rwa [List.append_nil, List.append_nil, decodeFrom_nil, List.reverse_reverse] at hdecode

theorem StopsAt.decode {body : List Char} {e : EscapeError} (h : StopsAt body e) :
    decodeEscapes body = .error e := by
  cases h with
  | @mk front text v cause hfront _ hblocked =>
    rw [decodeEscapes, hfront.decodeFrom, decodeFrom, if_pos rfl]
    simp only [hblocked.readEscape, Nat.zero_add]

theorem Factors.append {a b text text' : List Char} (ha : Factors a text) (hb : Factors b text') :
    Factors (a ++ b) (text ++ text') := by
  induction ha with
  | nil => exact hb
  | unit hunit _ ih =>
    rw [List.append_assoc]
    exact .unit hunit ih

/-- a body stops behind a row of units where it stops without them -/
theorem Factors.stopsAt {a b text : List Char} {e : EscapeError} (ha : Factors a text)
    (hb : StopsAt b e) : StopsAt (a ++ b) ⟨e.cause, byteLength a + e.offset⟩ := by
  cases hb with
  | mk hfront hnone hblocked =>
    rw [← List.append_assoc, ← byteLength_append]
    exact .mk (ha.append hfront) hnone hblocked

/-- what blocks a unit blocks it in front of another backslash, too -/
theorem Blocked.in_front_of_backslash {v : List Char} {cause : EscapeCause} (h : Blocked v cause)
    (hcause : cause ≠ .empty) (z : List Char) : Blocked (v ++ '\\' :: z) cause := by
  cases h with
  | empty => exact absurd rfl hcause
  | @few letter count n ds rest hletter hrun hrest hlt =>
    rw [List.cons_append, List.append_assoc]
    refine .few hletter hrun (fun x d hx hd => ?_) hlt
    cases rest with
    | nil =>
      obtain rfl : '\\' = x := Option.some.inj hx
      exact absurd hd.digitValue? (by rw [show digitValue? '\\' = none from rfl]; simp)
    | cons y rest => exact hrest x d hx hd
  | surrogate hletter hlen hrun hvalue =>
    rw [List.cons_append, List.append_assoc]
    exact .surrogate hletter hlen hrun hvalue
  | unknown hsimple hnumbered => exact .unknown hsimple hnumbered

theorem StopsAt.in_front_of_backslash {body : List Char} {e : EscapeError} (h : StopsAt body e)
    (hcause : e.cause ≠ .empty) (z : List Char) : StopsAt (body ++ '\\' :: z) e := by
  cases h with
  | mk hfront _ hblocked =>
    have hblocked' := hblocked.in_front_of_backslash hcause z
    rw [List.append_assoc]
    exact .mk hfront (fun _ _ _ hsplit => hblocked'.not_unit hsplit) hblocked'

/-- every body factors, or stops at a backslash -/
theorem factors_or_stops (body : List Char) :
    (∃ text, Factors body text) ∨ ∃ e, StopsAt body e := by
  -- `Factors` grows in front, so the units in front of a stop are found before those behind them
  have hunit : ∀ {unit rest : List Char} {c : Char}, EscapeUnit unit c →
      (∃ text, Factors rest text) ∨ (∃ e, StopsAt rest e) →
      (∃ text, Factors (unit ++ rest) text) ∨ ∃ e, StopsAt (unit ++ rest) e := by
    intro unit rest c hunit hrest
    rcases hrest with ⟨text, htext⟩ | ⟨e, he⟩
    · exact .inl ⟨_, .unit hunit htext⟩
    · have hone : Factors unit [c] := List.append_nil unit ▸ .unit hunit .nil
      exact .inr ⟨_, hone.stopsAt he⟩
  induction body using (measure List.length).wf.induction with
  | _ body ih =>
  cases body with
  | nil => exact .inl ⟨[], .nil⟩
  | cons c cs =>
    by_cases hc : c = '\\'
    · subst hc
      rcases unit_or_blocked cs with ⟨t, rest, d, rfl, hd⟩ | ⟨cause, hcause⟩
      · have hshort : rest.length < ('\\' :: (t ++ rest)).length := by
          rw [List.length_cons, List.length_append]
          omega
        exact hunit hd (ih rest hshort)
      · exact .inr ⟨_, .mk .nil (fun _ _ _ hsplit => hcause.not_unit hsplit) hcause⟩
    · exact hunit (.plain hc) (ih cs (Nat.lt_succ_self _))

/-- A body is decoded exactly when it factors into units, and then into what they stand for;
otherwise it fails, at the backslash where factoring stops and for the cause that there is no unit.
What comes out is what the decoder by byte offsets computes. -/
theorem decode_grammar (body : List Char) :
    (∀ text, decodeEscapes body = .ok text ↔ Factors body text) ∧
      (∀ e, decodeEscapes body = .error e ↔ StopsAt body e) ∧
      Machine.decode body = .ofExcept (decodeEscapes body) := by
  refine ⟨fun text => ⟨fun h => ?_, Factors.decode⟩, fun e => ⟨fun h => ?_, StopsAt.decode⟩,
    Machine.decode_eq body⟩
  · rcases factors_or_stops body with ⟨text', htext⟩ | ⟨e, he⟩
    · rw [htext.decode] at h
      cases h
      exact htext
    · rw [he.decode] at h
      cases h
  · rcases factors_or_stops body with ⟨text, htext⟩ | ⟨e', he⟩
    · rw [htext.decode] at h
      cases h
    · rw [he.decode] at h
      cases h
      exact he

end ScriptLexer

import ScriptLexer.Proofs.Machine.Frames
import ScriptLexer.Proofs.Machine.Lands

/-!
# What an operation of the machine reads

Wherever the reader stands on a character boundary, an operation of the machine leads it to another
one, no matter what else the machine holds.

* `Went m x y k m'`    from `m` to `m'` the reader has gone on over `x`, and `y` is left; of the line
                       breaks in `x`, `k` are not counted yet;
* `Further`, `Beyond`  the same without an end of the way: at least behind `x`, or at least one character
                       more;
* `Ended`              on its way the machine has come to the end of a list;
* `lands_of_steps`     a loop whose steps go on over text has turns enough if it has more of them than
                       there are characters.

There is one lemma for each operation, put together as the operation is.  Where the reader steps back
over a character, what follows takes that character again, so the lemma there is about both.
-/

namespace ScriptLexer

variable {β σ : Type}

/-! ## the way of the reader -/

/-- a place in a text splits it in one way -/
theorem Reader.between_inj {a b a' b' : List Char} (h : between a b = between a' b') :
    a = a' ∧ b = b' := by
  obtain ⟨htext, hpos⟩ := Reader.mk.inj h
  exact append_inj_of_byteLength htext hpos

namespace Machine

open Run (Agree Lands Steps)

/-- `m'` is in the text of `m`, behind the characters `x` that came next there and in front of `y`; of the
line breaks in `x`, `k` are not counted yet -/
structure Went (m : Machine) (x y : List Char) (k : Nat) (m' : Machine) : Prop where
  reader : ∃ a, m.reader = .between a (x ++ y) ∧ m'.reader = .between (a ++ x) y
  line : m'.line + k = m.line + x.count '\n'

/-- `m'` is behind `x`, or further on -/
def Further (m : Machine) (x : List Char) (k : Nat) (m' : Machine) : Prop :=
  ∃ z y, m.Went (x ++ z) y k m'

/-- `m'` is further on than behind `x` -/
def Beyond (m : Machine) (x : List Char) (k : Nat) (m' : Machine) : Prop :=
  ∃ c, m.Further (x ++ [c]) k m'

variable {late : Prop} {m₀ m m' m'' : Machine} {x y x' y' : List Char} {k k' : Nat}

namespace Went

theorem refl {a b : List Char} (h : m.reader = .between a b) : m.Went [] b 0 m :=
  ⟨⟨a, h, by rw [h, List.append_nil]⟩, rfl⟩

theorem here (h : m₀.Went x y k m) : ∃ a, m.reader = .between a y := by
  obtain ⟨a, _, ha⟩ := h.reader
  exact ⟨a ++ x, ha⟩

/-- the text does not change -/
theorem append_eq (h : m₀.Went x y k m) (h' : m₀.Went x' y' k' m') : x ++ y = x' ++ y' := by
  obtain ⟨a, ha, _⟩ := h.reader
  obtain ⟨a', ha', _⟩ := h'.reader
  exact (Reader.between_inj (ha.symm.trans ha')).2

/-- over the next characters -/
theorem on {t a : List Char} (h : m₀.Went x (t ++ y) k m) (ha : m.reader = .between a (t ++ y)) :
    m₀.Went (x ++ t) y (k + t.count '\n') (m.moved (.between (a ++ t) y)) := by
  obtain ⟨a₀, h₀, h₁⟩ := h.reader
  obtain ⟨rfl, -⟩ := Reader.between_inj (ha.symm.trans h₁)
  refine ⟨⟨a₀, by rw [h₀, List.append_assoc], by rw [← List.append_assoc]; rfl⟩, ?_⟩
  have hline := h.line
  rw [List.count_append]
  show m.line + _ = _
  omega

theorem trans (h : m.Went x y k m') (h' : m'.Went x' y' k' m'') :
    m.Went (x ++ x') y' (k + k') m'' := by
  obtain ⟨a, h₀, h₁⟩ := h.reader
  obtain ⟨a', h₂, h₃⟩ := h'.reader
  obtain ⟨rfl, rfl⟩ := Reader.between_inj (h₁.symm.trans h₂)
  refine ⟨⟨a, by rw [h₀, List.append_assoc], by rw [h₃, List.append_assoc]⟩, ?_⟩
  have hline := h.line
  have hline' := h'.line
  rw [List.count_append]
  omega

theorem further (h : m₀.Went x y k m) : m₀.Further x k m := ⟨[], y, by rwa [List.append_nil]⟩

/-- nowhere -/
theorem stays {r : Reader} (h : m₀.Went x y k m) (hr : m.reader = r) : m₀.Went x y k (m.moved r) :=
  ⟨by rw [← hr]; exact h.reader, h.line⟩

/-- what else the machine keeps does not matter -/
theorem congr (h : m₀.Went x y k m) (hreader : m'.reader = m.reader) (hline : m'.line = m.line) :
    m₀.Went x y k m' := ⟨by rw [hreader]; exact h.reader, by rw [hline]; exact h.line⟩

end Went

namespace Further

theorem congr (h : m₀.Further x k m) (hreader : m'.reader = m.reader) (hline : m'.line = m.line) :
    m₀.Further x k m' := by
  obtain ⟨z, y, hwent⟩ := h
  exact ⟨z, y, hwent.congr hreader hline⟩

/-- as far as a part of the way -/
theorem of_append {z : List Char} (h : m₀.Further (x ++ z) k m) : m₀.Further x k m := by
  obtain ⟨z', y, hwent⟩ := h
  exact ⟨z ++ z', y, by rwa [← List.append_assoc]⟩

theorem beyond {c : Char} (h : m₀.Further (x ++ [c]) k m) : m₀.Beyond x k m := ⟨c, h⟩

end Further

theorem Went.pos_lt {c : Char} (h : m₀.Went x y k m) (h' : m₀.Further (x ++ [c]) k' m') :
    m.reader.pos < m'.reader.pos := by
  obtain ⟨z, y', h'⟩ := h'
  obtain ⟨a, h₀, h₁⟩ := h.reader
  obtain ⟨a', h₂, h₃⟩ := h'.reader
  obtain ⟨rfl, -⟩ := Reader.between_inj (h₀.symm.trans h₂)
  have hc := c.utf8Size_pos
  rw [h₁, h₃]
  show byteLength (a ++ x) < byteLength (a ++ (x ++ [c] ++ z))
  simp only [byteLength_append, byteLength_cons, byteLength_nil]
  omega

/-- a place as far as the offset that it is given -/
theorem Went.offset_lt {c : Char} (h : m₀.Went x y k m) (h' : m₀.Further (x ++ [c]) k' m') :
    m.position.offset < m'.reader.pos := Nat.lt_of_le_of_lt (Nat.mod_le _ _) (h.pos_lt h')

theorem Beyond.further (h : m₀.Beyond x k m) : m₀.Further x k m := by
  obtain ⟨c, h⟩ := h
  exact h.of_append

/-- loops that go on over text at each step, in the same way, come to the same end before they run out of
turns, if they have more of them than there are characters -/
theorem agrees_of_steps {κ : Type} (loop : κ → Nat → σ → Run LexError β) {place : σ → Machine}
    {out : β → Machine}
    (hstep : ∀ x y s, m₀.Went x y 0 (place s) →
      Steps late (fun (i : κ × Nat) => loop i.1 i.2) (fun i => loop i.1 (i.2 + 1) s)
        (fun s' => m₀.Beyond x 0 (place s')) (fun v => m₀.Further x 0 (out v)))
    {s : σ} {n : Nat} (hn : y.length < n) (h : m₀.Went x y 0 (place s)) (i j : κ) :
    Agree late (loop i n s) (loop j n s) fun v => m₀.Further x 0 (out v) := by
  induction n generalizing x y s with
  | zero => exact absurd hn (Nat.not_lt_zero _)
  | succ n ih =>
    cases hstep x y s h with
    | ends r hr hloop =>
      have hi : loop i (n + 1) s = r := hloop (i, n)
      have hj : loop j (n + 1) s = r := hloop (j, n)
      rw [hi, hj]
      exact .same hr
    | goes s' hs hloop =>
      obtain ⟨c, z, y', hs⟩ := hs
      have htext := congrArg List.length (h.append_eq hs)
      simp only [List.length_append, List.length_singleton] at htext
      have hi : loop i (n + 1) s = loop i n s' := hloop (i, n)
      have hj : loop j (n + 1) s = loop j n s' := hloop (j, n)
      have hrest := ih (by omega) hs
      rw [hi, hj]
      exact ⟨hrest.eq, hrest.lands.imp fun v hv => hv.of_append.of_append⟩

theorem lands_of_steps (loop : Nat → σ → Run LexError β) {place : σ → Machine} {out : β → Machine}
    (hstep : ∀ x y s, m₀.Went x y 0 (place s) → Steps late loop (fun n => loop (n + 1) s)
      (fun s' => m₀.Beyond x 0 (place s')) (fun v => m₀.Further x 0 (out v)))
    {s : σ} {n : Nat} (hn : y.length < n) (h : m₀.Went x y 0 (place s)) :
    Lands late (loop n s) fun v => m₀.Further x 0 (out v) :=
  (agrees_of_steps (fun _ : Unit => loop) (fun x y s h => (hstep x y s h).comp Prod.snd) hn h
    () ()).lands

/-! ## moves -/

/-- what comes of reading a character -/
inductive Took (m₀ : Machine) (x y : List Char) (k : Nat) : Option Char → Machine → Prop where
  | nothing {m : Machine} (hy : y = []) (h : m₀.Went x [] k m) : Took m₀ x y k none m
  | lineBreak {m : Machine} {y' : List Char} (hy : y = '\n' :: y')
      (h : m₀.Went (x ++ ['\n']) y' (k + 1) m) : Took m₀ x y k (some '\n') m
  | char {m : Machine} {c : Char} {y' : List Char} (hc : c ≠ '\n') (hy : y = c :: y')
      (h : m₀.Went (x ++ [c]) y' k m) : Took m₀ x y k (some c) m

theorem read_lands (h : m₀.Went x y k m) :
    Lands late (m.reading Reader.read) fun r => m₀.Took x y k r.1 r.2 := by
  obtain ⟨a, ha⟩ := h.here
  unfold reading
  rw [ha]
  cases y with
  | nil =>
    rw [Reader.read_nil]
    exact .nothing rfl (h.stays ha)
  | cons c y =>
    rw [Reader.read_cons]
    have hon := h.on (t := [c]) ha
    by_cases hc : c = '\n'
    · subst hc
      exact .lineBreak rfl hon
    · rw [List.count_singleton, if_neg (by simpa using hc)] at hon
      exact .char hc rfl hon

/-- what comes of asking for a character of a class without line breaks -/
inductive Tried (p : Char → Bool) (m₀ : Machine) (x y : List Char) (k : Nat) : Bool → Machine → Prop where
  | taken {m : Machine} {c : Char} {y' : List Char} (hc : p c = true) (hy : y = c :: y')
      (h : m₀.Went (x ++ [c]) y' k m) : Tried p m₀ x y k true m
  | left {m : Machine} (hy : ∀ c ∈ y.head?, p c = false) (h : m₀.Went x y k m) :
      Tried p m₀ x y k false m

theorem try_lands {p : Char → Bool} (hp : p '\n' = false) (h : m₀.Went x y k m) :
    Lands late (m.reading (Reader.eatIf p)) fun r => Tried p m₀ x y k r.1 r.2 := by
  obtain ⟨a, ha⟩ := h.here
  unfold reading
  rw [ha]
  cases y with
  | nil =>
    rw [Reader.eatIf_nil]
    exact .left (by simp) (h.stays ha)
  | cons c y =>
    cases hc : p c with
    | false =>
      rw [Reader.eatIf_neg hc]
      exact .left (by simpa using hc) (h.stays ha)
    | true =>
      rw [Reader.eatIf_pos hc]
      have hon := h.on (t := [c]) ha
      have hbreak : c ≠ '\n' := by
        rintro rfl
        rw [hp] at hc
        cases hc
      rw [List.count_singleton, if_neg (by simpa using hbreak)] at hon
      exact .taken hc rfl hon

theorem eatIf_lands {p : Char → Bool} (hp : p '\n' = false) (h : m₀.Further x k m) :
    Lands late (m.reading (Reader.eatIf p)) fun r => m₀.Further x k r.2 := by
  obtain ⟨z, y, h⟩ := h
  refine (try_lands hp h).imp ?_
  rintro ⟨_, m⟩ htried
  cases htried with
  | taken _ _ h => exact h.further.of_append.of_append
  | left _ h => exact h.further.of_append

theorem eatChar_lands {c : Char} (hc : c ≠ '\n') (h : m₀.Further x k m) :
    Lands late (m.reading (Reader.eatIf (· == c))) fun r => m₀.Further x k r.2 :=
  eatIf_lands (p := fun d => d == c) (beq_eq_false_iff_ne.mpr hc.symm) h

theorem eatBreak_lands (h : m₀.Further x k m) :
    Lands late (m.reading (Reader.eatIf (· == '\n'))) fun r =>
      if r.1 = true then ∃ z y, m₀.Went (x ++ z ++ ['\n']) y (k + 1) r.2 else m₀.Further x k r.2 := by
  obtain ⟨z, y, h⟩ := h
  obtain ⟨a, ha⟩ := h.here
  unfold reading
  rw [ha]
  cases y with
  | nil =>
    rw [Reader.eatIf_nil]
    exact (h.stays ha).further.of_append
  | cons c y =>
    cases hc : c == '\n' with
    | true =>
      obtain rfl : c = '\n' := beq_iff_eq.mp hc
      rw [Reader.eatIf_pos (p := fun c => c == '\n') hc]
      exact ⟨z, y, h.on (t := ['\n']) ha⟩
    | false =>
      rw [Reader.eatIf_neg (p := fun c => c == '\n') hc]
      exact (h.stays ha).further.of_append

theorem eatWhile_went {p : Char → Bool} (hp : p '\n' = false) (h : m₀.Went x y k m) :
    Lands late (m.reading (Reader.eatWhile p)) fun r =>
      m₀.Went (x ++ y.takeWhile p) (y.dropWhile p) k r.2 := by
  obtain ⟨a, ha⟩ := h.here
  have hbreak : (y.takeWhile p).count '\n' = 0 := by
    refine List.count_eq_zero.mpr fun hmem => ?_
    rw [List.mem_takeWhile_imp hmem] at hp
    cases hp
  have hsplit : y.takeWhile p ++ y.dropWhile p = y := List.takeWhile_append_dropWhile
  have hon := Went.on (t := y.takeWhile p) (y := y.dropWhile p) (by rwa [hsplit]) (by rwa [hsplit])
  rw [hbreak] at hon
  unfold reading
  rw [ha, Reader.eatWhile_between]
  exact hon

theorem eatWhile_lands {p : Char → Bool} (hp : p '\n' = false) (h : m₀.Further x k m) :
    Lands late (m.reading (Reader.eatWhile p)) fun r => m₀.Further x k r.2 := by
  obtain ⟨z, y, h⟩ := h
  exact (eatWhile_went hp h).imp fun r hr => hr.further.of_append.of_append

theorem eatBlanks_lands (h : m₀.Further x k m) : Lands late m.eatBlanks (m₀.Further x k) := by
  unfold eatBlanks
  exact .bind (eatWhile_lands (by decide) h) fun r hr => .ok hr

theorem eatText_lands {literal : List Char} (hl : '\n' ∉ literal) (h : m₀.Further x k m) :
    Lands late (m.reading (Reader.eatText literal)) fun r => m₀.Further x k r.2 := by
  obtain ⟨z, y, h⟩ := h
  obtain ⟨a, ha⟩ := h.here
  unfold reading
  rw [ha, Reader.eatText_between]
  split
  · rename_i hfits
    obtain ⟨rest, rfl⟩ := List.isPrefixOf_iff_prefix.mp hfits
    have hon := h.on ha
    rw [List.count_eq_zero.mpr hl] at hon
    rw [List.drop_left]
    exact hon.further.of_append.of_append
  · exact (h.stays ha).further.of_append

theorem eatLine_lands (h : m₀.Further x k m) :
    Lands late (m.reading Reader.eatLine) fun r => m₀.Further x k r.2 := by
  obtain ⟨z, y, h⟩ := h
  obtain ⟨a, ha⟩ := h.here
  have hbreak : (y.takeWhile (· != '\n')).count '\n' = 0 :=
    List.count_eq_zero.mpr fun hmem => absurd (List.mem_takeWhile_imp hmem) (by decide)
  have hsplit : y.takeWhile (· != '\n') ++ y.dropWhile (· != '\n') = y :=
    List.takeWhile_append_dropWhile
  have hon := Went.on (t := y.takeWhile (· != '\n')) (y := y.dropWhile (· != '\n'))
    (by rwa [hsplit]) (by rwa [hsplit])
  rw [hbreak] at hon
  unfold reading
  rw [ha, Reader.eatLine_between]
  exact hon.further.of_append.of_append

theorem peek_lands (h : m₀.Went x y k m) :
    Lands late (m.reader.peek : Run LexError _) fun c => c = y.head? := by
  obtain ⟨a, ha⟩ := h.here
  rw [ha, Reader.peek_between]
  exact .ok rfl

theorem peek_timely (h : m₀.Further x k m) : (m.reader.peek : Run LexError _).Timely := by
  obtain ⟨z, y, h⟩ := h
  exact (peek_lands h).timely

theorem rewind_lands {c : Char} (hc : c ≠ '\n') (h : m₀.Went (x ++ [c]) y k m) :
    Lands late m.rewind (m₀.Went x (c :: y) k) := by
  obtain ⟨a, h₀, h₁⟩ := h.reader
  unfold rewind
  rw [h₁, ← List.append_assoc, Reader.rewind_between]
  refine ⟨⟨a, by rw [h₀, List.append_assoc]; rfl, rfl⟩, ?_⟩
  have hline := h.line
  rw [List.count_append, List.count_singleton, if_neg (by simpa using hc)] at hline
  exact hline

theorem push_lands {kind : Kind} {start : Position} (h : m₀.Further x k m) :
    Lands late (m.push kind start) (m₀.Further x k) := by
  unfold push
  exact .pass (Run.token_timely _ _ _) fun t => .ok (h.congr rfl rfl)

theorem newLine_lands (h : m₀.Further x (k + 1) m) : Lands late m.newLine (m₀.Further x k) := by
  obtain ⟨z, y, h⟩ := h
  have hline := h.line
  unfold newLine
  have hcount : Lands late (Run.increment m.line : Run LexError Nat) fun n => n = m.line + 1 := by
    unfold Run.increment Run.count
    split
    · exact .ok rfl
    · exact .fault (by intro hf; cases hf)
  apply Lands.bind hcount
  rintro _ rfl
  refine .ok ⟨z, y, h.reader, ?_⟩
  show m.line + 1 + k = _
  omega

/-- a loop of the machine has more turns than characters in front of it -/
theorem Went.lt_turns (h : m₀.Went x y k m) : y.length < m.reader.turns := by
  obtain ⟨a, ha⟩ := h.here
  rw [ha]
  exact Reader.turns_between a y

theorem sliceBack_timely (m : Machine) (start back : Nat) : (m.sliceBack start back).Timely :=
  (Run.subtract_timely _ _).bind fun _ => Run.slice_timely _ _ _

/-! ## lines -/

/-- where a list ends: at the end of the text, behind a line break that is not counted, or behind a brace -/
inductive Closed (mode : Mode) : Exit → List Char → List Char → Nat → Prop where
  | endOfInput (x : List Char) (h : mode ≠ .interpolation) : Closed mode .endOfInput x [] 0
  | newline (z y : List Char) (h : mode = .macroBody) : Closed mode .newline (z ++ ['\n']) y 1
  | brace (z y : List Char) (h : mode = .interpolation) : Closed mode .brace (z ++ ['}']) y 0

/-- the list that `m'` is in ends, on the way from `m` -/
def Ended (m : Machine) (e : Exit) (m' : Machine) : Prop :=
  ∃ x y k, m.Went x y k m' ∧ Closed m'.mode e x y k

/-- behind `x`, or further on, another turn follows, or the list ends -/
def Turned (m : Machine) (x : List Char) : Next → Prop
  | .turn _ m' => m.Further x 0 m'
  | .exit e m' => m.Ended e m'

variable {start : Position}

theorem pushBreak_lands (h : m₀.Further x (k + 1) m) :
    Lands late (pushBreak start m) (m₀.Further x k) := by
  unfold pushBreak
  apply Lands.bind (push_lands h)
  intro m h
  exact newLine_lands h

theorem finishLine_lands (h : m₀.Further x 0 m) :
    Lands late m.finishLine fun r =>
      match r.1 with
      | none => m₀.Further x 0 r.2
      | some e => m₀.Ended e r.2 := by
  unfold finishLine
  apply Lands.bind (eatBreak_lands h)
  rintro ⟨taken, m⟩ h
  cases taken with
  | false => exact h
  | true =>
    obtain ⟨z, y, h⟩ := h
    by_cases hmode : m.mode = .macroBody
    · simp only [reduceIte, if_pos hmode]
      exact ⟨_, y, 1, h, .newline _ y hmode⟩
    · simp only [reduceIte, if_neg hmode]
      exact .bind (newLine_lands h.further.of_append.of_append) fun m h => .ok h

theorem continuation_lands (h : m₀.Further x 0 m) :
    Lands late (continuation start m) (m₀.Further x 0) := by
  unfold continuation
  apply Lands.ite
  · apply Lands.bind (eatBreak_lands h)
    rintro ⟨taken, m⟩ h
    cases taken with
    | false => exact .fail _
    | true =>
      obtain ⟨z, y, h⟩ := h
      exact pushBreak_lands h.further.of_append.of_append
  · apply Lands.pass (Run.increment_timely _)
    intro n
    exact .fail _

/-- a word takes at least the character that begins it -/
theorem identifier_lands {c : Char} (hc : isWordPart c = true) (h : m₀.Went x (c :: y) 0 m) :
    Lands late (identifier start m) (m₀.Further (x ++ [c]) 0) := by
  unfold identifier
  apply Lands.bind (eatWhile_went (by decide) h)
  intro r h
  rw [List.takeWhile_cons_of_pos hc, List.append_cons] at h
  exact push_lands h.further.of_append

theorem lineComment_lands (h : m₀.Further x 0 m) :
    Lands late (lineComment start m) (m₀.Further x 0) := by
  unfold lineComment
  exact .bind (eatLine_lands h) fun r h => push_lands h

theorem region_lands {atom : String → Atom} (h : m₀.Further x 0 m) :
    Lands late (region start atom m) (m₀.Further x 0) := by
  unfold region
  apply Lands.bind (eatBlanks_lands h)
  intro m h
  exact .bind (eatLine_lands h) fun r h => push_lands h

theorem colour_lands {digits : List Char} (h : m₀.Further x 0 m) :
    Lands late (colour start digits m) (m₀.Further x 0) := by
  unfold colour
  apply Lands.ite
  · exact .fail _
  apply Lands.ite
  · exact .fail _
  split
  · exact push_lands h
  · exact .fail _

theorem blockLoop_steps {depth : Nat} (h : m₀.Went x y 0 m) :
    Steps late (fun n (s : Nat × Machine) => blockLoop start n s.1 s.2)
      (fun n => blockLoop start (n + 1) depth m) (fun s => m₀.Beyond x 0 s.2) (m₀.Further x 0) := by
  simp only [blockLoop]
  apply Steps.bind (read_lands h)
  rintro ⟨_, m⟩ htook
  cases htook with
  | nothing _ _ => exact .done (.fail _)
  | lineBreak _ h =>
    apply Steps.bind (newLine_lands h.further)
    intro m h
    exact .next (s := (depth, m)) h.beyond
  | @char _ c y' hc _ h =>
    simp only [if_neg hc]
    apply Steps.ite
    · apply Steps.bind (eatIf_lands (by decide) h.further)
      rintro ⟨_, m⟩ h
      apply Steps.ite
      · apply Steps.pass (Run.increment_timely _)
        intro depth
        exact .next (s := (depth, m)) h.beyond
      · exact .next (s := (depth, m)) h.beyond
    apply Steps.ite
    · apply Steps.bind (eatIf_lands (by decide) h.further)
      rintro ⟨_, m⟩ h
      apply Steps.ite
      · apply Steps.ite
        · exact .done (.ok h.of_append)
        · apply Steps.pass (Run.subtract_timely _ _)
          intro depth
          exact .next (s := (depth, m)) h.beyond
      · exact .next (s := (depth, m)) h.beyond
    · exact .next (s := (depth, m)) h.further.beyond

theorem blockComment_lands (h : m₀.Further x 0 m) :
    Lands late (blockComment start m) (m₀.Further x 0) := by
  obtain ⟨z, y, h⟩ := h
  unfold blockComment
  have hloop : Lands late (blockLoop start m.reader.turns 0 m) (m₀.Further (x ++ z) 0) :=
    lands_of_steps (fun n (s : Nat × Machine) => blockLoop start n s.1 s.2) (s := (0, m))
      (fun x y s h => blockLoop_steps h) h.lt_turns h
  apply Lands.bind hloop
  intro m h
  apply Lands.pass (sliceBack_timely _ _ _)
  intro text
  exact push_lands h.of_append

/-! ## literals -/

theorem skipEscaped_lands (h : m₀.Further x 0 m) : Lands late m.skipEscaped (m₀.Further x 0) := by
  obtain ⟨z, y, h⟩ := h
  unfold skipEscaped
  apply Lands.bind (peek_lands h)
  rintro _ rfl
  cases y with
  | nil => exact h.further.of_append
  | cons c y =>
    by_cases hc : c = '\n'
    · rw [List.head?_cons]
      simp only [if_pos hc]
      exact h.further.of_append
    · rw [List.head?_cons]
      simp only [if_neg hc]
      refine .bind (read_lands h) ?_
      rintro ⟨_, m⟩ htook
      cases htook with
      | nothing hy _ => cases hy
      | lineBreak hy _ =>
        cases hy
        exact (hc rfl).elim
      | char _ _ h => exact h.further.of_append.of_append

theorem quotedLoop_steps (h : m₀.Went x y 0 m) :
    Steps late (quotedLoop start) (fun n => quotedLoop start (n + 1) m) (m₀.Beyond x 0)
      (m₀.Further x 0) := by
  simp only [quotedLoop]
  apply Steps.bind (read_lands h)
  rintro ⟨_, m⟩ htook
  cases htook with
  | nothing _ _ => exact .done (.fail _)
  | lineBreak _ _ => exact .done (.pass (Run.increment_timely _) fun n => .fail _)
  | @char _ c y' hc _ h =>
    simp only [if_neg hc]
    apply Steps.ite
    · exact .done (.ok h.further.of_append)
    apply Steps.ite
    · apply Steps.bind (skipEscaped_lands h.further)
      intro m h
      exact .next h.beyond
    · exact .next h.further.beyond

theorem pushEscape_timely (out : List Char) (esc : Char) (cs : List Char) (offset : Nat) :
    (pushEscape out (esc :: cs) esc offset).Timely := by
  rw [pushEscape_eq]
  split
  · exact Run.timely_ok _
  · exact (Lands.fail _ : Lands False _ fun _ => True).timely

/-- decoding goes on behind a backslash at least -/
theorem decodeLoop_steps (body out rest : List Char) :
    Steps late (fun n (s : List Char × List Char) => decodeLoop body n s.1 s.2)
      (fun n => decodeLoop body (n + 1) out rest) (fun s => ∃ t, t ≠ [] ∧ rest = t ++ s.2)
      (fun _ => True) := by
  simp only [decodeLoop]
  cases findBackslash rest with
  | none => exact .done (.ok trivial)
  | some slash =>
    apply Steps.pass (Run.slice_timely _ _ _)
    intro plain
    apply Steps.pass (Run.subtract_timely _ _)
    intro offset
    apply Steps.bind (Run.slice_end_lands rest (slash + 1))
    rintro behind ⟨t, hrest, hslash⟩
    have ht : t ≠ [] := by
      rintro rfl
      exact Nat.succ_ne_zero slash hslash.symm
    cases behind with
    | nil => exact .done (.fail _)
    | cons esc cs =>
      apply Steps.pass (pushEscape_timely _ _ _ _)
      rintro ⟨out, consumed⟩
      apply Steps.bind (Run.slice_end_lands (esc :: cs) consumed)
      rintro rest' ⟨t', hbehind, _⟩
      refine .next (s := (out, rest')) ⟨t ++ t', by simp [ht], ?_⟩
      rw [hrest, hbehind, List.append_assoc]

theorem decode_timely (body : List Char) : (decode body).Timely := by
  rw [decode_eq]
  exact Run.ofExcept_ne_fault _ _

theorem quotedString_lands (h : m₀.Further x 0 m) :
    Lands late (quotedString start m) (m₀.Further x 0) := by
  obtain ⟨z, y, h⟩ := h
  unfold quotedString
  apply Lands.bind (lands_of_steps _ (fun x y s h => quotedLoop_steps h) h.lt_turns h)
  intro m h
  apply Lands.pass (sliceBack_timely _ _ _)
  intro body
  apply Lands.pass (Run.withError_timely (decode_timely body) _)
  intro text
  exact push_lands h.of_append

theorem rawLoop_steps {quote : Char} (h : m₀.Went x y 0 m) :
    Steps late (rawLoop start quote) (fun n => rawLoop start quote (n + 1) m) (m₀.Beyond x 0)
      (m₀.Further x 0) := by
  simp only [rawLoop]
  apply Steps.bind (read_lands h)
  rintro ⟨_, m⟩ htook
  cases htook with
  | nothing _ _ => exact .done (.fail _)
  | lineBreak _ h =>
    apply Steps.bind (newLine_lands h.further)
    intro m h
    exact .next h.beyond
  | @char _ c y' hc _ h =>
    simp only [if_neg hc]
    apply Steps.ite
    · exact .done (.ok h.further.of_append)
    · exact .next h.further.beyond

/-- the quote that opens a raw string is no line break -/
theorem rawString_lands (hquote : ∀ c ∈ y.head?, c ≠ '\n') (h : m₀.Went x y 0 m) :
    Lands late (rawString start m) (m₀.Further x 0) := by
  unfold rawString
  apply Lands.bind (read_lands h)
  rintro ⟨_, m⟩ htook
  cases htook with
  | nothing _ _ => exact .fail _
  | lineBreak hy _ => exact absurd rfl (hquote '\n' (by rw [hy]; rfl))
  | @char _ quote y' _ _ h =>
    apply Lands.bind (lands_of_steps _ (fun x y s h => rawLoop_steps h) h.lt_turns h)
    intro m h
    apply Lands.pass (sliceBack_timely _ _ _)
    intro body
    exact push_lands h.of_append

/-- a number takes at least the character that begins it -/
theorem decimalNumber_lands {c : Char} (hc : isDecimalPart c = true ∨ c = '.')
    (h : m₀.Went x (c :: y) 0 m) : Lands late (decimalNumber start m) (m₀.Further (x ++ [c]) 0) := by
  unfold decimalNumber
  apply Lands.bind (eatWhile_went (by decide) h)
  rintro ⟨_, m⟩ h
  have hpoint : Lands late (m.reading (Reader.eatIf (· == '.'))) fun r =>
      m₀.Further (x ++ [c]) 0 r.2 := by
    rcases hc with hpart | rfl
    · rw [List.takeWhile_cons_of_pos hpart, List.append_cons] at h
      exact eatIf_lands (by decide) h.further.of_append
    · rw [List.takeWhile_cons_of_neg (by decide), List.append_nil,
        List.dropWhile_cons_of_neg (by decide)] at h
      refine (try_lands (by decide) h).imp ?_
      rintro ⟨_, m⟩ htried
      cases htried with
      | taken _ hy h =>
        cases hy
        exact h.further
      | left hy _ => exact absurd (hy '.' rfl) (by decide)
  apply Lands.bind hpoint
  rintro ⟨_, m⟩ h
  apply Lands.ite
  · apply Lands.bind (eatWhile_lands (by decide) h)
    intro r h
    apply Lands.pass (sliceBack_timely _ _ _)
    intro text
    split
    · exact push_lands h
    · exact .fail _
  · apply Lands.pass (sliceBack_timely _ _ _)
    intro text
    split
    · exact push_lands h
    · exact .fail _

theorem radixNumber_lands {base : Base} {radix : Radix} (h : m₀.Further x 0 m) :
    Lands late (radixNumber start base radix m) (m₀.Further x 0) := by
  unfold radixNumber
  apply Lands.bind (eatWhile_lands (by cases base <;> decide) h)
  intro r h
  apply Lands.ite
  · exact .fail _
  · split
    · exact push_lands h
    · exact .fail _

/-! ## signs -/

theorem push_or_lands {p : Bool} {kind kind' : Kind} (h : m₀.Further x 0 m) :
    Lands late (if p then m.push kind start else m.push kind' start) (m₀.Further x 0) :=
  .ite (push_lands h) (push_lands h)

theorem pushJoined_lands {c : Char} {joined plain : Atom} (hc : c ≠ '\n') (h : m₀.Further x 0 m) :
    Lands late (pushJoined start c joined plain m) (m₀.Further x 0) := by
  unfold pushJoined
  apply Lands.bind (eatChar_lands hc h)
  intro r h
  exact push_or_lands h

theorem doubled_lands {c : Char} {twice : Atom} {op : InPlaceOp} {plain : Atom} (hc : c ≠ '\n')
    (h : m₀.Further x 0 m) : Lands late (doubled start c twice op plain m) (m₀.Further x 0) := by
  unfold doubled
  apply Lands.bind (eatChar_lands hc h)
  intro r h
  exact .ite (push_lands h) (pushJoined_lands (by decide) h)

theorem less_lands (h : m₀.Further x 0 m) : Lands late (less start m) (m₀.Further x 0) := by
  unfold less
  apply Lands.bind (eatIf_lands (by decide) h)
  intro r h
  apply Lands.ite
  · exact pushJoined_lands (by decide) h
  · apply Lands.bind (eatIf_lands (by decide) h)
    intro r h
    exact .ite (push_lands h) (pushJoined_lands (by decide) h)

theorem greater_lands (h : m₀.Further x 0 m) : Lands late (greater start m) (m₀.Further x 0) := by
  unfold greater
  apply Lands.bind (eatIf_lands (by decide) h)
  intro r h
  exact .ite (pushJoined_lands (by decide) h) (pushJoined_lands (by decide) h)

theorem question_lands (h : m₀.Further x 0 m) : Lands late (question start m) (m₀.Further x 0) := by
  unfold question
  apply Lands.bind (eatIf_lands (by decide) h)
  intro r h
  exact .ite (pushJoined_lands (by decide) h) (push_lands h)

theorem eatMarker_lands {xs : List Accessor} (h : m₀.Further x 0 m) :
    Lands late (eatMarker xs m) fun r => m₀.Further x 0 r.2 := by
  induction xs generalizing m with
  | nil => exact .ok h
  | cons a xs ih =>
    rw [eatMarker]
    apply Lands.bind (eatText_lands (by cases a <;> decide) h)
    intro r h
    exact .ite (.ok h) (ih h)

theorem bracket_lands (h : m₀.Further x 0 m) : Lands late (bracket start m) (m₀.Further x 0) := by
  unfold bracket
  apply Lands.bind (eatMarker_lands h)
  rintro ⟨a, m⟩ h
  cases a with
  | none => exact push_lands h
  | some a => exact push_lands h

theorem sign_lands {c : Char} (h : m₀.Further x 0 m) :
    Lands late (sign start c m) (m₀.Further x 0) := by
  unfold sign
  split
  case h_6 => exact bracket_lands h
  case h_9 => exact question_lands h
  case h_19 => exact less_lands h
  case h_20 => exact greater_lands h
  case h_21 => exact .ok h
  all_goals first
    | exact push_lands h
    | exact doubled_lands (by decide) h
    | exact pushJoined_lands (by decide) h

/-! ## names and tokens around inner lists -/

theorem macroName_lands (h : m₀.Went x y 0 m) :
    Lands late m.macroName fun r => m₀.Beyond x 0 r.2 := by
  unfold macroName
  apply Lands.bind (peek_lands h)
  rintro _ rfl
  cases y with
  | nil => exact .fail _
  | cons c y =>
    rw [List.head?_cons]
    apply Lands.ite
    · exact .fail _
    split
    · rename_i hword
      refine (eatWhile_went (by decide) h).imp ?_
      intro r h
      rw [List.takeWhile_cons_of_pos (isWordPart_of_isWordStart c hword), List.append_cons] at h
      exact h.further.of_append.beyond
    · exact .fail _

/-- the names take at least a character -/
theorem names_lands (h : m₀.Further x 0 m) :
    Lands late m.names fun r => m₀.Further x 0 r.2 ∧ r.1.start.offset < r.2.reader.pos := by
  unfold names
  apply Lands.bind (eatBlanks_lands h)
  rintro m₁ ⟨z, y, h₁⟩
  have hbehind : ∀ m', m₀.Beyond (x ++ z) 0 m' →
      m₀.Further x 0 m' ∧ m₁.position.offset < m'.reader.pos := by
    rintro m' ⟨c, h⟩
    exact ⟨h.of_append.of_append, h₁.offset_lt h⟩
  apply Lands.bind (macroName_lands h₁)
  rintro ⟨first, m⟩ ⟨c, h⟩
  apply Lands.bind (eatIf_lands (by decide) h)
  rintro ⟨joined, m⟩ h
  apply Lands.ite
  · obtain ⟨z', y', h⟩ := h
    apply Lands.bind (macroName_lands h)
    intro r h
    exact .ok (hbehind _ h.further.of_append.beyond)
  · exact .ok (hbehind _ h.beyond)

theorem define_lands {names : Names} {body : List Token} {exit : Exit} {z y : List Char}
    {mode : Mode} (hclosed : Closed mode exit z y k) (hbrace : exit ≠ .brace)
    (h : m₀.Further x k m) : Lands late (m.define start names body exit) (m₀.Further x 0) := by
  unfold define
  apply Lands.either (Run.subtract_timely _ _) (Run.timely_ok _)
  intro bodyStop
  apply Lands.pass (Run.slice_timely _ _ _)
  intro text
  apply Lands.pass (Run.token_timely _ _ _)
  intro token
  cases hclosed with
  | endOfInput _ _ => exact h.congr rfl rfl
  | newline _ _ _ => exact newLine_lands (h.congr rfl rfl)
  | brace _ _ _ => exact (hbrace rfl).elim

theorem closeTemplate_lands {bodyStart : Nat} {sections : List (Section Token)}
    (h : m₀.Further x 0 m) :
    Lands late (closeTemplate start bodyStart sections m) (m₀.Further x 0) := by
  unfold closeTemplate
  apply Lands.pass (sliceBack_timely _ _ _)
  intro body
  apply Lands.pass (Run.replaceBackward_timely _ _)
  intro numbered
  apply Lands.pass (Run.withError_timely (decode_timely numbered) _)
  intro text
  exact push_lands h

/-! ## a turn without inner lists -/

theorem atSign_lands (h : m₀.Went x y 0 m) : Lands late (atSign start m) (m₀.Further x 0) := by
  unfold atSign
  apply Lands.bind (peek_lands h)
  rintro _ rfl
  split
  · rename_i hquote
    refine rawString_lands ?_ h
    intro c hc
    rw [Option.mem_def.mp hc] at hquote
    rintro rfl
    exact absurd hquote (by decide)
  · exact .ok h.further

/-- the digits behind a point are read from the point on -/
theorem point_lands (h : m₀.Went (x ++ ['.']) y 0 m) :
    Lands late (point start m) (m₀.Further (x ++ ['.']) 0) := by
  unfold point
  apply Lands.pass (peek_timely h.further)
  intro c
  apply Lands.ite
  · apply Lands.bind (rewind_lands (by decide) h)
    intro m h
    exact decimalNumber_lands (.inr rfl) h
  · exact push_lands h.further

/-- a decimal number is read from its first digit on -/
theorem number_lands {c : Char} (hc : c.isDigit = true) (h : m₀.Went (x ++ [c]) y 0 m) :
    Lands late (number start c m) (m₀.Further (x ++ [c]) 0) := by
  have hbreak : c ≠ '\n' := by
    rintro rfl
    exact absurd hc (by decide)
  have hpart : isDecimalPart c = true := by
    rw [isDecimalPart, hc]
    rfl
  unfold number
  apply Lands.bind (try_lands (by simp) h)
  rintro ⟨_, m⟩ htried
  cases htried with
  | taken _ _ h => exact radixNumber_lands h.further.of_append
  | left _ h =>
    apply Lands.bind (try_lands (by simp) h)
    rintro ⟨_, m⟩ htried
    cases htried with
    | taken _ _ h => exact radixNumber_lands h.further.of_append
    | left _ h =>
      apply Lands.bind (rewind_lands hbreak h)
      intro m h
      exact decimalNumber_lands (.inl hpart) h

theorem lexeme_lands {c : Char} (hc : c ≠ '\n') (h : m₀.Went (x ++ [c]) y 0 m) :
    Lands late (lexeme start c m) (m₀.Further (x ++ [c]) 0) := by
  unfold lexeme
  apply Lands.ite
  · exact atSign_lands h
  split
  · rename_i hpoint
    subst hpoint
    exact point_lands h
  split
  · rename_i hword
    apply Lands.bind (rewind_lands hc h)
    intro m h
    exact identifier_lands (isWordPart_of_isWordStart c hword) h
  split
  · rename_i hdigit
    exact number_lands hdigit h
  · exact sign_lands h.further

/-- the next turn behind a token -/
theorem turned_lands {r : Run LexError Machine} (h : Lands late r (m₀.Further x 0)) (depth : Nat) :
    Lands late (r >>= fun m => .ok (.turn depth m)) (m₀.Turned x) := h.bind fun _ h => .ok h

theorem endLine_lands {depth : Nat} (h : m₀.Further x 0 m) :
    Lands late (endLine depth m) (m₀.Turned x) := by
  unfold endLine
  apply Lands.bind (finishLine_lands h)
  rintro ⟨e, m⟩ h
  cases e with
  | none => exact h
  | some e => exact h

theorem slash_lands {depth : Nat} (h : m₀.Further x 0 m) :
    Lands late (slash depth start m) (m₀.Turned x) := by
  unfold slash
  apply Lands.bind (eatIf_lands (by decide) h)
  intro r h
  apply Lands.ite
  · exact .bind (lineComment_lands h) fun m h => endLine_lands h
  · apply Lands.bind (eatIf_lands (by decide) h)
    intro r h
    apply Lands.ite
    · exact turned_lands (blockComment_lands h) depth
    · exact turned_lands (pushJoined_lands (by decide) h) depth

theorem openBrace_lands {depth : Nat} (h : m₀.Further x 0 m) :
    Lands late (openBrace depth start m) (m₀.Turned x) := by
  unfold openBrace
  apply Lands.either (Run.increment_timely _) (Run.timely_ok _)
  intro depth
  exact turned_lands (push_lands h) depth

theorem closeBrace_lands {depth : Nat} (h : m₀.Went (x ++ ['}']) y 0 m) :
    Lands late (closeBrace depth start m) (m₀.Turned (x ++ ['}'])) := by
  unfold closeBrace
  split
  · rename_i hends
    exact .ok ⟨_, y, 0, h, .brace x y hends.1⟩
  · apply Lands.either (Run.subtract_timely _ _) (Run.timely_ok _)
    intro depth
    exact turned_lands (push_lands h.further) depth

end Machine

end ScriptLexer

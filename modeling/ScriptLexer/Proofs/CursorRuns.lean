import ScriptLexer.Proofs.Operations

/-!
# Where a cursor can come to

Any number of operations after one another, as long as the offsets that are looked for are character
boundaries: none of them is refused, no check of the reader by byte offsets fails, and both end in the
same place.

* `Op.Allowed text`      an operation that may be asked for in that text;
* `Cursor.Passes c t d`  from `c` to `d` the cursor has gone on over the characters `t`;
* `perform_passes`       so it does in every operation that is not asked to go back;
* `perform_run`          what is taken is the longest run of the class that is asked for;
* `Reader.Retraces`      a step back takes back what was read, and reading takes back a step back;
* `cursor_runs`          all of this in every place that operations lead to;
* `eatLine_runs`         there, a search for the byte of a line break finds what a loop over the
                         characters finds.
-/

namespace ScriptLexer

/-! ## what is asked for -/

namespace Op

/-- an offset that is looked for has to be a character boundary -/
def Allowed (text : List Char) : Op → Prop
  | .seek offset => IsBoundary text offset
  | _ => True

instance (text : List Char) (op : Op) : Decidable (op.Allowed text) :=
  match op with
  | .seek offset => inferInstanceAs (Decidable (IsBoundary text offset))
  | .peek | .peekNth _ | .read | .skip _ | .rewind | .eatIf _ | .eatChar _ | .eatAny _ | .eatWhile _
  | .eatUntil _ _ | .eatText _ | .eatBlanks | .eatLine => isTrue trivial

/-- the operation is not asked to go back -/
def GoesOn : Op → Prop
  | .rewind | .seek _ => False
  | _ => True

/-- the class of which the operation takes the longest run -/
def runOf? : Op → Option (Char → Bool)
  | .eatWhile p => some p
  | .eatUntil p false => some fun c => !p c
  | .eatLine => some (· != '\n')
  | _ => none

end Op

/-- `t` is the longest initial part of `rest` that has only characters of a class -/
structure LongestRun (p : Char → Bool) (rest t : List Char) : Prop where
  initial : t <+: rest
  all : ∀ c ∈ t, p c = true
  longest : ∀ u, u <+: rest → (∀ c ∈ u, p c = true) → u <+: t

theorem longestRun_takeWhile (p : Char → Bool) (rest : List Char) :
    LongestRun p rest (rest.takeWhile p) where
  initial := List.takeWhile_prefix p
  all _ hc := List.mem_takeWhile_imp hc
  longest := by
    rintro u ⟨v, rfl⟩ hu
    rw [List.takeWhile_append_of_pos hu]
    exact List.prefix_append u _

/-! ## what comes of it -/

namespace Reader

/-- the reader is over `text`, no further than its end and not inside of a character -/
structure Placed (text : List Char) (r : Reader) : Prop where
  text_eq : r.text = text
  le_length : r.pos ≤ r.length
  boundary : IsBoundary r.text r.pos

/-- what an operation of `r` may give: it goes back only if it is asked to, and a run that it takes is
the text between the two places, and the longest one of its class -/
structure Gives (r : Reader) (op : Op) (x : Answer) (s : Reader) : Prop where
  goesOn : op.GoesOn → r.pos ≤ s.pos
  run : ∀ p, op.runOf? = some p → ∃ t rest, x = .text t ∧ slice? r.text r.pos s.pos = some t ∧
    (r.remaining : Run Empty _) = .ok rest ∧ LongestRun p rest t

/-- a step back behind a character that was read leads to where it was read and comes next, and the
character that a step back leads over is read again -/
structure Retraces (find : UInt8 → List UInt8 → Option Nat) (r : Reader) : Prop where
  rewind_read : ∀ c s, r.perform find .read = .ok (.char (some c), s) →
    s.perform find .rewind = .ok (.nothing, r) ∧ r.perform find .peek = .ok (.char (some c), r)
  read_rewind : ∀ s, r.perform find .rewind = .ok (.nothing, s) → s.pos ≠ r.pos →
    ∃ c, s.perform find .read = .ok (.char (some c), r)

end Reader

namespace Cursor

variable {find : UInt8 → List UInt8 → Option Nat} {c d e : Cursor} {t u : List Char} {x : Answer}
  {op : Op}

/-! ## ways -/

/-- from `c` to `d` the cursor has gone on over the characters `t` -/
structure Passes (c : Cursor) (t : List Char) (d : Cursor) : Prop where
  rest : c.rest = t ++ d.rest
  behind : d.behind = t.reverse ++ c.behind

namespace Passes

theorem refl (c : Cursor) : c.Passes [] c := ⟨rfl, rfl⟩

theorem trans (h : c.Passes t d) (h' : d.Passes u e) : c.Passes (t ++ u) e where
  rest := by rw [h.rest, h'.rest, List.append_assoc]
  behind := by rw [h'.behind, h.behind, List.reverse_append, List.append_assoc]

theorem offset_eq (h : c.Passes t d) : d.offset = c.offset + byteLength t := by
  rw [offset, h.behind, byteLength_append, byteLength_reverse, Nat.add_comm]
  rfl

theorem text_eq (h : c.Passes t d) : d.text = c.text := by
  rw [text, text, h.behind, h.rest, List.reverse_append, List.reverse_reverse, List.append_assoc]

theorem slice?_eq (h : c.Passes t d) : ScriptLexer.slice? c.text c.offset d.offset = some t := by
  refine slice?_eq_some_iff.mpr ⟨c.behind.reverse, d.rest, ?_, byteLength_reverse _, ?_⟩
  · rw [text, h.rest, List.append_assoc]
  · rw [byteLength_reverse, h.offset_eq]
    rfl

end Passes

theorem passes_skip (c : Cursor) (n : Nat) : c.Passes (c.rest.take n) (c.skip n) :=
  ⟨(List.take_append_drop n c.rest).symm, rfl⟩

theorem passes_read? {a : Char} (h : c.read? = some (a, d)) : c.Passes [a] d := by
  unfold read? at h
  split at h
  · cases h
  · rename_i hrest
    cases h
    exact ⟨hrest, rfl⟩

theorem passes_eatIf? {p : Char → Bool} (h : c.eatIf? p = some d) : ∃ a, c.Passes [a] d := by
  unfold eatIf? at h
  split at h
  · cases h
  · rename_i a _ hrest
    split at h
    · cases h
      exact ⟨a, hrest, rfl⟩
    · cases h

theorem passes_eatText? {literal : List Char} (h : c.eatText? literal = some d) :
    ∃ t, c.Passes t d := by
  unfold eatText? at h
  split at h
  · cases h
    exact ⟨_, passes_skip c _⟩
  · cases h

theorem passes_eatWhile (c : Cursor) (p : Char → Bool) :
    c.Passes (c.rest.takeWhile p) (c.eatWhile p).2 :=
  ⟨List.takeWhile_append_dropWhile.symm, rfl⟩

theorem passes_eatUntil (c : Cursor) (p : Char → Bool) (inclusive : Bool) :
    ∃ t, c.Passes t (c.eatUntil p inclusive).2 := by
  have hrun := passes_eatWhile c fun a => !p a
  cases inclusive with
  | false => exact ⟨_, hrun⟩
  | true => exact ⟨_, hrun.trans (passes_skip _ 1)⟩

/-- a move that is not made leads over nothing -/
theorem passes_attempt {moved : Option Cursor} (h : ∀ d ∈ moved, ∃ t, c.Passes t d) :
    ∃ t, c.Passes t (c.attempt moved).2 := by
  cases moved with
  | none => exact ⟨[], .refl c⟩
  | some d => exact h d rfl

/-! ## one operation -/

/-- only an offset can be refused -/
theorem exists_perform (h : op.Allowed c.text) : ∃ x d, c.perform op = some (x, d) := by
  cases op with
  | seek offset =>
    obtain ⟨k, hk⟩ := Option.isSome_iff_exists.mp h
    exact ⟨.nothing, (ofText c.text).skip k, by rw [perform, seek?, hk]; rfl⟩
  | read =>
    cases hread : c.read? with
    | none => exact ⟨_, _, by rw [perform, hread]⟩
    | some step => exact ⟨_, _, by rw [perform, hread]⟩
  | _ => exact ⟨_, _, rfl⟩

/-- an operation that is not asked to go back goes on, if it goes anywhere -/
theorem perform_passes (h : c.perform op = some (x, d)) (hop : op.GoesOn) : ∃ t, c.Passes t d := by
  cases op with
  | seek _ | rewind => exact hop.elim
  | read =>
    unfold perform at h
    cases hread : c.read? with
    | none =>
      rw [hread] at h
      cases h
      exact ⟨[], .refl c⟩
    | some step =>
      rw [hread] at h
      cases h
      exact ⟨_, passes_read? hread⟩
  | peek | peekNth _ =>
    cases h
    exact ⟨[], .refl c⟩
  | skip n =>
    cases h
    exact ⟨_, passes_skip c n⟩
  | eatIf _ | eatChar _ | eatAny _ =>
    cases h
    refine passes_attempt fun d hd => ?_
    obtain ⟨a, ha⟩ := passes_eatIf? hd
    exact ⟨[a], ha⟩
  | eatText _ =>
    cases h
    exact passes_attempt fun d hd => passes_eatText? hd
  | eatWhile p =>
    cases h
    exact ⟨_, passes_eatWhile c p⟩
  | eatUntil p inclusive =>
    cases h
    exact passes_eatUntil c p inclusive
  | eatBlanks =>
    cases h
    exact ⟨_, passes_eatWhile c isBlank⟩
  | eatLine =>
    cases h
    exact ⟨_, passes_skip c _⟩

theorem text_perform (h : c.perform op = some (x, d)) : d.text = c.text := by
  cases op with
  | seek offset =>
    obtain ⟨d', hd', hpair⟩ := Option.map_eq_some_iff.mp h
    cases hpair
    exact text_seek? hd'
  | rewind =>
    cases h
    exact text_rewind c
  | _ =>
    obtain ⟨t, ht⟩ := perform_passes h trivial
    exact ht.text_eq

/-- an operation that takes a run takes all of it -/
theorem perform_run {p : Char → Bool} (h : c.perform op = some (x, d)) (hop : op.runOf? = some p) :
    x = .text (c.rest.takeWhile p) ∧ c.Passes (c.rest.takeWhile p) d := by
  cases op with
  | eatWhile q =>
    cases hop
    cases h
    exact ⟨rfl, passes_eatWhile c _⟩
  | eatUntil q inclusive =>
    cases inclusive with
    | true => cases hop
    | false =>
      cases hop
      cases h
      exact ⟨rfl, passes_eatWhile c _⟩
  | eatLine =>
    cases hop
    cases h
    rw [eatLine_eq]
    exact ⟨rfl, passes_eatWhile c _⟩
  | _ => cases hop

/-! ## the reader in the same place -/

theorem placed_reader (h : c.text = t) : c.reader.Placed t := by
  subst h
  refine ⟨rfl, ?_, Option.isSome_of_eq_some c.charIndex?_offset⟩
  show c.offset ≤ byteLength c.text
  rw [← length_eq]
  exact Nat.le_add_right _ _

theorem gives_reader (h : c.perform op = some (x, d)) : c.reader.Gives op x d.reader where
  goesOn hop := by
    obtain ⟨t, ht⟩ := perform_passes h hop
    show c.offset ≤ d.offset
    rw [ht.offset_eq]
    exact Nat.le_add_right _ _
  run p hop := by
    obtain ⟨hx, hpasses⟩ := perform_run h hop
    have hrest : (c.reader.remaining : Run Empty _) = .ok c.rest := by
      rw [reader_eq, Reader.remaining_between]
    exact ⟨_, c.rest, hx, hpasses.slice?_eq, hrest, longestRun_takeWhile p c.rest⟩

theorem retraces_reader (hfind : FindsFirst find) (c : Cursor) : c.reader.Retraces find where
  rewind_read a s h := by
    rw [perform_reader hfind, perform] at h
    cases hread : c.read? with
    | none =>
      rw [hread] at h
      cases h
    | some step =>
      rw [hread] at h
      cases h
      have hpeek : c.peek? = some step.1 := by
        rw [peek?, (passes_read? hread).rest]
        rfl
      rw [perform_reader hfind, perform_reader hfind, perform, perform, rewind_read? hread, hpeek]
      exact ⟨rfl, rfl⟩
  read_rewind s h hmoved := by
    rw [perform_reader hfind, perform] at h
    cases h
    obtain ⟨behind, rest⟩ := c
    cases behind with
    | nil => exact absurd rfl hmoved
    | cons a behind => exact ⟨a, perform_reader hfind ⟨behind, a :: rest⟩ .read⟩

/-! ## one operation after another -/

/-- operations that may be asked for are all of them performed, in the same text -/
theorem exists_performAll {ops : List Op} (hops : ∀ op ∈ ops, op.Allowed c.text) :
    ∃ answers d, c.performAll ops = some (answers, d) ∧ d.text = c.text := by
  induction ops generalizing c with
  | nil => exact ⟨[], c, rfl, rfl⟩
  | cons op ops ih =>
    obtain ⟨x, d, hstep⟩ := exists_perform (hops op List.mem_cons_self)
    have htext := text_perform hstep
    have hrest : ∀ op' ∈ ops, op'.Allowed d.text := fun op' hop' =>
      htext ▸ hops op' (List.mem_cons_of_mem op hop')
    obtain ⟨answers, e, hrun, he⟩ := ih hrest
    refine ⟨x :: answers, e, ?_, he.trans htext⟩
    rw [performAll, hstep]
    show (d.performAll ops >>= fun r => _) = _
    rw [hrun]
    rfl

/-- and the reader by byte offsets performs them in the same way -/
theorem exists_run (hfind : FindsFirst find) {text : List Char} {ops : List Op}
    (hops : ∀ op ∈ ops, op.Allowed text) :
    ∃ answers c, (ofText text).performAll ops = some (answers, c) ∧
      (Reader.ofText text).performAll find ops = .ok (answers, c.reader) ∧ c.text = text := by
  obtain ⟨answers, c, hrun, htext⟩ := exists_performAll (c := ofText text) hops
  have hreader := performAll_reader hfind (ofText text) ops
  rw [hrun] at hreader
  exact ⟨answers, c, hrun, hreader, htext⟩

end Cursor

variable {find : UInt8 → List UInt8 → Option Nat}

/-- Whatever operations are performed one after another in a text, if the offsets looked for are
character boundaries: none is refused and no check fails, the cursor and the reader by byte offsets give
the same answers, and both stand in the same place of the same text, which is a character boundary.  So
it is again behind every further operation; that goes back only if it is asked to, and takes exactly the
longest run if it takes one.  Reading and stepping back take each other back. -/
theorem cursor_runs (hfind : FindsFirst find) {text : List Char} {ops : List Op}
    (hops : ∀ op ∈ ops, op.Allowed text) :
    ∃ answers c, (Cursor.ofText text).performAll ops = some (answers, c) ∧
      (Reader.ofText text).performAll find ops = .ok (answers, c.reader) ∧
      c.reader.Placed text ∧ c.reader.Retraces find ∧
      ∀ op : Op, op.Allowed text → ∃ x d, c.perform op = some (x, d) ∧
        c.reader.perform find op = .ok (x, d.reader) ∧ d.reader.Placed text ∧
        c.reader.Gives op x d.reader := by
  obtain ⟨answers, c, hrun, hreader, htext⟩ := Cursor.exists_run hfind hops
  refine ⟨answers, c, hrun, hreader, Cursor.placed_reader htext, Cursor.retraces_reader hfind c, ?_⟩
  intro op hop
  have hallowed : op.Allowed c.text := by rwa [htext]
  obtain ⟨x, d, hstep⟩ := Cursor.exists_perform hallowed
  have hplace : d.text = text := (Cursor.text_perform hstep).trans htext
  refine ⟨x, d, hstep, ?_, Cursor.placed_reader hplace, Cursor.gives_reader hstep⟩
  rw [Cursor.perform_reader hfind, hstep]
  rfl

/-- reading over a wide character and back, then a line from an offset on -/
theorem cursor_runs_wide :
    FindsFirst (fun b bs => bs.idxOf? b) ∧
      (∀ op ∈ [.read, .read, .rewind, .seek 4, .eatLine], Op.Allowed ['a', '€', 'b', '\n'] op) ∧
      (Reader.ofText ['a', '€', 'b', '\n']).performAll (fun b bs => bs.idxOf? b)
          [.read, .read, .rewind, .seek 4, .eatLine]
        = .ok ([.char (some 'a'), .char (some '€'), .nothing, .nothing, .text ['b']],
          ⟨['a', '€', 'b', '\n'], 5⟩) ∧
      Reader.Placed ['a', '€', 'b', '\n'] ⟨['a', '€', 'b', '\n'], 5⟩ := by
  have hops : ∀ op ∈ [.read, .read, .rewind, .seek 4, .eatLine],
      Op.Allowed ['a', '€', 'b', '\n'] op := by decide
  obtain ⟨answers, c, hcursor, hreader, hplaced, _⟩ := cursor_runs findsFirst_idxOf? hops
  have hrun : (Cursor.ofText ['a', '€', 'b', '\n']).performAll
      [.read, .read, .rewind, .seek 4, .eatLine]
      = some ([.char (some 'a'), .char (some '€'), .nothing, .nothing, .text ['b']],
        ⟨['b', '€', 'a'], ['\n']⟩) := by decide
  rw [hrun] at hcursor
  cases hcursor
  exact ⟨findsFirst_idxOf?, hops, hreader, hplaced⟩

/-- In every place that operations lead to, the rest of the line is the same whether the byte of a line
break is searched for or the characters are looked at one by one, in what is taken and in where that
leaves the reader and the cursor; and neither way fails a check. -/
theorem eatLine_runs (hfind : FindsFirst find) {text : List Char} {ops : List Op}
    (hops : ∀ op ∈ ops, op.Allowed text) :
    ∃ answers c line d, (Cursor.ofText text).performAll ops = some (answers, c) ∧
      (Reader.ofText text).performAll find ops = .ok (answers, c.reader) ∧
      c.eatLine = (line, d) ∧ c.eatUntil (· == '\n') false = (line, d) ∧
      (c.reader.eatLineBy find : Run Empty _) = .ok (line, d.reader) ∧
      (c.reader.eatUntil (· == '\n') false : Run Empty _) = .ok (line, d.reader) := by
  obtain ⟨answers, c, hrun, hreader, _⟩ := Cursor.exists_run hfind hops
  have huntil : c.eatUntil (· == '\n') false = c.eatLine := by
    rw [Cursor.eatLine_eq]
    rfl
  have hloop : (c.reader.eatUntil (· == '\n') false : Run Empty _)
      = .ok (c.eatLine.1, c.eatLine.2.reader) := by
    rw [Cursor.eatUntil_reader, huntil]
  exact ⟨answers, c, _, _, hrun, hreader, rfl, huntil, Cursor.eatLine_reader hfind c, hloop⟩

/-- wide characters in front of the line break -/
theorem eatLine_runs_wide :
    FindsFirst (fun b bs => bs.idxOf? b) ∧
      (∀ op ∈ [.skip 1], Op.Allowed ['é', '€', '\n', 'b'] op) ∧
      (Reader.ofText ['é', '€', '\n', 'b']).performAll (fun b bs => bs.idxOf? b) [.skip 1]
        = .ok ([.nothing], ⟨['é', '€', '\n', 'b'], 2⟩) ∧
      (Reader.eatLineBy (fun b bs => bs.idxOf? b) ⟨['é', '€', '\n', 'b'], 2⟩ : Run Empty _)
        = .ok (['€'], ⟨['é', '€', '\n', 'b'], 5⟩) ∧
      (Reader.eatUntil (· == '\n') false ⟨['é', '€', '\n', 'b'], 2⟩ : Run Empty _)
        = .ok (['€'], ⟨['é', '€', '\n', 'b'], 5⟩) := by
  have hops : ∀ op ∈ [.skip 1], Op.Allowed ['é', '€', '\n', 'b'] op := by decide
  obtain ⟨answers, c, line, d, hcursor, hreader, -, huntil, hsearch, hloop⟩ :=
    eatLine_runs findsFirst_idxOf? hops
  have hrun : (Cursor.ofText ['é', '€', '\n', 'b']).performAll [.skip 1]
      = some ([.nothing], ⟨['é'], ['€', '\n', 'b']⟩) := by decide
  rw [hrun] at hcursor
  cases hcursor
  cases huntil
  exact ⟨findsFirst_idxOf?, hops, hreader, hsearch, hloop⟩

end ScriptLexer

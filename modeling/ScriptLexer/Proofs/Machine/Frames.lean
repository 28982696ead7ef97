import ScriptLexer.Proofs.Machine.Turn

/-!
# What an operation of the machine leaves alone

The mode, the start of the scope, the mark of a macro body and the tokens of the lists around are the
frame of the machine.  Only inner lists and macro definitions change it; whatever else the machine does
leaves it alone.

`Keeps out m r` says so of a result `r`, which has its machine under `out`.  It follows the steps of a
computation (`Keeps.bind`, `Keeps.pass`), so there is one short lemma for each operation.
-/

namespace ScriptLexer

namespace Machine

/-- what the machine is inside of, and the tokens of the lists around -/
def frame (m : Machine) : Scope × List (List Token) := (m.scope, m.pending)

/-- the result, if there is one, has the frame of `m`; `out` takes the machine out of it -/
def Keeps {α : Type} (out : α → Machine) (m : Machine) (r : Run LexError α) : Prop :=
  ∀ x, r = .ok x → (out x).frame = m.frame

namespace Keeps

variable {α β : Type} {out : α → Machine} {out' : β → Machine} {m : Machine} {r s : Run LexError α}

theorem ok {x : α} (h : (out x).frame = m.frame) : Keeps out m (.ok x) := by
  intro y hy
  cases hy
  exact h

theorem fail (e : LexError) : Keeps out m (Run.fail e) := by
  intro y hy
  cases hy

theorem fault (f : Fault) : Keeps out m (Run.fault f) := by
  intro y hy
  cases hy

/-- one step after another -/
theorem bind {k : α → Run LexError β} (hr : Keeps out m r) (hk : ∀ x, Keeps out' (out x) (k x)) :
    Keeps out' m (r >>= k) := by
  intro y hy
  cases r with
  | error stop => cases hy
  | ok x => exact (hk x y hy).trans (hr x rfl)

/-- a step that gives no machine -/
theorem pass {k : α → Run LexError β} (hk : ∀ x, Keeps out' m (k x)) : Keeps out' m (r >>= k) := by
  intro y hy
  cases r with
  | error stop => cases hy
  | ok x => exact hk x y hy

theorem ite {p : Prop} [Decidable p] (hr : Keeps out m r) (hs : Keeps out m s) :
    Keeps out m (if p then r else s) := by
  split
  · exact hr
  · exact hs

/-- one of two steps that give no machine -/
theorem either {p : Prop} [Decidable p] {k : α → Run LexError β} (hk : ∀ x, Keeps out' m (k x)) :
    Keeps out' m (if p then r >>= k else s >>= k) := .ite (.pass hk) (.pass hk)

end Keeps

variable {α : Type} (m : Machine) (start : Position)

/-! ## moves -/

theorem reading_keeps (f : Reader → Run LexError (α × Reader)) : Keeps Prod.snd m (m.reading f) := by
  unfold reading
  apply Keeps.pass
  intro r
  exact .ok rfl

theorem rewind_keeps : Keeps id m m.rewind := by
  unfold rewind
  apply Keeps.pass
  intro r
  exact .ok rfl

theorem eatBlanks_keeps : Keeps id m m.eatBlanks := by
  unfold eatBlanks
  apply Keeps.bind (reading_keeps m _)
  intro r
  exact .ok rfl

theorem newLine_keeps : Keeps id m m.newLine := by
  unfold newLine
  apply Keeps.pass
  intro line
  exact .ok rfl

theorem push_keeps (k : Kind) : Keeps id m (m.push k start) := by
  unfold push
  apply Keeps.pass
  intro t
  exact .ok rfl

/-- one token or another, whichever comes next -/
theorem push_or_keeps (p : Bool) (k l : Kind) :
    Keeps id m (if p then m.push k start else m.push l start) :=
  .ite (push_keeps m start k) (push_keeps m start l)

/-! ## lines -/

theorem pushBreak_keeps : Keeps id m (pushBreak start m) := by
  unfold pushBreak
  apply Keeps.bind (push_keeps m start _)
  intro m
  exact newLine_keeps m

theorem finishLine_keeps : Keeps Prod.snd m m.finishLine := by
  unfold finishLine
  apply Keeps.bind (reading_keeps m _)
  intro r
  obtain ⟨taken, m⟩ := r
  apply Keeps.ite
  · apply Keeps.ite
    · exact .ok rfl
    · apply Keeps.bind (newLine_keeps m)
      intro m
      exact .ok rfl
  · exact .ok rfl

theorem continuation_keeps : Keeps id m (continuation start m) := by
  unfold continuation
  apply Keeps.ite
  · apply Keeps.bind (reading_keeps m _)
    intro r
    exact .ite (pushBreak_keeps r.2 start) (.fail _)
  · apply Keeps.pass
    intro n
    exact .fail _

theorem identifier_keeps : Keeps id m (identifier start m) := by
  unfold identifier
  apply Keeps.bind (reading_keeps m _)
  intro r
  exact push_keeps r.2 start _

theorem lineComment_keeps : Keeps id m (lineComment start m) := by
  unfold lineComment
  apply Keeps.bind (reading_keeps m _)
  intro r
  exact push_keeps r.2 start _

theorem region_keeps (atom : String → Atom) : Keeps id m (region start atom m) := by
  unfold region
  apply Keeps.bind (eatBlanks_keeps m)
  intro m
  apply Keeps.bind (reading_keeps m _)
  intro r
  exact push_keeps r.2 start _

theorem blockLoop_keeps (n depth : Nat) : Keeps id m (blockLoop start n depth m) := by
  induction n generalizing depth m with
  | zero => exact .fault _
  | succ n ih =>
    rw [blockLoop]
    apply Keeps.bind (reading_keeps m _)
    intro r
    obtain ⟨c, m⟩ := r
    cases c with
    | none => exact .fail _
    | some c =>
      apply Keeps.ite
      · apply Keeps.bind (newLine_keeps m)
        intro m
        exact ih m depth
      apply Keeps.ite
      · apply Keeps.bind (reading_keeps m _)
        intro r
        apply Keeps.ite
        · apply Keeps.pass
          intro depth
          exact ih r.2 depth
        · exact ih r.2 depth
      apply Keeps.ite
      · apply Keeps.bind (reading_keeps m _)
        intro r
        apply Keeps.ite
        · apply Keeps.ite
          · exact .ok rfl
          · apply Keeps.pass
            intro depth
            exact ih r.2 depth
        · exact ih r.2 depth
      · exact ih m depth

theorem blockComment_keeps : Keeps id m (blockComment start m) := by
  unfold blockComment
  apply Keeps.bind (blockLoop_keeps m start _ _)
  intro m
  apply Keeps.pass
  intro text
  exact push_keeps m start _

theorem colour_keeps (digits : List Char) : Keeps id m (colour start digits m) := by
  unfold colour
  apply Keeps.ite
  · exact .fail _
  apply Keeps.ite
  · exact .fail _
  split
  · exact push_keeps m start _
  · exact .fail _

/-! ## literals -/

theorem skipEscaped_keeps : Keeps id m m.skipEscaped := by
  unfold skipEscaped
  apply Keeps.pass
  intro c
  cases c with
  | none => exact .ok rfl
  | some c =>
    apply Keeps.ite
    · exact .ok rfl
    · apply Keeps.bind (reading_keeps m _)
      intro r
      exact .ok rfl

theorem quotedLoop_keeps (n : Nat) : Keeps id m (quotedLoop start n m) := by
  induction n generalizing m with
  | zero => exact .fault _
  | succ n ih =>
    rw [quotedLoop]
    apply Keeps.bind (reading_keeps m _)
    intro r
    obtain ⟨c, m⟩ := r
    cases c with
    | none => exact .fail _
    | some c =>
      apply Keeps.ite
      · apply Keeps.pass
        intro n
        exact .fail _
      apply Keeps.ite
      · exact .ok rfl
      apply Keeps.ite
      · apply Keeps.bind (skipEscaped_keeps m)
        intro m
        exact ih m
      · exact ih m

theorem quotedString_keeps : Keeps id m (quotedString start m) := by
  unfold quotedString
  apply Keeps.bind (quotedLoop_keeps m start _)
  intro m
  apply Keeps.pass
  intro body
  apply Keeps.pass
  intro text
  exact push_keeps m start _

theorem rawLoop_keeps (quote : Char) (n : Nat) : Keeps id m (rawLoop start quote n m) := by
  induction n generalizing m with
  | zero => exact .fault _
  | succ n ih =>
    rw [rawLoop]
    apply Keeps.bind (reading_keeps m _)
    intro r
    obtain ⟨c, m⟩ := r
    cases c with
    | none => exact .fail _
    | some c =>
      apply Keeps.ite
      · apply Keeps.bind (newLine_keeps m)
        intro m
        exact ih m
      apply Keeps.ite
      · exact .ok rfl
      · exact ih m

theorem rawString_keeps : Keeps id m (rawString start m) := by
  unfold rawString
  apply Keeps.bind (reading_keeps m _)
  intro r
  obtain ⟨quote, m⟩ := r
  cases quote with
  | none => exact .fail _
  | some quote =>
    apply Keeps.bind (rawLoop_keeps m start quote _)
    intro m
    apply Keeps.pass
    intro body
    exact push_keeps m start _

theorem decimalNumber_keeps : Keeps id m (decimalNumber start m) := by
  unfold decimalNumber
  apply Keeps.bind (reading_keeps m _)
  intro r
  apply Keeps.bind (reading_keeps r.2 _)
  intro r
  apply Keeps.ite
  · apply Keeps.bind (reading_keeps r.2 _)
    intro r
    apply Keeps.pass
    intro text
    split
    · exact push_keeps r.2 start _
    · exact .fail _
  · apply Keeps.pass
    intro text
    split
    · exact push_keeps r.2 start _
    · exact .fail _

theorem radixNumber_keeps (base : Base) (radix : Radix) :
    Keeps id m (radixNumber start base radix m) := by
  unfold radixNumber
  apply Keeps.bind (reading_keeps m _)
  intro r
  apply Keeps.ite
  · exact .fail _
  · split
    · exact push_keeps r.2 start _
    · exact .fail _

/-! ## signs -/

theorem pushJoined_keeps (c : Char) (joined plain : Atom) :
    Keeps id m (pushJoined start c joined plain m) := by
  unfold pushJoined
  apply Keeps.bind (reading_keeps m _)
  intro r
  exact push_or_keeps r.2 start _ _ _

theorem doubled_keeps (c : Char) (twice : Atom) (op : InPlaceOp) (plain : Atom) :
    Keeps id m (doubled start c twice op plain m) := by
  unfold doubled
  apply Keeps.bind (reading_keeps m _)
  intro r
  exact .ite (push_keeps r.2 start _) (pushJoined_keeps r.2 start _ _ _)

theorem less_keeps : Keeps id m (less start m) := by
  unfold less
  apply Keeps.bind (reading_keeps m _)
  intro r
  apply Keeps.ite
  · exact pushJoined_keeps r.2 start _ _ _
  · apply Keeps.bind (reading_keeps r.2 _)
    intro r
    exact .ite (push_keeps r.2 start _) (pushJoined_keeps r.2 start _ _ _)

theorem greater_keeps : Keeps id m (greater start m) := by
  unfold greater
  apply Keeps.bind (reading_keeps m _)
  intro r
  exact .ite (pushJoined_keeps r.2 start _ _ _) (pushJoined_keeps r.2 start _ _ _)

theorem question_keeps : Keeps id m (question start m) := by
  unfold question
  apply Keeps.bind (reading_keeps m _)
  intro r
  exact .ite (pushJoined_keeps r.2 start _ _ _) (push_keeps r.2 start _)

theorem eatMarker_keeps (xs : List Accessor) : Keeps Prod.snd m (eatMarker xs m) := by
  induction xs generalizing m with
  | nil => exact .ok rfl
  | cons x xs ih =>
    rw [eatMarker]
    apply Keeps.bind (reading_keeps m _)
    intro r
    exact .ite (.ok rfl) (ih r.2)

theorem bracket_keeps : Keeps id m (bracket start m) := by
  unfold bracket
  apply Keeps.bind (eatMarker_keeps m _)
  intro r
  obtain ⟨x, m⟩ := r
  cases x with
  | none => exact push_keeps m start _
  | some x => exact push_keeps m start _

theorem sign_keeps (c : Char) : Keeps id m (sign start c m) := by
  unfold sign
  split
  case h_6 => exact bracket_keeps m start
  case h_9 => exact question_keeps m start
  case h_19 => exact less_keeps m start
  case h_20 => exact greater_keeps m start
  case h_21 => exact .ok rfl
  all_goals first
    | exact push_keeps m start _
    | exact doubled_keeps m start _ _ _ _
    | exact pushJoined_keeps m start _ _ _

/-! ## names and tokens around inner lists -/

theorem macroName_keeps : Keeps Prod.snd m m.macroName := by
  unfold macroName
  apply Keeps.pass
  intro c
  cases c with
  | none => exact .fail _
  | some c =>
    apply Keeps.ite
    · exact .fail _
    apply Keeps.ite
    · exact reading_keeps m _
    · exact .fail _

theorem names_keeps : Keeps Prod.snd m m.names := by
  unfold names
  apply Keeps.bind (eatBlanks_keeps m)
  intro m
  apply Keeps.bind (macroName_keeps m)
  intro r
  apply Keeps.bind (reading_keeps r.2 _)
  intro r
  apply Keeps.ite
  · apply Keeps.bind (macroName_keeps r.2)
    intro r
    exact .ok rfl
  · exact .ok rfl

theorem define_keeps (names : Names) (body : List Token) (exit : Exit) :
    Keeps id m (m.define start names body exit) := by
  unfold define
  apply Keeps.either
  intro bodyStop
  apply Keeps.pass
  intro text
  apply Keeps.pass
  intro token
  apply Keeps.ite
  · exact newLine_keeps _
  · exact .ok rfl

theorem closeTemplate_keeps (bodyStart : Nat) (sections : List (Section Token)) :
    Keeps id m (closeTemplate start bodyStart sections m) := by
  unfold closeTemplate
  apply Keeps.pass
  intro body
  apply Keeps.pass
  intro numbered
  apply Keeps.pass
  intro text
  exact push_keeps m start _

/-! ## a turn without inner lists -/

theorem atSign_keeps : Keeps id m (atSign start m) := by
  unfold atSign
  apply Keeps.pass
  intro c
  exact .ite (rawString_keeps m start) (.ok rfl)

theorem point_keeps : Keeps id m (point start m) := by
  unfold point
  apply Keeps.pass
  intro c
  apply Keeps.ite
  · apply Keeps.bind (rewind_keeps m)
    intro m
    exact decimalNumber_keeps m start
  · exact push_keeps m start _

theorem number_keeps (c : Char) : Keeps id m (number start c m) := by
  unfold number
  apply Keeps.bind (reading_keeps m _)
  intro r
  apply Keeps.ite
  · exact radixNumber_keeps r.2 start _ _
  · apply Keeps.bind (reading_keeps r.2 _)
    intro r
    apply Keeps.ite
    · exact radixNumber_keeps r.2 start _ _
    · apply Keeps.bind (rewind_keeps r.2)
      intro m
      exact decimalNumber_keeps m start

theorem lexeme_keeps (c : Char) : Keeps id m (lexeme start c m) := by
  unfold lexeme
  apply Keeps.ite
  · exact atSign_keeps m start
  apply Keeps.ite
  · exact point_keeps m start
  apply Keeps.ite
  · apply Keeps.bind (rewind_keeps m)
    intro m
    exact identifier_keeps m start
  apply Keeps.ite
  · exact number_keeps m start c
  · exact sign_keeps m start c

/-- the next turn behind a token -/
theorem Keeps.turn {r : Run LexError Machine} (h : Keeps id m r) (depth : Nat) :
    Keeps Next.machine m (r >>= fun m => .ok (.turn depth m)) := by
  apply h.bind
  intro m
  exact .ok rfl

theorem endLine_keeps (depth : Nat) : Keeps Next.machine m (endLine depth m) := by
  unfold endLine
  apply Keeps.bind (finishLine_keeps m)
  intro r
  obtain ⟨e, m⟩ := r
  cases e with
  | none => exact .ok rfl
  | some e => exact .ok rfl

theorem slash_keeps (depth : Nat) : Keeps Next.machine m (slash depth start m) := by
  unfold slash
  apply Keeps.bind (reading_keeps m _)
  intro r
  apply Keeps.ite
  · apply Keeps.bind (lineComment_keeps r.2 start)
    intro m
    exact endLine_keeps m depth
  · apply Keeps.bind (reading_keeps r.2 _)
    intro r
    apply Keeps.ite
    · exact (blockComment_keeps r.2 start).turn r.2 depth
    · exact (pushJoined_keeps r.2 start _ _ _).turn r.2 depth

theorem openBrace_keeps (depth : Nat) : Keeps Next.machine m (openBrace depth start m) := by
  unfold openBrace
  apply Keeps.either
  intro depth
  exact (push_keeps m start _).turn m depth

theorem closeBrace_keeps (depth : Nat) : Keeps Next.machine m (closeBrace depth start m) := by
  unfold closeBrace
  apply Keeps.ite
  · exact .ok rfl
  · apply Keeps.either
    intro depth
    exact (push_keeps m start _).turn m depth

end Machine

end ScriptLexer

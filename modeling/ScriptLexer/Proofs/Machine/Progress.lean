import ScriptLexer.Proofs.Machine.Strides
import ScriptLexer.Proofs.Machine.Watch

/-!
# Progress

A turn that neither ends the list nor fails leaves the reader further on than where it began, and so
does each step of the loops inside of it.  The lists inside of a turn begin behind the first character of
what begins them.  So what is left of the text bounds both how often a turn follows another one and how
deep the lists are.

* `Inner`            a scanner of inner lists, as far as a turn makes use of it;
* `turn_agrees`      a turn goes on, and depends on the scanner only at machines that are further on;
* `scanBody_agrees`  with more turns than characters, more turns make no difference;
* `progress_between` all of this, for every machine whose reader stands on a character boundary.
-/

namespace ScriptLexer

namespace Machine

open Run (Lands Steps Agree)

variable {late : Prop} {m₀ m m' m'' : Machine} {x y a b : List Char} {k k' : Nat} {start : Position}

/-! ## ways behind ways -/

theorem Beyond.after (h : m.Went x y 0 m') (h' : m'.Beyond [] 0 m'') : m.Beyond [] 0 m'' := by
  obtain ⟨c, z, y', h'⟩ := h'
  cases x with
  | nil => exact ⟨c, z, y', h.trans h'⟩
  | cons d x => exact ⟨d, x ++ ([] ++ [c] ++ z), y', h.trans h'⟩

theorem Closed.append {mode : Mode} {e : Exit} (h : Closed mode e x y k) (z : List Char) :
    Closed mode e (z ++ x) y k := by
  cases h with
  | endOfInput x hmode => exact .endOfInput _ hmode
  | newline w y hmode =>
    rw [← List.append_assoc]
    exact .newline _ y hmode
  | brace w y hmode =>
    rw [← List.append_assoc]
    exact .brace _ y hmode

theorem Ended.after {e : Exit} (h : m.Went x y 0 m') (h' : m'.Ended e m'') : m.Ended e m'' := by
  obtain ⟨x', y', k, hwent, hclosed⟩ := h'
  exact ⟨x ++ x', y', 0 + k, h.trans hwent, by rw [Nat.zero_add]; exact hclosed.append x⟩

/-! ## inner lists -/

/-- the scanners are the same at the machines further on than `m₀` that are to scan a list which began
before; a list that `scan` scans from there ends somewhere -/
def Inner (late : Prop) (m₀ : Machine) (scan scan' : Scanner) : Prop :=
  ∀ x y m, x ≠ [] → m₀.Went x y 0 m → m.scopeStart < m.reader.pos →
    Agree late (scan m) (scan' m) fun r => r.2.mode = m.mode ∧ m.Ended r.1 r.2

variable {scan scan' : Scanner}

theorem scanNested_agrees (hscan : Inner late m₀ scan scan') (hx : x ≠ []) (h : m₀.Went x y 0 m)
    (mode : Mode) {scopeStart : Nat} (hstart : scopeStart < m.reader.pos) :
    Agree late (m.scanNested scan mode scopeStart) (m.scanNested scan' mode scopeStart) fun r =>
      ∃ z y' k, m₀.Went (x ++ z) y' k r.2 ∧ Closed mode r.1.2 z y' k := by
  let inner : Machine := { m with
    mode, scopeStart, tokens := [], pending := m.tokens :: m.pending }
  have hinner : m₀.Went x y 0 inner := h.congr rfl rfl
  apply Agree.bind (hscan x y inner hx hinner hstart)
  rintro ⟨e, m'⟩ ⟨hmode, z, y', k, hwent, hclosed⟩
  rw [hmode] at hclosed
  exact .same (.ok ⟨z, y', 0 + k, (hinner.trans hwent).congr rfl rfl, by rwa [Nat.zero_add]⟩)

theorem macroBody_agrees (hscan : Inner late m₀ scan scan') (hx : x ≠ []) (h : m₀.Went x y 0 m)
    {nameStart : Nat} (hstart : nameStart < m.reader.pos) :
    Agree late (m.macroBody scan nameStart) (m.macroBody scan' nameStart) fun r =>
      ∃ z y' k, m₀.Went (x ++ z) y' k r.2 ∧ Closed .macroBody r.1.2 z y' k := by
  have hinside : m₀.Went x y 0 (m.setMacro true) := h.congr rfl rfl
  apply Agree.bind (scanNested_agrees hscan hx hinside .macroBody hstart)
  rintro ⟨body, m'⟩ ⟨z, y', k, hwent, hclosed⟩
  exact .same (.ok ⟨z, y', k, hwent.congr rfl rfl, hclosed⟩)

theorem eatSection_agrees (hscan : Inner late m₀ scan scan') (hx : x ≠ []) (h : m₀.Went x y 0 m)
    {here : Position} (hhere : here.offset < m.reader.pos) (bodyStart : Nat)
    (sections : List (Section Token)) :
    Agree late (m.eatSection scan here bodyStart sections)
      (m.eatSection scan' here bodyStart sections) fun r => m₀.Further x 0 r.2 := by
  apply Agree.bind (scanNested_agrees hscan hx h .interpolation hhere)
  rintro ⟨⟨tokens, e⟩, m'⟩ ⟨z, y', k, hwent, hclosed⟩
  apply Agree.pass (Run.relativeTo_timely _ _)
  intro relative
  refine .same (.ok ?_)
  cases hclosed with
  | endOfInput _ hmode => exact absurd rfl hmode
  | newline _ _ hmode => cases hmode
  | brace _ _ _ => exact hwent.further.of_append

/-- one step of a template, with one scanner and with the other -/
theorem templateLoop_steps (hscan : Inner late m₀ scan scan') {bodyStart : Nat}
    {sections : List (Section Token)} (h : m₀.Went x y 0 m) :
    Steps late
      (fun (i : Bool × Nat) (s : List (Section Token) × Machine) =>
        templateLoop (cond i.1 scan scan') start bodyStart i.2 s.1 s.2)
      (fun i => templateLoop (cond i.1 scan scan') start bodyStart (i.2 + 1) sections m)
      (fun s => m₀.Beyond x 0 s.2) (fun r => m₀.Further x 0 r.2) := by
  simp only [templateLoop]
  apply Steps.bind (read_lands h)
  rintro ⟨_, m'⟩ htook
  cases htook with
  | nothing _ _ => exact .done (.fail _)
  | lineBreak _ _ => exact .done (.fail _)
  | @char _ c y' hc _ h' =>
    simp only [if_neg hc]
    apply Steps.ite
    · exact .done (.ok h'.further.of_append)
    apply Steps.ite
    · apply Steps.bind (eatIf_lands (by decide) h'.further)
      intro r h
      exact .next (s := (sections, r.2)) h.beyond
    apply Steps.ite
    · have hsection := eatSection_agrees hscan (by simp) h' (h.offset_lt h'.further) bodyStart sections
      apply Steps.each hsection.lands
      · rintro ⟨first, n⟩
        cases first with
        | true => rfl
        | false => exact hsection.eq.symm
      · intro r h
        exact .next (s := r) h.beyond
    · exact .next (s := (sections, m')) h'.further.beyond

theorem templateLiteral_agrees (hscan : Inner late m₀ scan scan') (h : m₀.Further x 0 m) :
    Agree late (templateLiteral scan start m) (templateLiteral scan' start m) (m₀.Further x 0) := by
  obtain ⟨z, y, h⟩ := h
  have hloop : Agree late (templateLoop scan start m.reader.pos m.reader.turns [] m)
      (templateLoop scan' start m.reader.pos m.reader.turns [] m) fun r => m₀.Further (x ++ z) 0 r.2 :=
    agrees_of_steps (fun first n (s : List (Section Token) × Machine) =>
        templateLoop (cond first scan scan') start m.reader.pos n s.1 s.2)
      (fun x y s h => templateLoop_steps hscan h) (s := ([], m)) h.lt_turns h true false
  apply Agree.bind hloop
  intro r h
  exact .same (closeTemplate_lands h.of_append)

theorem macroDirective_agrees {c : Char} (hscan : Inner late m₀ scan scan')
    (h : m₀.Further (x ++ [c]) 0 m) :
    Agree late (macroDirective scan start m) (macroDirective scan' start m)
      (m₀.Further (x ++ [c]) 0) := by
  unfold macroDirective
  apply Agree.ite
  · exact .same (.fail _)
  apply Agree.next (names_lands h)
  rintro ⟨names, m⟩ ⟨⟨z, y, h⟩, hstart⟩
  apply Agree.bind (macroBody_agrees hscan (by simp) h hstart)
  rintro ⟨⟨body, exit⟩, m⟩ ⟨z', y', k, h, hclosed⟩
  have hbrace : exit ≠ .brace := by
    rintro rfl
    cases hclosed with
    | brace _ _ hmode => cases hmode
  exact .same (define_lands hclosed hbrace h.further.of_append.of_append)

theorem dollar_agrees (hscan : Inner late m₀ scan scan') (h : m₀.Further x 0 m) :
    Agree late (dollar scan start m) (dollar scan' start m) (m₀.Further x 0) := by
  unfold dollar
  apply Agree.next (eatIf_lands (by decide) h)
  rintro ⟨quote, m⟩ h
  apply Agree.ite
  · exact templateLiteral_agrees hscan h
  · apply Agree.pass (peek_timely h)
    intro c
    refine .same ?_
    exact .ite (radixNumber_lands h) (.ok h)

/-! ## turns -/

theorem turned_agrees {r r' : Run LexError Machine} (h : Agree late r r' (m₀.Further x 0))
    (depth : Nat) :
    Agree late (r >>= fun m => .ok (.turn depth m)) (r' >>= fun m => .ok (.turn depth m))
      (m₀.Turned x) := h.bind fun _ h => .same (.ok h)

theorem directive_agrees {c : Char} (hscan : Inner late m₀ scan scan') {depth : Nat}
    (h : m₀.Further (x ++ [c]) 0 m) :
    Agree late (directive scan depth start m) (directive scan' depth start m)
      (m₀.Turned (x ++ [c])) := by
  unfold directive
  apply Agree.next (eatWhile_lands (by decide) h)
  rintro ⟨word, m⟩ h
  apply Agree.ite
  · exact .same (.bind (region_lands h) fun m h => endLine_lands h)
  apply Agree.ite
  · exact .same (.bind (region_lands h) fun m h => endLine_lands h)
  apply Agree.ite
  · exact turned_agrees (macroDirective_agrees hscan h) depth
  apply Agree.ite
  · exact .same (turned_lands (colour_lands h) depth)
  · exact .same (.fail _)

theorem act_agrees {c : Char} (hscan : Inner late m₀ scan scan') {depth : Nat} (hc : c ≠ '\n')
    (h : m₀.Went (x ++ [c]) y 0 m) :
    Agree late (act scan depth start c m) (act scan' depth start c m) (m₀.Turned (x ++ [c])) := by
  unfold act
  apply Agree.ite
  · exact .same (turned_lands (continuation_lands h.further) depth)
  apply Agree.ite
  · apply Agree.ite
    · exact .same (.fail _)
    · exact .same (turned_lands (quotedString_lands h.further) depth)
  apply Agree.ite
  · exact turned_agrees (dollar_agrees hscan h.further) depth
  apply Agree.ite
  · exact directive_agrees hscan h.further
  apply Agree.ite
  · exact .same (openBrace_lands h.further)
  split
  · rename_i hbrace
    subst hbrace
    exact .same (closeBrace_lands h)
  apply Agree.ite
  · exact .same (slash_lands h.further)
  · exact .same (turned_lands (lexeme_lands hc h) depth)

/-- what a turn comes to: the reader is further on, or the list has ended -/
def Advanced (m : Machine) : Next → Prop
  | .turn _ m' => m.Beyond [] 0 m'
  | .exit e m' => m.Ended e m'

theorem Turned.advanced {c : Char} (h : m.Went x y 0 m') {next : Next}
    (ht : m'.Turned ([] ++ [c]) next) :
    m.Advanced next := by
  cases next with
  | turn depth m'' => exact Beyond.after h ht.beyond
  | exit e m'' => exact Ended.after h ht

/-- only the inner lists that begin behind the first character of the turn depend on the scanner -/
theorem turn_agrees (hscan : ∀ m', m.eatBlanks = .ok m' → Inner late m' scan scan') (depth : Nat)
    (h : m.reader = .between a b) :
    Agree late (turn scan depth m) (turn scan' depth m) m.Advanced := by
  have hblanks : Lands late m.eatBlanks fun m' => m.eatBlanks = .ok m' ∧ m.Further [] 0 m' :=
    (eatBlanks_lands (Went.refl h).further).with_eq
  unfold turn
  apply Agree.next hblanks
  rintro m₁ ⟨hm, z, y, h₁⟩
  obtain ⟨a', ha'⟩ := h₁.here
  have hinner := hscan m₁ hm
  apply Agree.next (read_lands (Went.refl ha'))
  rintro ⟨_, m'⟩ htook
  cases htook with
  | nothing _ h =>
    by_cases hmode : m'.mode = .interpolation
    · simp only [if_pos hmode]
      exact .same (.fail _)
    · simp only [if_neg hmode]
      exact .same (.ok (Ended.after h₁ ⟨[], [], 0, h, .endOfInput [] hmode⟩))
  | lineBreak _ h =>
    by_cases hmode : m'.mode = .macroBody
    · simp only [if_pos hmode]
      exact .same (.ok (Ended.after h₁ ⟨_, _, 1, h, .newline [] _ hmode⟩))
    · simp only [if_neg hmode]
      exact .same ((turned_lands (pushBreak_lands h.further) depth).imp fun _ ht => ht.advanced h₁)
  | char hc _ h =>
    simp only [if_neg hc]
    have hact : Agree late (act scan depth m₁.position _ m') (act scan' depth m₁.position _ m') _ :=
      act_agrees hinner hc h
    exact ⟨hact.eq, hact.lands.imp fun _ ht => ht.advanced h₁⟩

/-! ## lists -/

/-- a list leaves the machine inside of what it was inside of -/
theorem scanBody_keeps (n depth : Nat) (m : Machine) : Keeps Prod.snd m (scanBody n depth m) := by
  intro r hr
  have htracks := Watched.scanBody_tracks n depth ⟨m, m.mode, [], []⟩
  simp only [hr] at htracks
  generalize (scanBody n depth m : Watched _).run ⟨m, m.mode, [], []⟩ = result at htracks
  cases htracks with
  | ok hmachine hkept => exact (congrArg frame hmachine).symm.trans hkept.frame

theorem scanBody_mode {n depth : Nat} {r : Exit × Machine}
    (h : (scanBody n depth m : Run LexError _) = .ok r) :
    r.2.mode = m.mode := congrArg (fun f => f.1.mode) (scanBody_keeps n depth m r h)

/-- less is left behind what was read -/
theorem shorter (h : m.reader = .between a b) (hwent : m.Went x y k m') (hx : x ≠ []) :
    y.length < b.length := by
  have htext := congrArg List.length (hwent.append_eq (Went.refl h))
  have hpos := List.length_pos_iff.mpr hx
  simp only [List.length_append, List.length_nil] at htext
  omega

/-- with more turns than characters, or with as many turns, a list comes to the same; without turns
enough it may be too late -/
theorem scanBody_agrees {n n' : Nat} (hn : n' = n ∨ b.length < n ∧ b.length < n')
    (hlate : n ≤ b.length → late) (depth : Nat) (h : m.reader = .between a b) :
    Agree late (scanBody n depth m : Run LexError _) (scanBody n' depth m) fun r =>
      m.Ended r.1 r.2 := by
  induction n generalizing n' depth m a b with
  | zero =>
    obtain rfl : n' = 0 := by omega
    exact .same (.fault fun _ => hlate (Nat.zero_le _))
  | succ n ih =>
    obtain ⟨n', rfl⟩ : ∃ k, n' = k + 1 := ⟨n' - 1, by omega⟩
    -- an inner list is shorter, and so is what is left behind a turn
    have hinner : ∀ m₁, m.eatBlanks = .ok m₁ → Inner late m₁ (scanBody n 0) (scanBody n' 0) := by
      intro m₁ hm₁ x y m' hx hwent _
      have hblanks : Lands True m.eatBlanks (m.Further [] 0) :=
        eatBlanks_lands (Went.refl h).further
      obtain ⟨z, y₁, h₁⟩ := hblanks.of_ok hm₁
      have hshort := shorter h (h₁.trans hwent) (by simp [hx])
      obtain ⟨a', ha'⟩ := hwent.here
      have hlist : Agree late (scanBody n 0 m') (scanBody n' 0 m') _ :=
        ih (by omega) (fun hle => hlate (by omega)) 0 ha'
      exact ⟨hlist.eq, hlist.lands.with_eq.imp fun r hr => ⟨scanBody_mode hr.1, hr.2⟩⟩
    rw [scanBody, scanBody]
    apply Agree.bind (turn_agrees hinner depth h)
    intro next hnext
    cases next with
    | exit e m' => exact .same (.ok hnext)
    | turn depth m' =>
      obtain ⟨c, z, y, hwent⟩ := hnext
      have hshort := shorter h hwent (by simp)
      obtain ⟨a', ha'⟩ := hwent.here
      have hlist : Agree late (scanBody n depth m') (scanBody n' depth m') _ :=
        ih (by omega) (fun hle => hlate (by omega)) depth ha'
      exact ⟨hlist.eq, hlist.lands.imp fun r hr => hr.after hwent⟩

theorem scanBody_lands {n : Nat} (hlate : n ≤ b.length → late) (depth : Nat)
    (h : m.reader = .between a b) :
    Lands late (scanBody n depth m : Run LexError _) fun r => r.2.mode = m.mode ∧ m.Ended r.1 r.2 :=
  (scanBody_agrees (.inl rfl) hlate depth h).lands.with_eq.imp fun _ hr => ⟨scanBody_mode hr.1, hr.2⟩

/-! ## progress -/

/-- the reader of `m'` is in the same text, on a character boundary at least a character further on -/
def Passes (m m' : Machine) : Prop :=
  ∃ a x y, x ≠ [] ∧ m.reader = .between a (x ++ y) ∧ m'.reader = .between (a ++ x) y

theorem Went.passes (h : m.Went x y k m') (hx : x ≠ []) : m.Passes m' := by
  obtain ⟨a, h₀, h₁⟩ := h.reader
  exact ⟨a, x, y, hx, h₀, h₁⟩

theorem Beyond.passes (h : m.Beyond [] k m') : m.Passes m' := by
  obtain ⟨c, z, y, h⟩ := h
  exact h.passes (by simp)

/-- one step of a loop from the state `s`: it ends, and not for want of turns, or goes on from a state
that is as `on` says -/
def StepsOn {ε β σ : Type} (loop : Nat → σ → Run ε β) (on : σ → Prop) (s : σ) : Prop :=
  (∃ r, r ≠ Run.fault .turns ∧ ∀ n, loop (n + 1) s = r) ∨
    ∃ s', on s' ∧ ∀ n, loop (n + 1) s = loop n s'

theorem stepsOn_of_steps {ε β σ : Type} {loop : Nat → σ → Run ε β} {on on' : σ → Prop}
    {Q : β → Prop} {s : σ} (h : Steps False loop (fun n => loop (n + 1) s) on Q)
    (hon : ∀ s', on s' → on' s') : StepsOn loop on' s := by
  cases h with
  | ends r hr h => exact .inl ⟨r, hr.timely, h⟩
  | goes s' hs h => exact .inr ⟨s', hon s' hs, h⟩

/-- a machine in front of `left` characters goes on over them, whatever it does -/
structure Progress (m : Machine) (left : Nat) : Prop where
  /-- a turn that another one follows -/
  turn (n depth depth' : Nat) (m' : Machine) :
    (turn (scanBody n 0) depth m : Run LexError _) = .ok (.turn depth' m') → m.Passes m'
  /-- the lists inside of a turn, each of which is behind what begins it: only there does it matter how
  a list is scanned -/
  inner (n depth : Nat) (scan : Scanner) (m₁ : Machine) : m.eatBlanks = .ok m₁ →
    (∀ m', m₁.Passes m' → m'.scopeStart < m'.reader.pos → scan m' = scanBody n 0 m') →
    Machine.turn scan depth m = Machine.turn (scanBody n 0) depth m
  /-- the body of a string -/
  quoted (start : Position) : StepsOn (quotedLoop start) m.Passes m
  raw (start : Position) (quote : Char) : StepsOn (rawLoop start quote) m.Passes m
  /-- the body of a template, with turns enough for the lists in it -/
  template (start : Position) (bodyStart n : Nat) (sections : List (Section Token)) : left ≤ n →
    StepsOn (fun k s => (templateLoop (scanBody n 0) start bodyStart k s.1 s.2 : Run LexError _))
      (fun s => m.Passes s.2) (sections, m)
  block (start : Position) (depth : Nat) :
    StepsOn (fun n s => blockLoop start n s.1 s.2) (fun s => m.Passes s.2) (depth, m)
  /-- the escapes of a body, which is decoded on its own -/
  escapes (body out rest : List Char) :
    StepsOn (fun n s => decodeLoop body n s.1 s.2) (fun s => ∃ t, t ≠ [] ∧ rest = t ++ s.2) (out, rest)
  /-- a list with more turns than characters, which a scan is given -/
  ends (n n' depth : Nat) : left < n → left < n' →
    (scanBody n depth m : Run LexError _) = scanBody n' depth m ∧
      (scanBody n depth m : Run LexError _) ≠ Run.fault .turns
  turns : left < m.reader.turns

/-- wherever the reader stands on a character boundary, the scan makes progress; so it ends, and neither
the turns of a list nor the lists inside of each other are more than the characters that are left -/
theorem progress_between (h : m.reader = .between a b) : m.Progress b.length where
  turn := by
    intro n depth depth' m' hturn
    have hinner : ∀ m₁, m.eatBlanks = .ok m₁ → Inner True m₁ (scanBody n 0) (scanBody n 0) := by
      intro m₁ _ x y m' _ hwent _
      obtain ⟨a', ha'⟩ := hwent.here
      exact .same (scanBody_lands (fun _ => trivial) 0 ha')
    exact ((turn_agrees hinner depth h).lands.of_ok hturn : m.Beyond [] 0 m').passes
  inner := by
    intro n depth scan m₁ hm₁ hscan
    have hinner : ∀ m', m.eatBlanks = .ok m' → Inner True m' (scanBody n 0) scan := by
      intro m' hm' x y inner hx hwent hstart
      obtain rfl : m₁ = m' := Except.ok.inj (hm₁.symm.trans hm')
      obtain ⟨a', ha'⟩ := hwent.here
      exact ⟨(hscan inner (hwent.passes hx) hstart).symm, scanBody_lands (fun _ => trivial) 0 ha'⟩
    exact (turn_agrees hinner depth h).eq.symm
  quoted start := stepsOn_of_steps (quotedLoop_steps (.refl h)) fun _ hs => hs.passes
  raw start quote := stepsOn_of_steps (rawLoop_steps (.refl h)) fun _ hs => hs.passes
  template := by
    intro start bodyStart n sections hn
    have hinner : Inner False m (scanBody n 0) (scanBody n 0) := by
      intro x y m' hx hwent _
      have hshort := shorter h hwent hx
      obtain ⟨a', ha'⟩ := hwent.here
      exact .same (scanBody_lands (fun hle => by omega) 0 ha')
    exact stepsOn_of_steps ((templateLoop_steps hinner (.refl h)).comp fun k => (true, k))
      fun _ hs => hs.passes
  block start depth := stepsOn_of_steps (blockLoop_steps (.refl h)) fun _ hs => hs.passes
  escapes body out rest := stepsOn_of_steps (decodeLoop_steps body out rest) fun _ hs => hs
  ends := by
    intro n n' depth hn hn'
    have hagrees : Agree False (scanBody n depth m) (scanBody n' depth m) fun r => m.Ended r.1 r.2 :=
      scanBody_agrees (.inr ⟨hn, hn'⟩) (by omega) depth h
    exact ⟨hagrees.eq, hagrees.lands.timely⟩
  turns := (Went.refl h).lt_turns

/-- in front of a point and a digit, the first of which is read twice -/
theorem progress_between_point :
    ((Machine.start ['\n', '.', '5'] .plain).moved ⟨['\n', '.', '5'], 1⟩).reader
        = .between ['\n'] ['.', '5'] ∧
      ((Machine.start ['\n', '.', '5'] .plain).moved ⟨['\n', '.', '5'], 1⟩).Progress 2 := by
  have h : ((Machine.start ['\n', '.', '5'] .plain).moved ⟨['\n', '.', '5'], 1⟩).reader
      = .between ['\n'] ['.', '5'] := rfl
  exact ⟨h, progress_between h⟩

end Machine

end ScriptLexer

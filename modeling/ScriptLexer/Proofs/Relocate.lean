import ScriptLexer.Proofs.Locality
import ScriptLexer.Proofs.Run

/-!
# Runs in front of another text

A run does not depend on what follows it, as long as a break follows or the same opener (`Follows`), nor
on the scope beyond its mode: `Reads.relocate`.  The one thing that a scope forbids by where it lies is a
macro definition inside a macro body, so a run may be moved out of a macro body but not into one
(`Scope.Eases`).

Two ends need more than a break.  A list whose last token takes the rest of its line must go on at
the end of a line if it did before, and a template goes on with the character that it went on with.

Scopes of different modes decide the same as long as the character at the front has no meaning of its
own in one of them: `front_inScope`.
-/

namespace ScriptLexer

/-! ## scopes -/

/-- the scope `s'` is of the mode of `s`, and a macro definition is allowed in it if it is in `s` -/
structure Scope.Eases (s s' : Scope) : Prop where
  mode : s'.mode = s.mode
  inMacro : s'.inMacro = true → s.inMacro = true

theorem Scope.eases_refl (s : Scope) : s.Eases s := ⟨rfl, id⟩

namespace Lexeme

theorem macroHeader_not_simple {start : Position} {lead cs r : List Char}
    (h : (macroHeader start lead cs).rest? = some r) : ¬(macroHeader start lead cs).Simple := by
  revert h
  unfold macroHeader
  simp only
  split
  · intro h
    cases h
  · split
    · intro h
      cases h
    · exact fun _ => id
  · exact fun _ => id

theorem directive_inScope {s s' : Scope} {start : Position} {cs r : List Char}
    (h : (directive s start cs).rest? = some r)
    (hs : s'.inMacro = true → s.inMacro = true ∨ (directive s start cs).Simple) :
    directive s' start cs = directive s start cs := by
  unfold directive at h hs ⊢
  simp only at h hs ⊢
  split at h
  · rename_i hw
    simp only [if_pos hw]
  split at h
  · rename_i hw hw'
    simp only [if_neg hw, if_pos hw']
  split at h
  · rename_i hw hw' hw''
    split at h
    · cases h
    · rename_i hm
      simp only [if_neg hw, if_neg hw', if_pos hw'', if_neg hm] at hs ⊢
      -- a header makes no simple decision, so the other scope lies in no macro body
      have hm' : ¬s'.inMacro = true := fun h' => (hs h').elim hm (macroHeader_not_simple h)
      rw [if_neg hm']
  · rename_i hw hw' hw''
    simp only [if_neg hw, if_neg hw', if_neg hw'']

end Lexeme

theorem atBackslash_inScope {s s' : Scope} (hs : s.mode = .macroBody → s'.mode = .macroBody)
    {start : Position} {cs r : List Char} (h : (atBackslash s start cs).rest? = some r) :
    atBackslash s' start cs = atBackslash s start cs := by
  unfold atBackslash at h ⊢
  split at h
  · cases h
  · rename_i hm
    rw [if_neg hm, if_neg fun h' => h' (hs (not_not.mp hm))]
    split at h
    · rfl
    · cases h

theorem exists_cons_of_rest? {s : Scope} {depth : Nat} {behind : Behind} {start : Position}
    {cs r : List Char} (h : (front s depth behind start cs).rest? = some r) :
    ∃ c cs', cs = c :: cs' := by
  cases cs with
  | nil =>
    rw [front, atEnd] at h
    split at h <;> cases h
  | cons c cs => exact ⟨c, cs, rfl⟩

/-- a decision to go on is the same in every scope that gives the character at the front no other
meaning -/
theorem front_inScope {s s' : Scope} {depth depth' : Nat} {behind : Behind} {start : Position}
    {c : Char} {cs r : List Char} (h : (front s depth behind start (c :: cs)).rest? = some r)
    (hnewline : c = '\n' → (s'.mode = .macroBody ↔ s.mode = .macroBody))
    (hbackslash : c = '\\' → s.mode = .macroBody → s'.mode = .macroBody)
    (hbare : s'.isBareSection depth' = true → c ≠ '"' ∧ c ≠ '}')
    (hallows : s'.inMacro = true → s.inMacro = true ∨
      (front s depth behind start (c :: cs)).Simple) :
    front s' depth' behind start (c :: cs) = front s depth behind start (c :: cs) := by
  have hquote : ¬(c = '"' ∧ s'.isBareSection depth' = true) := fun h' => (hbare h'.2).1 h'.1
  have hbrace : ¬(c = '}' ∧ s'.isBareSection depth' = true) := fun h' => (hbare h'.2).2 h'.1
  rw [front] at h hallows ⊢
  rw [front]
  split at h
  · rename_i hc
    simp only [if_pos hc, atNewline, hnewline hc]
  rename_i hc
  simp only [if_neg hc] at hallows ⊢
  split at h
  · rename_i hc
    simp only [if_pos hc]
    exact atBackslash_inScope (hbackslash hc) h
  rename_i hc
  rw [if_neg hc, if_neg hquote, if_neg hbrace]
  simp only [if_neg hc] at hallows ⊢
  split at h
  · cases h
  rename_i hc
  simp only [if_neg hc] at hallows ⊢
  split at h
  · cases h
  rename_i hc
  simp only [if_neg hc] at hallows ⊢
  split at h
  · rename_i hc
    simp only [if_pos hc] at hallows ⊢
    exact Lexeme.directive_inScope h hallows
  · rename_i hc
    simp only [if_neg hc]

theorem Scope.isBareSection_of_mode {s s' : Scope} (hs : s'.mode = s.mode) (depth : Nat) :
    s'.isBareSection depth = s.isBareSection depth := by
  rw [Scope.isBareSection, Scope.isBareSection, hs]

theorem front_bareSection {s : Scope} {depth : Nat} {behind : Behind} {start : Position} {c : Char}
    {cs r : List Char} (h : (front s depth behind start (c :: cs)).rest? = some r)
    (hbare : s.isBareSection depth = true) : c ≠ '"' ∧ c ≠ '}' := by
  constructor
  · rintro rfl
    simp [front, hbare, Front.rest?] at h
  · rintro rfl
    simp [front, hbare, Front.rest?] at h

theorem front_ease {s s' : Scope} (hs : s.Eases s') {depth : Nat} {behind : Behind}
    {start : Position} {cs r : List Char}
    (h : (front s depth behind start cs).rest? = some r) :
    front s' depth behind start cs = front s depth behind start cs := by
  obtain ⟨c, cs, rfl⟩ := exists_cons_of_rest? h
  refine front_inScope h (fun _ => by rw [hs.mode]) (fun _ hm => hs.mode.trans hm) (fun hbare => ?_)
    fun hm => .inl (hs.inMacro hm)
  exact front_bareSection h (Scope.isBareSection_of_mode hs.mode depth ▸ hbare)

/-! ## decisions -/

theorem Front.rest?_withRest {f : Front} {r : List Char} (h : f.rest? = some r)
    (r' : List Char) : (f.withRest r').rest? = some r' := by
  cases f with
  | exit e => cases h
  | fail e => cases h
  | _ => rfl

/-- a decision is the same in an easier scope and in front of another text -/
theorem front_relocate {s s' : Scope} (hs : s.Eases s') {depth : Nat} {behind : Behind}
    {start : Position} {w x y y' : List Char} {f : Front} (hw : w ≠ [])
    (hfront : front s depth behind start (w ++ (x ++ y)) = f) (hrest : f.rest? = some (x ++ y))
    (hy : Follows y y') (hline : f.TakesLine → x = [] → LineEnd y → LineEnd y') :
    front s' depth behind start (w ++ (x ++ y')) = f.withRest (x ++ y') := by
  subst hfront
  obtain ⟨c, w, rfl⟩ := List.exists_cons_of_ne_nil hw
  simp only [List.cons_append, ← List.append_assoc w x] at hrest hline ⊢
  have hlocal := front_local s depth behind start c hrest hy hline
  rw [← hlocal]
  exact front_ease hs (hlocal ▸ Front.rest?_withRest hrest _)

/-- a macro body ends at the end of a line and nowhere else -/
theorem body_exit_iff (start : Nat) (depth : Nat) (behind : Behind) (p : Position)
    (y : List Char) :
    (∃ e, front (.bodyAt start) depth behind p y = .exit e) ↔ LineEnd y := by
  simp only [front_exit_iff]
  constructor
  · rintro ⟨e, he⟩
    cases e with
    | endOfInput => rw [he.1]; exact lineEnd_nil
    | newline =>
      intro c hc
      rw [he.1] at hc
      exact (Option.some.inj hc).symm
    | brace => exact absurd he.2 (by simp [Scope.isBareSection, Scope.bodyAt])
  · intro h
    cases y with
    | nil => exact ⟨.endOfInput, rfl, by simp [Scope.bodyAt]⟩
    | cons c y => exact ⟨.newline, by rw [lineEnd_cons.mp h]; rfl, rfl⟩

theorem front_templateOpening (scope : Scope) (depth : Nat) (behind : Behind) (start : Position)
    (rest : List Char) :
    front scope depth behind start (Front.templateOpening ++ rest) = .template rest := rfl

theorem head?_append_of_head? {y y' : List Char} (h : y'.head? = y.head?) (x : List Char) :
    (x ++ y').head? = (x ++ y).head? := by
  cases x with
  | nil => exact h
  | cons c x => rfl

/-- a piece of text looks at one character behind it -/
theorem piece_relocate {taken x y y' : List Char}
    (h : piece (taken ++ (x ++ y)) = .text taken (x ++ y)) (hy : y'.head? = y.head?) :
    piece (taken ++ (x ++ y')) = .text taken (x ++ y') := by
  have hhead := head?_append_of_head? hy x
  generalize hz : taken ++ (x ++ y) = z at h
  unfold piece at h
  split at h
  · cases h
  · cases h
  · cases h
  · cases h
  · obtain ⟨rfl, _⟩ := Piece.text.inj h
    rfl
  · obtain ⟨rfl, _⟩ := Piece.text.inj h
    rfl
  · rename_i c rest hnewline hquote hbrace hescape hescape'
    obtain ⟨rfl, rfl⟩ := Piece.text.inj h
    rw [List.singleton_append, piece]
    · exact hnewline
    · exact hquote
    · exact hbrace
    · intro z hc hz
      rw [hz] at hhead
      obtain ⟨z', hz'⟩ := List.head?_eq_some_iff.mp hhead.symm
      exact hescape z' hc hz'
    · intro z hc hz
      rw [hz] at hhead
      obtain ⟨z', hz'⟩ := List.head?_eq_some_iff.mp hhead.symm
      exact hescape' z' hc hz'

/-! ## runs -/

namespace Job

/-- the job in another scope -/
def inScope (s' : Scope) : Job → Job
  | .tokens _ st => .tokens s' st
  | .template _ start d => .template s' start d

/-- the other scope is easier; of that of a template only its sections see something, and they have
a mode of their own -/
def Eases (s' : Scope) : Job → Prop
  | .tokens s _ => s.Eases s'
  | .template s _ _ => s'.inMacro = true → s.inMacro = true

/-- what follows the job in one place, `y`, may be replaced by `y'` -/
def MayEnd (y y' : List Char) : Job → Prop
  | .tokens _ _ => Follows y y'
  | .template _ _ _ => y'.head? = y.head?

/-- what ends where the job has come to -/
def behind : Job → Behind
  | .tokens _ st => st.behind
  | .template _ _ _ => .nothing

end Job

theorem Reads.eq_of_nil {j j' : Job} {x y : List Char} (h : Reads j x y j') (hx : x = []) :
    j' = j := by
  cases h with
  | done => rfl
  | blank _ _ => cases hx
  | @atom scope st a text x y j hfront _ =>
    have htakes := front_takes scope st.depth st.behind st.position (text ++ (x ++ y))
    rw [hfront] at htakes
    exact absurd (List.append_eq_nil_iff.mp hx).1 htakes.2
  | template _ _ _ _ => simp [Front.templateOpening] at hx
  | macroDef hfront _ _ _ => simp [(front_header hfront).names_ne_nil] at hx
  | @text scope start d taken x y j hpiece _ =>
    have htakes := piece_takes (taken ++ (x ++ y))
    rw [hpiece] at htakes
    exact absurd (List.append_eq_nil_iff.mp hx).1 htakes.2
  | braces _ _ _ => simp at hx

/-- a run is the same in an easier scope and in front of another text -/
theorem Reads.relocate {j j' : Job} {x y : List Char} (h : Reads j x y j') {s' : Scope}
    {y' : List Char} (hs : j.Eases s') (hy : j.MayEnd y y')
    (hline : j'.behind = .lineEnd → LineEnd y → LineEnd y') :
    Reads (j.inScope s') x y' (j'.inScope s') := by
  -- every list inside is followed by a text of its own and has a scope of its own
  induction h generalizing s' y' with
  | done => exact .done
  | @blank scope st c x y j hfront hnext ih =>
    refine .blank ?_ (ih hs hy hline)
    exact front_relocate (w := [c]) hs (List.cons_ne_nil c []) hfront rfl hy False.elim
  | @atom scope st a text x y j hfront hnext ih =>
    have htakes := front_takes scope st.depth st.behind st.position (text ++ (x ++ y))
    rw [hfront] at htakes
    refine .atom (front_relocate hs htakes.2 hfront rfl hy fun h hx => ?_) (ih hs hy hline)
    rw [hnext.eq_of_nil hx] at hline
    exact hline h
  | @template scope st body x y d t j hfront hbody hfinish hnext ihbody ih =>
    refine .template (front_templateOpening _ _ _ _ _) ?_ hfinish (ih hs hy hline)
    exact ihbody hs.inMacro rfl fun h => nomatch h
  | @macroDef scope st st' header body x y e j hfront hbody hexit hnext ihbody ih =>
    have hend : LineEnd (x ++ y) := (body_exit_iff _ _ _ _ _).mp ⟨e, hexit⟩
    -- the body ends within the run, or with it and then where the run has to end a line
    have hend' : LineEnd (x ++ y') := by
      cases x with
      | nil =>
        rw [hnext.eq_of_nil rfl] at hline
        exact hline rfl hend
      | cons c x => exact lineEnd_cons.mpr (lineEnd_cons.mp hend)
    obtain ⟨e', hexit'⟩ := (body_exit_iff header.nameStart.offset st'.depth st'.behind st'.position
      (x ++ y')).mpr hend'
    refine .macroDef ?_ (ihbody (Scope.eases_refl _) (.inl hend'.toBreak) fun _ _ => hend') hexit'
      (ih hs hy hline)
    have hlead : header.lead ++ header.names ≠ [] := by simp [(front_header hfront).names_ne_nil]
    rw [← List.append_assoc body] at hfront ⊢
    exact front_relocate hs hlead hfront rfl hy False.elim
  | @text scope start d taken x y j hpiece hnext ih =>
    exact .text (piece_relocate hpiece hy) (ih hs hy hline)
  | @braces scope start d st inner x y j hinner hexit hnext ihinner ih =>
    have hbrace := (front_exit_iff _ _ _ _ _ _).mp hexit
    refine .braces ?_ ((front_exit_iff _ _ _ _ _ _).mpr ⟨rfl, hbrace.2⟩) (ih hs hy hline)
    -- a brace is a break but no end of a line
    refine ihinner ⟨rfl, hs⟩ (.inl (break_cons.mpr (by decide))) fun _ h => ?_
    exact absurd (lineEnd_cons.mp h) (by decide)

theorem Scope.EndsAt.break {s : Scope} {depth : Nat} {y : List Char} {e : Exit}
    (h : s.EndsAt depth y e) : Break y := by
  intro c hc
  cases e with
  | endOfInput =>
    rw [h.1] at hc
    cases hc
  | newline =>
    rw [h.1] at hc
    rw [← Option.some.inj hc]
    decide
  | brace =>
    rw [h.1] at hc
    rw [← Option.some.inj hc]
    decide

theorem scanTokens_ease {s s' : Scope} (hs : s.Eases s') {st : State} {cs : List Char} {r : Scan}
    (h : scanTokens s st cs = .ok r) : scanTokens s' st cs = .ok r := by
  obtain ⟨x, y, st', e, rfl, hreads, hexit, rfl⟩ := scanTokens_reads h
  have hends := (front_exit_iff _ _ _ _ _ _).mp hexit
  have hexit' : front s' st'.depth st'.behind st'.position y = .exit e := by
    rw [front_exit_iff]
    cases e with
    | endOfInput => exact ⟨hends.1, fun hm => hends.2 (hs.mode.symm.trans hm)⟩
    | newline => exact ⟨hends.1, hs.mode.trans hends.2⟩
    | brace => exact ⟨hends.1, (Scope.isBareSection_of_mode hs.mode _).trans hends.2⟩
  exact (hreads.relocate hs (.inl hends.break) fun _ => id).scanTokens_ok hexit'

end ScriptLexer

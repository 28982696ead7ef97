import ScriptLexer.Machine.Watch
import ScriptLexer.Proofs.Machine.Frames
import ScriptLexer.Proofs.Machine.Scan

/-!
# What the watched machine comes to

* `Marked`    the mark of a macro body is as the lists that are being scanned require it;
* `Kept`      the machine is inside of what it was inside of, and only marked machines were seen;
* `Tracks`    what is watched comes to what the machine comes to, and keeps all this, whether it stops
              early or not.

The scan is the same on both stages, so one lemma for each of its parts follows its steps on both sides
(`Tracks.bind`, `Tracks.pair`, `Tracks.machine`).  What was seen is never lost (`Kept.grows`), and a list
is seen where it begins (`scanBody_sees`).
-/

namespace ScriptLexer

/-! ## the mark -/

/-- a scan that began in the mode `first` and is scanning the inner lists `active` has a machine that is
in the innermost of these, and whose mark is set exactly if one of all the lists is a macro body -/
structure Marked (first : Mode) (active : List Mode) (m : Machine) : Prop where
  mode : m.mode = active.headD first
  depth : m.pending.length = active.length
  inMacro : m.inMacro = true ↔ first = .macroBody ∨ .macroBody ∈ active

namespace Watch

variable {w w' w'' : Watch}

/-- the machine that is being watched is marked -/
def Fits (w : Watch) : Prop := Marked w.first w.active w.machine

/-- every machine that was seen was marked -/
def Sound (w : Watch) : Prop := ∀ s ∈ w.seen, Marked w.first s.1 s.2

/-- what the machine is inside of, and what it should be inside of -/
def place (w : Watch) : (Scope × List (List Token)) × Mode × List Mode :=
  (w.machine.frame, w.first, w.active)

/-- the watch has gone on and come back to the same place, and nothing that was seen is lost -/
structure Kept (w w' : Watch) : Prop where
  place : w'.place = w.place
  grows : w.seen <:+ w'.seen
  sound : w.Fits → w.Sound → w'.Sound

theorem fits_start (text : List Char) (mode : Mode) : (start text mode).Fits := by
  refine ⟨rfl, rfl, ?_⟩
  show (mode == .macroBody) = true ↔ mode = .macroBody ∨ Mode.macroBody ∈ ([] : List Mode)
  simp

theorem Fits.of_place (h : w.Fits) (hplace : w'.place = w.place) : w'.Fits := by
  obtain ⟨hframe, hlists⟩ := Prod.mk.inj hplace
  obtain ⟨hfirst, hactive⟩ := Prod.mk.inj hlists
  obtain ⟨hscope, hpending⟩ := Prod.mk.inj hframe
  obtain ⟨hmode, _, hinside⟩ := Scope.mk.inj hscope
  refine ⟨?_, ?_, ?_⟩
  · rw [hactive, hfirst, hmode, h.mode]
  · rw [hactive, hpending, h.depth]
  · rw [hactive, hfirst, hinside, h.inMacro]

theorem Sound.see (h : w.Sound) (hfits : w.Fits) : w.see.Sound := by
  intro s hs
  rcases List.mem_cons.mp hs with rfl | hs
  · exact hfits
  · exact h s hs

namespace Kept

theorem refl (w : Watch) : w.Kept w := ⟨rfl, List.suffix_refl _, fun _ hsound => hsound⟩

theorem trans (h : w.Kept w') (h' : w'.Kept w'') : w.Kept w'' := by
  refine ⟨h'.place.trans h.place, h.grows.trans h'.grows, ?_⟩
  intro hfits hsound
  exact h'.sound (hfits.of_place h.place) (h.sound hfits hsound)

theorem see (w : Watch) : w.Kept w.see :=
  ⟨rfl, List.suffix_cons _ _, fun hfits hsound => hsound.see hfits⟩

theorem goTo {m : Machine} (h : m.frame = w.machine.frame) : w.Kept (w.goTo m) := by
  have hplace : ({ w with machine := m } : Watch).place = w.place := by
    rw [Watch.place, Watch.place, h]
  refine ⟨hplace, List.suffix_cons _ _, ?_⟩
  intro hfits hsound
  exact Sound.see hsound (hfits.of_place hplace)

theorem frame (h : w.Kept w') : w'.machine.frame = w.machine.frame := (Prod.mk.inj h.place).1

theorem active (h : w.Kept w') : w'.active = w.active :=
  (Prod.mk.inj (Prod.mk.inj h.place).2).2

theorem inMacro (h : w.Kept w') : w'.machine.inMacro = w.machine.inMacro :=
  congrArg (fun f => f.1.inMacro) h.frame

end Kept

/-- a section begins inside of the bodies that its template is inside of -/
theorem Fits.enter_section (h : w.Fits) (scopeStart : Nat) :
    (w.enter .interpolation scopeStart).Fits := by
  refine ⟨rfl, congrArg (· + 1) h.depth, ?_⟩
  show w.machine.inMacro = true ↔ w.first = .macroBody ∨ .macroBody ∈ Mode.interpolation :: w.active
  rw [h.inMacro, List.mem_cons]
  simp

/-- a body begins behind its mark -/
theorem Fits.enter_body (h : w.Fits) (scopeStart : Nat) :
    ((w.setMacro true).enter .macroBody scopeStart).Fits := by
  refine ⟨rfl, congrArg (· + 1) h.depth, ?_⟩
  exact iff_of_true rfl (.inr List.mem_cons_self)

namespace Kept

/-- behind an inner list the outer one is as it was -/
theorem leave_place {mode : Mode} {scopeStart : Nat} (h : (w.enter mode scopeStart).Kept w') :
    (w'.leave w.machine.mode w.machine.scopeStart).place = w.place := by
  obtain ⟨hframe, hlists⟩ := Prod.mk.inj h.place
  obtain ⟨hfirst, hactive⟩ := Prod.mk.inj hlists
  have hpending : w'.machine.pending = w.machine.tokens :: w.machine.pending :=
    (Prod.mk.inj hframe).2
  show ((Scope.mk _ _ w'.machine.inMacro, w'.machine.pending.tail), w'.first, w'.active.tail) = _
  rw [h.inMacro, hpending, hfirst, hactive]
  rfl

theorem section_leave {scopeStart : Nat} (h : (w.enter .interpolation scopeStart).Kept w') :
    w.Kept (w'.leave w.machine.mode w.machine.scopeStart) := by
  refine ⟨h.leave_place, (List.suffix_cons _ _).trans h.grows, ?_⟩
  intro hfits hsound
  have hinner := hfits.enter_section scopeStart
  exact h.sound hinner (Sound.see hsound hinner)

/-- a body leads back out of the macro -/
theorem body_leave {scopeStart : Nat} (hinside : w.machine.inMacro = false)
    (h : ((w.setMacro true).enter .macroBody scopeStart).Kept w') :
    w.Kept ((w'.leave w.machine.mode w.machine.scopeStart).setMacro false) := by
  have hplace : (w'.leave w.machine.mode w.machine.scopeStart).place = (w.setMacro true).place :=
    h.leave_place
  obtain ⟨hframe, hlists⟩ := Prod.mk.inj hplace
  have hpending : w'.machine.pending.tail = w.machine.pending := (Prod.mk.inj hframe).2
  refine ⟨?_, (List.suffix_cons _ _).trans h.grows, ?_⟩
  · show ((Scope.mk _ _ false, w'.machine.pending.tail), w'.first, w'.active.tail) = _
    rw [hpending, ← hinside]
    exact congrArg _ hlists
  · intro hfits hsound
    have hinner := hfits.enter_body scopeStart
    exact h.sound hinner (Sound.see hsound hinner)

end Kept

end Watch

/-! ## the watched scan and the scan -/

variable {α β : Type} {out : α → Machine} {out' : β → Machine} {w₀ w : Watch}

/-- what a watched computation comes to is what `s` is, with the machine that the watch has then; seen
from `w₀`, no list was left or begun -/
inductive Tracks (out : α → Machine) (w₀ : Watch) :
    EStateM.Result (Stop LexError) Watch α → Run LexError α → Prop where
  | ok {x : α} {w : Watch} (hmachine : w.machine = out x) (hkept : w₀.Kept w) :
      Tracks out w₀ (.ok x w) (.ok x)
  | error {stop : Stop LexError} {w : Watch} (hkept : w₀.Kept w) :
      Tracks out w₀ (.error stop w) (.error stop)

namespace Tracks

theorem after {r : EStateM.Result (Stop LexError) Watch α} {s : Run LexError α} (hkept : w₀.Kept w)
    (h : Tracks out w r s) : Tracks out w₀ r s := by
  cases h with
  | ok hmachine hkept' => exact .ok hmachine (hkept.trans hkept')
  | error hkept' => exact .error (hkept.trans hkept')

theorem kept {r : EStateM.Result (Stop LexError) Watch α} {s : Run LexError α}
    (h : Tracks out w₀ r s) : w₀.Kept (.behind r) := by
  cases h with
  | ok _ hkept => exact hkept
  | error hkept => exact hkept

variable {x x' : Watched α} {k : α → Watched β} {s s' : Run LexError α} {g : α → Run LexError β}

/-- one step after another -/
theorem bind (h : Tracks out w₀ (x.run w) s)
    (hk : ∀ y w', w₀.Kept w' → w'.machine = out y → Tracks out' w' ((k y).run w') (g y)) :
    Tracks out' w₀ ((x >>= k).run w) (s >>= g) := by
  rw [EStateM.run_bind]
  generalize x.run w = r at h ⊢
  cases h with
  | ok hmachine hkept => exact (hk _ _ hkept hmachine).after hkept
  | error hkept => exact .error hkept

/-- a step that gives a machine -/
theorem machine {x : Watched Machine} {k : Machine → Watched β} {s : Run LexError Machine}
    {g : Machine → Run LexError β} (h : Tracks id w₀ (x.run w) s)
    (hk : ∀ w', w₀.Kept w' → Tracks out' w' ((k w'.machine).run w') (g w'.machine)) :
    Tracks out' w₀ ((x >>= k).run w) (s >>= g) := by
  apply h.bind
  intro m w' hkept hm
  obtain rfl : w'.machine = m := hm
  exact hk w' hkept

/-- a step that gives a value and a machine -/
theorem pair {x : Watched (α × Machine)} {k : α × Machine → Watched β}
    {s : Run LexError (α × Machine)} {g : α × Machine → Run LexError β}
    (h : Tracks Prod.snd w₀ (x.run w) s)
    (hk : ∀ a w', w₀.Kept w' →
      Tracks out' w' ((k (a, w'.machine)).run w') (g (a, w'.machine))) :
    Tracks out' w₀ ((x >>= k).run w) (s >>= g) := by
  apply h.bind
  rintro ⟨a, m⟩ w' hkept hm
  obtain rfl : w'.machine = m := hm
  exact hk a w' hkept

theorem pure {y : α} (h : w.machine = out y) :
    Tracks out w ((Pure.pure y : Watched α).run w) (Pure.pure y) := .ok h (.refl w)

theorem fail (e : LexError) :
    Tracks out w ((Stage.settle (Run.fail e) : Watched α).run w) (Stage.settle (Run.fail e)) :=
  .error (.refl w)

theorem fault (f : Fault) :
    Tracks out w ((Stage.settle (Run.fault f) : Watched α).run w) (Stage.settle (Run.fault f)) :=
  .error (.refl w)

/-- a step that needs no machine -/
theorem settle {r : Run LexError α} (hk : ∀ y, Tracks out' w ((k y).run w) (g y)) :
    Tracks out' w ((Stage.settle r >>= k).run w) (Stage.settle r >>= g) := by
  cases r with
  | error stop => exact .error (.refl w)
  | ok y => exact hk y

theorem ite {p : Prop} [Decidable p] (h : Tracks out w (x.run w) s)
    (h' : Tracks out w (x'.run w) s') :
    Tracks out w ((if p then x else x').run w) (if p then s else s') := by
  split
  · exact h
  · exact h'

end Tracks

namespace Watched

open Machine (Keeps Next)

/-! ### operations -/

/-- an operation writes down the machine that it finds, and the one behind it -/
theorem perform_of_ok {f : Machine → Run LexError α} {m : Machine} {x : α} (h : f m = .ok x)
    (w : Watch) :
    (Stage.perform out f m : Watched α).run w = .ok x (w.see.goTo (out x)) := by
  show (settle (f m) >>= fun x => modify (Watch.goTo (out x)) >>= fun _ => pure x).run w.see = _
  rw [h]
  rfl

theorem perform_of_error {f : Machine → Run LexError α} {m : Machine} {stop : Stop LexError}
    (h : f m = .error stop) (w : Watch) :
    (Stage.perform out f m : Watched α).run w = .error stop w.see := by
  show (settle (f m) >>= fun x => modify (Watch.goTo (out x)) >>= fun _ => pure x).run w.see = _
  rw [h]
  rfl

theorem perform_sees {f : Machine → Run LexError α} (h : Keeps out w.machine (f w.machine)) :
    Tracks out w.see ((Stage.perform out f w.machine : Watched α).run w)
      (Stage.perform out f w.machine) := by
  show Tracks out w.see _ (f w.machine)
  cases hf : f w.machine with
  | error stop =>
    rw [perform_of_error hf]
    exact .error (.refl _)
  | ok x =>
    rw [perform_of_ok hf]
    exact .ok rfl (.goTo (h x hf))

theorem perform_tracks {f : Machine → Run LexError α} (h : Keeps out w.machine (f w.machine)) :
    Tracks out w ((Stage.perform out f w.machine : Watched α).run w)
      (Stage.perform out f w.machine) := (perform_sees h).after (.see w)

/-- nothing of the log is lost -/
theorem log_perform (out : α → Machine) (f : Machine → Run LexError α) (m : Machine) (w : Watch) :
    w.see.seen <:+ log (Stage.perform out f m) w := by
  unfold log
  cases hf : f m with
  | error stop =>
    rw [perform_of_error hf]
    exact List.suffix_refl _
  | ok x =>
    rw [perform_of_ok hf]
    exact List.suffix_cons _ _

theorem log_bind {x : Watched α} {k : α → Watched β} (w : Watch)
    (hk : ∀ y w', w'.seen <:+ log (k y) w') : log x w <:+ log (x >>= k) w := by
  unfold log
  rw [EStateM.run_bind]
  cases x.run w with
  | ok y w' => exact hk y w'
  | error stop w' => exact List.suffix_refl _

/-! ### inner lists -/

/-- a watched scanner does what a scanner of the machine does -/
def Follows (scan : ScannerOn Watched) (scan' : Machine.Scanner) : Prop :=
  ∀ w, Tracks Prod.snd w ((scan w.machine).run w) (scan' w.machine)

variable {scan : ScannerOn Watched} {scan' : Machine.Scanner} {start : Position}

theorem machine_run (w : Watch) : machine.run w = .ok w.machine w := rfl

theorem modify_run (f : Watch → Watch) (w : Watch) :
    (modify f : Watched Unit).run w = .ok () (f w) := rfl

theorem attempt_run (x : Watched α) (w : Watch) :
    (attempt x).run w = .ok (outcome (x.run w)) (.behind (x.run w)) := rfl

/-- what an inner list comes to for the outer one; `back` leads there from the end of the inner list -/
def resumed (back : Watch → Watch) :
    EStateM.Result (Stop LexError) Watch (Exit × Machine) →
      EStateM.Result (Stop LexError) Watch ((List Token × Exit) × Machine)
  | .ok r w => .ok ((w.machine.tokens.reverse, r.1), (back w).machine) (back w)
  | .error stop w => .error stop (back w)

/-- behind an inner list the outer one is taken up again, also when the inner one has failed -/
theorem scanNested_run (scan : ScannerOn Watched) (mode : Mode) (scopeStart : Nat) (w : Watch) :
    (scanNested scan mode scopeStart w.machine).run w =
      resumed (Watch.leave w.machine.mode w.machine.scopeStart)
        ((scan (w.enter mode scopeStart).machine).run (w.enter mode scopeStart)) := by
  unfold scanNested
  simp only [EStateM.run_bind, modify_run, machine_run, attempt_run]
  cases (scan (w.enter mode scopeStart).machine).run (w.enter mode scopeStart) <;> rfl

/-- a body is an inner list between the marks -/
theorem macroBody_run (scan : ScannerOn Watched) (nameStart : Nat) (w : Watch) :
    (macroBody scan nameStart w.machine).run w =
      resumed (fun w' => (w'.leave w.machine.mode w.machine.scopeStart).setMacro false)
        ((scan ((w.setMacro true).enter .macroBody nameStart).machine).run
          ((w.setMacro true).enter .macroBody nameStart)) := by
  have hinner := scanNested_run scan .macroBody nameStart (w.setMacro true)
  unfold macroBody
  simp only [EStateM.run_bind, modify_run, attempt_run]
  rw [show w.machine.setMacro true = (w.setMacro true).machine from rfl, hinner]
  cases (scan ((w.setMacro true).enter .macroBody nameStart).machine).run
    ((w.setMacro true).enter .macroBody nameStart) <;> rfl

theorem behind_resumed (back : Watch → Watch)
    (r : EStateM.Result (Stop LexError) Watch (Exit × Machine)) :
    Watch.behind (resumed back r) = back (.behind r) := by
  cases r <;> rfl

/-- an inner list, scanned from `inner` on; `left` does to the machine what `back` does to the watch -/
theorem inner_tracks (hscan : Follows scan scan') {inner : Watch} {back : Watch → Watch}
    (left : Machine → Machine) (hback : ∀ w', inner.Kept w' → w.Kept (back w'))
    (hleft : ∀ w', (back w').machine = left w'.machine) :
    Tracks Prod.snd w (resumed back ((scan inner.machine).run inner))
      (scan' inner.machine >>= fun r => .ok ((r.2.tokens.reverse, r.1), left r.2)) := by
  have hinner := hscan inner
  generalize (scan inner.machine).run inner = r at hinner ⊢
  generalize scan' inner.machine = s at hinner ⊢
  cases hinner with
  | error hkept => exact .error (hback _ hkept)
  | @ok y w' hmachine hkept =>
    obtain ⟨e, m⟩ := y
    obtain rfl : w'.machine = m := hmachine
    rw [Run.ok_bind, ← hleft]
    exact .ok rfl (hback w' hkept)

theorem scanSection_tracks (hscan : Follows scan scan') (scopeStart : Nat) :
    Tracks Prod.snd w
      ((Stage.scanNested scan .interpolation scopeStart w.machine : Watched _).run w)
      (Stage.scanNested scan' .interpolation scopeStart w.machine) := by
  show Tracks Prod.snd w ((scanNested scan .interpolation scopeStart w.machine).run w)
    (w.machine.scanNested scan' .interpolation scopeStart)
  rw [scanNested_run]
  apply inner_tracks hscan (Machine.resume w.machine.mode w.machine.scopeStart)
  · intro w' hkept
    exact hkept.section_leave
  · intro w'
    rfl

theorem macroBody_tracks (hscan : Follows scan scan') (nameStart : Nat)
    (hinside : w.machine.inMacro = false) :
    Tracks Prod.snd w ((Stage.macroBody scan nameStart w.machine : Watched _).run w)
      (Stage.macroBody scan' nameStart w.machine) := by
  let left (m : Machine) : Machine := (m.resume w.machine.mode w.machine.scopeStart).setMacro false
  show Tracks Prod.snd w ((macroBody scan nameStart w.machine).run w)
    (w.machine.macroBody scan' nameStart)
  have hcall : w.machine.macroBody scan' nameStart
      = scan' ((w.setMacro true).enter .macroBody nameStart).machine >>= fun r =>
        .ok ((r.2.tokens.reverse, r.1), left r.2) := by
    rw [Machine.macroBody, Machine.scanNested, bind_assoc]
    rfl
  rw [macroBody_run, hcall]
  apply inner_tracks hscan left
  · intro w' hkept
    exact hkept.body_leave hinside
  · intro w'
    rfl

/-! ### the parts of the scan -/

theorem eatSection_tracks (hscan : Follows scan scan') (here : Position) (bodyStart : Nat)
    (sections : List (Section Token)) :
    Tracks Prod.snd w ((Machine.eatSection scan here bodyStart sections w.machine).run w)
      (w.machine.eatSection scan' here bodyStart sections) := by
  unfold Machine.eatSection
  apply Tracks.pair (scanSection_tracks hscan here.offset)
  rintro ⟨tokens, e⟩ w' _
  apply Tracks.settle
  intro relative
  exact .pure rfl

theorem templateLoop_tracks (hscan : Follows scan scan') (bodyStart n : Nat)
    (sections : List (Section Token)) :
    Tracks Prod.snd w ((Machine.templateLoop scan start bodyStart n sections w.machine).run w)
      (Machine.templateLoop scan' start bodyStart n sections w.machine) := by
  induction n generalizing sections w with
  | zero => exact .fault _
  | succ n ih =>
    rw [Machine.templateLoop, Machine.templateLoop]
    apply Tracks.pair (perform_tracks (Machine.reading_keeps _ _))
    intro c w' _
    cases c with
    | none => exact .fail _
    | some c =>
      apply Tracks.ite
      · exact .fail _
      apply Tracks.ite
      · exact .pure rfl
      apply Tracks.ite
      · apply Tracks.pair (perform_tracks (Machine.reading_keeps _ _))
        intro _ w' _
        exact ih sections
      apply Tracks.ite
      · apply Tracks.pair (eatSection_tracks hscan _ bodyStart sections)
        intro sections w' _
        exact ih sections
      · exact ih sections

theorem templateLiteral_tracks (hscan : Follows scan scan') :
    Tracks id w ((Machine.templateLiteral scan start w.machine).run w)
      (Machine.templateLiteral scan' start w.machine) := by
  unfold Machine.templateLiteral
  apply Tracks.pair (templateLoop_tracks hscan _ _ [])
  intro sections w' _
  exact perform_tracks (Machine.closeTemplate_keeps _ _ _ _)

theorem macroDirective_tracks (hscan : Follows scan scan') :
    Tracks id w ((Machine.macroDirective scan start w.machine).run w)
      (Machine.macroDirective scan' start w.machine) := by
  unfold Machine.macroDirective
  cases hinside : w.machine.inMacro with
  | true => exact .fail _
  | false =>
    apply Tracks.pair (perform_tracks (Machine.names_keeps _))
    intro names w' hkept
    apply Tracks.pair (macroBody_tracks hscan _ (hkept.inMacro.trans hinside))
    rintro ⟨body, exit⟩ w'' _
    exact perform_tracks (Machine.define_keeps _ _ _ _ _)

theorem dollar_tracks (hscan : Follows scan scan') :
    Tracks id w ((Machine.dollar scan start w.machine).run w)
      (Machine.dollar scan' start w.machine) := by
  unfold Machine.dollar
  apply Tracks.pair (perform_tracks (Machine.reading_keeps _ _))
  intro quote w' _
  apply Tracks.ite
  · exact templateLiteral_tracks hscan
  · apply Tracks.settle
    intro c
    apply Tracks.ite
    · exact perform_tracks (Machine.radixNumber_keeps _ _ _ _)
    · exact .pure rfl

/-- a token, and then the next turn -/
theorem turn_tracks {x : Watched Machine} {s : Run LexError Machine} (h : Tracks id w (x.run w) s)
    (depth : Nat) :
    Tracks Next.machine w ((x >>= fun m => pure (.turn depth m)).run w)
      (s >>= fun m => pure (.turn depth m)) := by
  apply h.machine
  intro w' _
  exact .pure rfl

/-- a marker, and then the end of its line -/
theorem marker_tracks (k : String → Atom) (depth : Nat) :
    Tracks Next.machine w
      ((Stage.perform id (Machine.region start k) w.machine >>= fun m =>
        Stage.perform Next.machine (Machine.endLine depth) m : Watched Next).run w)
      (Stage.perform id (Machine.region start k) w.machine >>= fun m =>
        Stage.perform Next.machine (Machine.endLine depth) m) := by
  apply Tracks.machine (perform_tracks (Machine.region_keeps _ _ _))
  intro w' _
  exact perform_tracks (Machine.endLine_keeps _ _)

theorem directive_tracks (hscan : Follows scan scan') (depth : Nat) :
    Tracks Next.machine w ((Machine.directive scan depth start w.machine).run w)
      (Machine.directive scan' depth start w.machine) := by
  unfold Machine.directive
  apply Tracks.pair (perform_tracks (Machine.reading_keeps _ _))
  intro word w' _
  apply Tracks.ite
  · exact marker_tracks _ depth
  apply Tracks.ite
  · exact marker_tracks _ depth
  apply Tracks.ite
  · exact turn_tracks (macroDirective_tracks hscan) depth
  apply Tracks.ite
  · exact turn_tracks (perform_tracks (Machine.colour_keeps _ _ _)) depth
  · exact .fail _

theorem act_tracks (hscan : Follows scan scan') (depth : Nat) (c : Char) :
    Tracks Next.machine w ((Machine.act scan depth start c w.machine).run w)
      (w.machine.act scan' depth start c) := by
  unfold Machine.act
  apply Tracks.ite
  · exact turn_tracks (perform_tracks (Machine.continuation_keeps _ _)) depth
  apply Tracks.ite
  · apply Tracks.ite
    · exact .fail _
    · exact turn_tracks (perform_tracks (Machine.quotedString_keeps _ _)) depth
  apply Tracks.ite
  · exact turn_tracks (dollar_tracks hscan) depth
  apply Tracks.ite
  · exact directive_tracks hscan depth
  apply Tracks.ite
  · exact perform_tracks (Machine.openBrace_keeps _ _ _)
  apply Tracks.ite
  · exact perform_tracks (Machine.closeBrace_keeps _ _ _)
  apply Tracks.ite
  · exact perform_tracks (Machine.slash_keeps _ _ _)
  · exact turn_tracks (perform_tracks (Machine.lexeme_keeps _ _ _)) depth

/-- a turn writes down what it begins with -/
theorem turn_sees (hscan : Follows scan scan') (depth : Nat) :
    Tracks Next.machine w.see ((Machine.turn scan depth w.machine).run w)
      (w.machine.turn scan' depth) := by
  unfold Machine.turn
  apply Tracks.machine (perform_sees (Machine.eatBlanks_keeps _))
  intro w' _
  apply Tracks.pair (perform_tracks (Machine.reading_keeps _ _))
  intro c w' _
  cases c with
  | none =>
    apply Tracks.ite
    · exact .fail _
    · exact .pure rfl
  | some c =>
    apply Tracks.ite
    · apply Tracks.ite
      · exact .pure rfl
      · exact turn_tracks (perform_tracks (Machine.pushBreak_keeps _ _)) depth
    · exact act_tracks hscan depth c

/-- a list writes down what it begins with, if it has a turn -/
theorem scanBody_sees {n : Nat}
    (h : ∀ depth w, Tracks Prod.snd w ((Machine.scanBody n depth w.machine : Watched _).run w)
      (Machine.scanBody n depth w.machine)) (depth : Nat) (w : Watch) :
    Tracks Prod.snd w.see ((Machine.scanBody (n + 1) depth w.machine : Watched _).run w)
      (Machine.scanBody (n + 1) depth w.machine) := by
  rw [Machine.scanBody, Machine.scanBody]
  apply Tracks.bind (turn_sees (h 0) depth)
  intro next w' _ hm
  cases next with
  | turn depth m =>
    obtain rfl : w'.machine = m := hm
    exact h depth w'
  | exit e m => exact .pure hm

/-- the watched scan of a list is the scan of the machine -/
theorem scanBody_tracks (n depth : Nat) (w : Watch) :
    Tracks Prod.snd w ((Machine.scanBody n depth w.machine : Watched _).run w)
      (Machine.scanBody n depth w.machine) := by
  induction n generalizing depth w with
  | zero => exact .fault _
  | succ n ih => exact (scanBody_sees ih depth w).after (.see w)

theorem toEnd_sees (hsize : w.machine.reader.length ≤ countLimit) :
    Tracks id w.see ((Machine.toEnd w.machine : Watched _).run w) w.machine.toEnd := by
  unfold Machine.toEnd
  rw [if_neg (Nat.not_lt_of_le hsize), if_neg (Nat.not_lt_of_le hsize)]
  apply Tracks.pair (scanBody_sees (scanBody_tracks _) 0 w)
  intro e w'  _
  exact .pure rfl

theorem toEnd_tracks (w : Watch) :
    Tracks id w ((Machine.toEnd w.machine : Watched _).run w) w.machine.toEnd := by
  by_cases hsize : countLimit < w.machine.reader.length
  · unfold Machine.toEnd
    rw [if_pos hsize, if_pos hsize]
    exact .fail _
  · exact (toEnd_sees (Nat.le_of_not_lt hsize)).after (.see w)

/-- the watched scan of a source comes to what its scan comes to -/
theorem scan_tracks {source : String} {mode : Mode}
    (h : Tracks id w₀ ((Machine.toEnd (.start source.toList mode) : Watched _).run
      (.start source.toList mode)) (Machine.run source mode)) :
    ∃ w, w₀.Kept w ∧
      Watched.scan source mode = match ScriptLexer.scan source mode with
        | .ok ts => .ok ts w
        | .error e => .error (.error e) w := by
  have hagrees := Machine.run_agrees source mode
  unfold Watched.scan ScriptLexer.scan
  rw [EStateM.run_bind]
  generalize (Machine.toEnd (.start source.toList mode) : Watched _).run
    (.start source.toList mode) = r at h ⊢
  cases hs : scanSource source mode with
  | error e =>
    simp only [hs] at hagrees
    rw [hagrees] at h
    cases h with
    | error hkept => exact ⟨_, hkept, rfl⟩
  | ok s =>
    simp only [hs] at hagrees
    obtain ⟨m, hrun, htokens, _⟩ := hagrees
    rw [hrun] at h
    cases h with
    | @ok _ w hmachine hkept =>
      refine ⟨w, hkept, ?_⟩
      obtain rfl : w.machine = m := hmachine
      show EStateM.Result.ok w.machine.tokens.reverse w = .ok s.tokens w
      rw [htokens, List.reverse_reverse]

end Watched

end ScriptLexer

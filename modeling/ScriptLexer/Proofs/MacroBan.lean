import ScriptLexer.Proofs.Contexts
import ScriptLexer.Proofs.Machine.Watch

/-!
# Macro definitions do not nest

No macro definition stands in the body of another one, however many sections lie between, and none
stands anywhere in a source that is read as a body.  The ban is as narrow as that: the mark that it
hangs on is set while a body is being scanned and at no other time, and a macro definition that is
refused lies in a body that is still open.

* `Reads.macroFree`      a run inside of a macro body makes no macro definition;
* `Raised.open_body`     where a macro definition is refused, a body is among the scopes around;
* `macroDirective_kept`  a definition of a macro leaves the mark as it was, also when it fails, and its
                         body is seen with the mark (`mem_log_macroDirective`);
* `scan_macros`          all of this for a source and a mode.
-/

namespace ScriptLexer

/-! ## the tree -/

/-- inside of a macro body a run makes no macro definition, at any depth -/
theorem Reads.macroFree {j k : Job} {x y : List Char} (h : Reads j x y k) :
    j.scope.inMacro = true → j.MacroFree → k.MacroFree := by
  induction h with
  | done => exact fun _ hj => hj
  | blank _ _ ih => exact ih
  | atom _ _ ih =>
    intro hinside hj
    apply ih hinside
    apply Job.All.push hj
    · intro m hm
      cases hm
    · intro l hl
      cases hl
  | @template scope st body x y d t j hfront hbody hfinish _ ihbody ih =>
    intro hinside hj
    have hsections := ihbody hinside (Job.all_beginTemplate _ _ _)
    apply ih hinside
    apply Job.All.push hj
    · intro m hm
      cases hm
    · -- the sections of the draft are those of the token
      intro l hl
      rw [Kind.inner, Draft.finish_sections hfinish, List.map_reverse] at hl
      exact hsections l (List.mem_reverse.mp hl)
  | macroDef hfront _ _ _ _ _ =>
    intro hinside
    exact (front_ne_macroDef hinside hfront).elim
  | text _ _ ih => exact ih
  | @braces scope start d st inner x y j hinner hexit _ ihinner ih =>
    intro hinside hj
    have htokens := ihinner hinside (Job.all_begin _ _ _)
    apply ih hinside
    apply Job.All.addBraces hj
    exact macroFree_reverse.mpr (htokens _ List.mem_cons_self)

/-- the body of a macro definition has no macro definitions in it -/
theorem Arises.body_macroFree {source : List Char} {t : Token} (h : Arises source t)
    {m : MacroDef Token} (hm : t.kind = .macroDef m) : MacroFree m.body := by
  cases h with
  | atom _ _ => cases hm
  | template _ _ _ => cases hm
  | @macroDef scope depth behind pre body rest header st e hsource hfront hbody hexit =>
    cases hm
    have hfree := hbody.macroFree rfl (Job.all_begin _ _ _)
    exact macroFree_reverse.mpr (hfree _ List.mem_cons_self)

/-- no macro definition is found in a source that is read as a macro body -/
theorem macroFree_of_body {source : String} {ts : List Token}
    (h : scan source .macroBody = .ok ts) : MacroFree ts := by
  obtain ⟨_, x, y, st, e, _, hreads, _, rfl⟩ := scan_reads h
  have hfree := hreads.macroFree rfl (Job.all_begin _ _ _)
  exact macroFree_reverse.mpr (hfree _ List.mem_cons_self)

/-! ## refused macro definitions -/

/-- a macro definition is refused only while a macro body is open -/
theorem Raised.open_body {source : String} {mode : Mode} {scopes : List Scope} {e : LexError}
    (h : Raised source mode scopes e) (hcause : e.cause = .nestedMacro) :
    ∃ s ∈ scopes, s.isBody = true := by
  obtain ⟨x, y, k, inner, _, hk, hfails, hscopes, hentered, _⟩ := h.entered
  obtain ⟨hinside, _, _⟩ := hfails.nestedMacro hk hcause
  rw [hscopes]
  rcases hentered.bodies with ⟨_, hlast⟩ | ⟨n, hbodies, _⟩
  · -- no body was opened, so the source itself is read as one
    rw [hinside] at hlast
    exact ⟨_, List.mem_cons_self, hlast.symm⟩
  · have hmem : Scope.bodyAt n ∈ inner :=
      List.mem_of_mem_filter (hbodies ▸ List.mem_singleton_self _)
    exact ⟨_, List.mem_cons_of_mem _ hmem, rfl⟩

/-! ## the mark -/

theorem macroDirective_kept (n : Nat) (start : Position) (w : Watch) :
    w.Kept (.behind
      ((Machine.macroDirective (Machine.scanBody n 0) start w.machine : Watched _).run w)) := by
  have hscan : Watched.Follows (Machine.scanBody n 0) (Machine.scanBody n 0) :=
    Watched.scanBody_tracks n 0
  exact (Watched.macroDirective_tracks hscan).kept

/-- behind a macro definition that is not refused its body was seen, with the mark -/
theorem mem_log_macroDirective (n : Nat) (start : Position) {w : Watch} {names : Machine.Names}
    {m : Machine} (hinside : w.machine.inMacro = false) (hnames : w.machine.names = .ok (names, m)) :
    (.macroBody :: w.active, (m.setMacro true).enter .macroBody names.start.offset)
      ∈ Watched.log (Machine.macroDirective (Machine.scanBody n 0) start w.machine) w := by
  let w₁ := w.see.goTo m
  let inner := (w₁.setMacro true).enter .macroBody names.start.offset
  let body : Watched ((List Token × Exit) × Machine) :=
    Stage.macroBody (Machine.scanBody n 0) names.start.offset m
  let rest (r : (List Token × Exit) × Machine) : Watched Machine :=
    Stage.perform id (Machine.define start names r.1.1 r.1.2) r.2
  have hbody : inner.seen <:+ body.log w₁ := by
    show inner.seen <:+
      (Watch.behind ((Watched.macroBody (Machine.scanBody n 0) _ w₁.machine).run w₁)).seen
    rw [Watched.macroBody_run, Watched.behind_resumed]
    exact (Watched.scanBody_tracks n 0 inner).kept.grows
  have hrest : ∀ r w', w'.seen <:+ (rest r).log w' := by
    intro r w'
    exact (List.suffix_cons _ _).trans (Watched.log_perform _ _ _ w')
  have hnamed : (Stage.perform Prod.snd Machine.names w.machine : Watched _).run w
      = .ok (names, m) w₁ := Watched.perform_of_ok hnames w
  have hrun : Watched.log (Machine.macroDirective (Machine.scanBody n 0) start w.machine) w
      = (body >>= rest).log w₁ := by
    unfold Machine.macroDirective Watched.log
    rw [hinside, if_neg Bool.false_ne_true, EStateM.run_bind, hnamed]
  rw [hrun]
  exact (hbody.trans (Watched.log_bind w₁ hrest)).subset List.mem_cons_self

/-- `w` is the watch behind the scan of the source, which gives what the scan gives.  All machines that
were seen, and the last one, are marked as the lists that are being scanned there require it -/
structure Watches (source : String) (mode : Mode) (w : Watch) : Prop where
  result : Watched.scan source mode = match scan source mode with
    | .ok ts => .ok ts w
    | .error e => .error (.error e) w
  seen : ∀ s ∈ w.seen, Marked mode s.1 s.2
  last : Marked mode [] w.machine
  /-- a source that is not too large was seen from its first character on -/
  begun : byteLength source.toList ≤ countLimit → ([], Machine.start source.toList mode) ∈ w.seen

theorem Watch.Kept.watches {source : String} {mode : Mode} {w : Watch}
    (h : (Watch.start source.toList mode).Kept w)
    (hresult : Watched.scan source mode = match scan source mode with
      | .ok ts => .ok ts w
      | .error e => .error (.error e) w)
    (hbegun : byteLength source.toList ≤ countLimit →
      (Watch.start source.toList mode).see.seen <:+ w.seen) : Watches source mode w := by
  have hfits := Watch.fits_start source.toList mode
  obtain ⟨hfirst, hactive⟩ := Prod.mk.inj (Prod.mk.inj h.place).2
  have hseen : w.Sound := by
    apply h.sound hfits
    intro s hs
    cases hs
  have hlast : w.Fits := hfits.of_place h.place
  rw [Watch.Sound, hfirst] at hseen
  rw [Watch.Fits, hfirst, hactive] at hlast
  exact ⟨hresult, hseen, hlast, fun hsize => (hbegun hsize).subset List.mem_cons_self⟩

theorem exists_watches (source : String) (mode : Mode) : ∃ w, Watches source mode w := by
  let w₀ := Watch.start source.toList mode
  by_cases hsize : byteLength source.toList ≤ countLimit
  · obtain ⟨w, hkept, hresult⟩ := Watched.scan_tracks (Watched.toEnd_sees (w := w₀) hsize)
    exact ⟨w, ((Watch.Kept.see w₀).trans hkept).watches hresult fun _ => hkept.grows⟩
  · obtain ⟨w, hkept, hresult⟩ := Watched.scan_tracks (Watched.toEnd_tracks w₀)
    exact ⟨w, hkept.watches hresult fun h => absurd h hsize⟩

/-- macro definitions do not nest in the source, and are refused only where they would -/
structure MacrosApart (source : String) (mode : Mode) : Prop where
  /-- no macro definition lies in the body of another one -/
  bodies : ∀ ts, scan source mode = .ok ts →
    ∀ t, Occurs t ts → ∀ m, t.kind = .macroDef m → MacroFree m.body
  /-- none lies in a source that is read as a body -/
  body : mode = .macroBody → ∀ ts, scan source mode = .ok ts → MacroFree ts
  /-- at every moment the mark is set exactly if a body is being scanned -/
  watched : ∃ w, Watches source mode w
  /-- the moments are those in front of every operation and behind it; none of them is lost -/
  operation : ∀ (α : Type) (out : α → Machine) (f : Machine → Run LexError α) (w : Watch),
    (w.active, w.machine) :: w.seen <:+ Watched.log (Stage.perform out f w.machine) w ∧
      ∀ x, f w.machine = .ok x → (w.active, out x) ∈ Watched.log (Stage.perform out f w.machine) w
  /-- so is the beginning of every list, -/
  list : ∀ n depth w,
    (w.active, w.machine) :: w.seen <:+ Watched.log (Machine.scanBody (n + 1) depth w.machine) w
  /-- and that of a body, which is seen with the mark -/
  entered : ∀ n start w names m, w.machine.inMacro = false → w.machine.names = .ok (names, m) →
    ∃ s ∈ Watched.log (Machine.macroDirective (Machine.scanBody n 0) start w.machine) w,
      s.1 = .macroBody :: w.active ∧ s.2.inMacro = true ∧ s.2.scopeStart = names.start.offset ∧
        s.2.reader = m.reader
  /-- a macro definition leaves the mark as it found it, whether it succeeds or fails -/
  directive : ∀ n start w, (Watch.behind ((Machine.macroDirective (Machine.scanBody n 0) start
    w.machine : Watched _).run w)).machine.inMacro = w.machine.inMacro
  /-- one that is refused lies in a body that is still open -/
  refused : ∀ e, scan source mode = .error e → e.cause = .nestedMacro →
    (∃ scopes, Raised source mode scopes e) ∧
      ∀ scopes, Raised source mode scopes e → ∃ s ∈ scopes, s.isBody = true

/-- Macro definitions never nest, at any depth and through any number of sections; and those that do
not lie inside of one another do not get in each other's way. -/
theorem scan_macros (source : String) (mode : Mode) : MacrosApart source mode := by
  constructor
  case bodies =>
    intro ts h t ht m hm
    exact (scan_arises h ht).body_macroFree hm
  case body =>
    rintro rfl ts h
    exact macroFree_of_body h
  case watched => exact exists_watches source mode
  case operation =>
    intro α out f w
    refine ⟨Watched.log_perform out f w.machine w, ?_⟩
    intro x hx
    rw [Watched.log, Watched.perform_of_ok hx]
    exact List.mem_cons_self
  case list =>
    intro n depth w
    exact (Watched.scanBody_sees (Watched.scanBody_tracks n) depth w).kept.grows
  case entered =>
    intro n start w names m hinside hnames
    exact ⟨_, mem_log_macroDirective n start hinside hnames, rfl, rfl, rfl, rfl⟩
  case directive =>
    intro n start w
    exact (macroDirective_kept n start w).inMacro
  case refused =>
    intro e h hcause
    have hsize := size_of_nestedMacro h hcause
    refine ⟨(scan_raised hsize).mp h, ?_⟩
    intro scopes hraised
    exact hraised.open_body hcause

/-- definitions one after another, in one section and in two -/
example :
    (scan "#macro A 1\n$\"\x7b#macro B 2\n#macro C 3\n\x7d\x7b#macro D 4\n\x7d\"\n#macro E 5").isOk
      = true := by decide +kernel

/-- a section in a body is seen with the mark, and the error in it leaves none behind -/
example :
    (Watch.behind (Watched.scan "#macro A $\"\x7b#macro B" .plain)).machine.inMacro = false ∧
      ∃ s ∈ (Watch.behind (Watched.scan "#macro A $\"\x7b#macro B" .plain)).seen,
        s.1 = [.interpolation, .macroBody] ∧ s.2.inMacro = true := by decide +kernel

end ScriptLexer

import ScriptLexer.Proofs.Machine.Checks

/-!
# What a computation comes to

A computation that may stop early is put together from smaller ones, and so is what is known of its
result.

* `Run.Lands late r Q`   the computation `r` gives what `Q` says, or stops early; only if `late` may it
                         run out of turns;
* `Run.Timely r`         a step that never runs out of turns, such as each of the checks;
* `Run.Steps`            one step of a loop: the loop ends, or goes on from another state;
* `Run.Agree`            two computations that are the same and come to what `Q` says.

`bind`, `pass` and `ite` follow the computation: a step whose result matters, one that only has to be
timely, and a choice.
-/

namespace ScriptLexer

variable {ε ε' α β γ σ : Type}

namespace Run

/-! ## results -/

/-- the computation has turns enough -/
def Timely (r : Run ε α) : Prop := r ≠ fault .turns

/-- what the computation gives is as `Q` says, and it has turns enough, unless `late` -/
def Lands (late : Prop) (r : Run ε α) (Q : α → Prop) : Prop :=
  match r with
  | .ok x => Q x
  | .error stop => stop = .fault .turns → late

theorem Timely.lands {late : Prop} {r : Run ε α} (h : r.Timely) : Lands late r fun _ => True := by
  cases r with
  | error stop =>
    intro hstop
    subst hstop
    exact (h rfl).elim
  | ok x => trivial

namespace Lands

variable {late : Prop} {r s : Run ε α} {P Q : α → Prop} {R : β → Prop}

theorem ok {x : α} (h : Q x) : Lands late (.ok x : Run ε α) Q := h

theorem fail (e : ε) : Lands late (Run.fail e : Run ε α) Q := by
  intro h
  cases h

theorem fault {f : Fault} (h : f = .turns → late) : Lands late (Run.fault f : Run ε α) Q := by
  intro hf
  cases hf
  exact h rfl

theorem imp (h : Lands late r P) (hPQ : ∀ x, P x → Q x) : Lands late r Q := by
  cases r with
  | error stop => exact h
  | ok x => exact hPQ x h

/-- what is given after all -/
theorem of_ok {x : α} (h : Lands late r Q) (hr : r = .ok x) : Q x := by
  subst hr
  exact h

/-- together with where it came from -/
theorem with_eq (h : Lands late r Q) : Lands late r fun x => r = .ok x ∧ Q x := by
  cases r with
  | error stop => exact h
  | ok x => exact ⟨rfl, h⟩

theorem timely (h : Lands False r Q) : r.Timely := by
  intro hr
  subst hr
  exact h rfl

/-- one step after another -/
theorem bind {k : α → Run ε β} (hr : Lands late r P) (hk : ∀ x, P x → Lands late (k x) R) :
    Lands late (r >>= k) R := by
  cases r with
  | error stop => exact hr
  | ok x => exact hk x hr

/-- a step that gives no machine -/
theorem pass {k : α → Run ε β} (hr : r.Timely) (hk : ∀ x, Lands late (k x) R) :
    Lands late (r >>= k) R := .bind hr.lands fun x _ => hk x

theorem ite {p : Prop} [Decidable p] (hr : Lands late r Q) (hs : Lands late s Q) :
    Lands late (if p then r else s) Q := by
  split
  · exact hr
  · exact hs

/-- one of two steps that give no machine -/
theorem either {p : Prop} [Decidable p] {k : α → Run ε β} (hr : r.Timely) (hs : s.Timely)
    (hk : ∀ x, Lands late (k x) R) : Lands late (if p then r >>= k else s >>= k) R :=
  .ite (.pass hr hk) (.pass hs hk)

end Lands

/-! ## steps that give no machine -/

theorem timely_ok (x : α) : Timely (.ok x : Run ε α) := by
  intro h
  cases h

theorem Timely.bind {r : Run ε α} {k : α → Run ε β} (hr : r.Timely) (hk : ∀ x, (k x).Timely) :
    (r >>= k).Timely := Lands.timely (Lands.bind hr.lands fun x _ => (hk x).lands)

theorem timely_fault {f : Fault} (h : f ≠ .turns) : (fault f : Run ε α).Timely := by
  intro hf
  cases hf
  exact h rfl

theorem slice_timely (text : List Char) (start stop : Nat) :
    (slice text start stop : Run ε (List Char)).Timely := by
  unfold slice
  split
  · exact timely_ok _
  · exact timely_fault (by decide)

/-- the end of a text -/
theorem slice_end_lands {late : Prop} (text : List Char) (start : Nat) :
    Lands late (slice text start (byteLength text) : Run ε (List Char)) fun t =>
      ∃ u, text = u ++ t ∧ byteLength u = start := by
  unfold slice
  split
  · rename_i t ht
    exact slice?_end_iff.mp ht
  · exact .fault (by intro h; cases h)

theorem count_timely (n : Nat) : (count n : Run ε Nat).Timely := by
  unfold count
  split
  · exact timely_ok _
  · exact timely_fault (by decide)

theorem increment_timely (n : Nat) : (increment n : Run ε Nat).Timely := count_timely _

theorem subtract_timely (n k : Nat) : (subtract n k : Run ε Nat).Timely := by
  unfold subtract
  split
  · exact timely_ok _
  · exact timely_fault (by decide)

theorem relativeTo_timely (s : Span) (base : Nat) : (relativeTo s base : Run ε Span).Timely := by
  unfold relativeTo
  split
  · exact timely_ok _
  · exact timely_fault (by decide)

theorem replaceBackward_timely (text : List Char) (spans : List Span) :
    (replaceBackward text spans : Run ε (List Char)).Timely := by
  unfold replaceBackward
  split
  · exact timely_ok _
  · exact timely_fault (by decide)

theorem token_timely (k : Kind) (start stop : Position) : (token k start stop : Run ε Token).Timely := by
  unfold token
  split
  · exact timely_ok _
  · exact timely_fault (by decide)

theorem withError_timely {r : Run ε α} (h : r.Timely) (g : ε → ε') : (r.withError g).Timely := by
  match r, h with
  | .ok x, _ => exact timely_ok x
  | .error (.error e), _ =>
    intro he
    cases he
  | .error (.fault f), h =>
    exact timely_fault fun hf => h (by rw [hf]; rfl)

/-! ## loops -/

/-- what a step of a loop comes to: an end, as `Q` says, or another state, as `on` says.  It is the same
for each `i`, such as the number of turns that are left behind the step: there the step is `f i`, and the
loop goes on as `loop i` -/
inductive Steps {ι : Type} (late : Prop) (loop : ι → σ → Run ε β) (f : ι → Run ε β) (on : σ → Prop)
    (Q : β → Prop) : Prop where
  | ends (r : Run ε β) (hr : Lands late r Q) (h : ∀ i, f i = r)
  | goes (s : σ) (hs : on s) (h : ∀ i, f i = loop i s)

namespace Steps

variable {ι κ : Type} {late : Prop} {loop : ι → σ → Run ε β} {f g : ι → Run ε β} {on on' : σ → Prop}
  {Q Q' : β → Prop} {r : Run ε α} {P : α → Prop}

theorem done {r : Run ε β} (hr : Lands late r Q) : Steps late loop (fun _ => r) on Q :=
  .ends r hr fun _ => rfl

theorem next {s : σ} (hs : on s) : Steps late loop (fun i => loop i s) on Q := .goes s hs fun _ => rfl

/-- behind a step that is the same everywhere -/
theorem each {k : ι → α → Run ε β} {r' : ι → Run ε α} (hr : Lands late r P) (heq : ∀ i, r' i = r)
    (hk : ∀ x, P x → Steps late loop (fun i => k i x) on Q) :
    Steps late loop (fun i => r' i >>= k i) on Q := by
  simp only [heq]
  cases r with
  | error stop => exact .ends (.error stop) hr fun _ => rfl
  | ok x => exact hk x hr

theorem bind {k : ι → α → Run ε β} (hr : Lands late r P)
    (hk : ∀ x, P x → Steps late loop (fun i => k i x) on Q) :
    Steps late loop (fun i => r >>= k i) on Q := each hr (fun _ => rfl) hk

theorem pass {k : ι → α → Run ε β} (hr : r.Timely)
    (hk : ∀ x, Steps late loop (fun i => k i x) on Q) : Steps late loop (fun i => r >>= k i) on Q :=
  bind hr.lands fun x _ => hk x

theorem ite {p : Prop} [Decidable p] (hf : Steps late loop f on Q) (hg : Steps late loop g on Q) :
    Steps late loop (fun i => if p then f i else g i) on Q := by
  split
  · exact hf
  · exact hg

/-- only some of the loops -/
theorem comp (h : Steps late loop f on Q) (j : κ → ι) :
    Steps late (fun i => loop (j i)) (fun i => f (j i)) on Q := by
  cases h with
  | ends r hr h => exact .ends r hr fun i => h (j i)
  | goes s hs h => exact .goes s hs fun i => h (j i)

end Steps

/-! ## two computations -/

/-- the two computations are the same, and come to what `Q` says -/
structure Agree (late : Prop) (r r' : Run ε α) (Q : α → Prop) : Prop where
  eq : r = r'
  lands : Lands late r Q

namespace Agree

variable {late : Prop} {r r' s s' : Run ε α} {P Q : α → Prop} {R : β → Prop}

theorem same (h : Lands late r Q) : Agree late r r Q := ⟨rfl, h⟩

theorem bind {k k' : α → Run ε β} (h : Agree late r r' P)
    (hk : ∀ x, P x → Agree late (k x) (k' x) R) : Agree late (r >>= k) (r' >>= k') R := by
  obtain ⟨rfl, hr⟩ := h
  cases r with
  | error stop => exact .same hr
  | ok x => exact hk x hr

/-- behind a step that is the same in both -/
theorem next {k k' : α → Run ε β} (hr : Lands late r P) (hk : ∀ x, P x → Agree late (k x) (k' x) R) :
    Agree late (r >>= k) (r >>= k') R := bind (.same hr) hk

theorem pass {k k' : α → Run ε β} (hr : r.Timely) (hk : ∀ x, Agree late (k x) (k' x) R) :
    Agree late (r >>= k) (r >>= k') R := next hr.lands fun x _ => hk x

theorem ite {p : Prop} [Decidable p] (hr : Agree late r r' Q) (hs : Agree late s s' Q) :
    Agree late (if p then r else s) (if p then r' else s') Q := by
  split
  · exact hr
  · exact hs

end Agree

end Run

end ScriptLexer

import ScriptLexer.Proofs.Trails

/-!
# Ways to a lexeme

A way into a job (`Enters`) was made for errors, but it says of every place of a source how the scan
comes there.

* `Enters.relocate`    in front of an opener the way does not depend on what stands behind the opener;
* `Outcome`            what a job gives that has been read to its end, `Outcome.Holds t` if the token
                       `t` occurs in it;
* `Enters.run_ok`      a job that is read to its end has read every job on the way to its end, and holds
                       what those hold.

* `Enters.occurs`      and what is read where a way leads is a token of the source.

So what is put in behind an opener changes nothing in front of it, and whatever token is read there then, it
is a token of the whole.
-/

namespace ScriptLexer

open Position (after)

/-! ## in front of another text -/

theorem not_lineEnd_of_opener {c : Char} (hc : c ∈ openers) (y : List Char) : ¬LineEnd (c :: y) := by
  intro h
  obtain rfl := lineEnd_cons.mp h
  exact absurd hc (by decide)

theorem Reads.in_front_of {j k : Job} {x y y' : List Char} (h : Reads j x y k) (hy : k.MayEnd y y')
    (hline : ¬LineEnd y) : Reads j x y' k := by
  have hadv := h.advanced
  cases j with
  | tokens scope st =>
    cases k with
    | template scope' start d => exact hadv.elim
    | tokens scope' st' =>
      obtain rfl := hadv.1
      exact h.relocate (Scope.eases_refl _) hy fun _ h => (hline h).elim
  | template scope start d =>
    cases k with
    | tokens scope' st => exact hadv.elim
    | template scope' start' d' =>
      obtain rfl := hadv.1
      exact h.relocate (fun h => h) hy fun _ h => (hline h).elim

theorem Opens.mayEnd {j k : Job} {w y : List Char} {s : List Scope} (h : Opens j w y s k)
    (y' : List Char) : j.MayEnd (w ++ y) (w ++ y') ∧ ¬LineEnd (w ++ y) := by
  cases h with
  | template _ =>
    exact ⟨.inr ⟨'$', _, _, by decide, rfl, rfl⟩, not_lineEnd_of_opener (by decide) _⟩
  | @body scope st header y hfront =>
    obtain ⟨tail, htail⟩ : ∃ tail, header.lead = '#' :: tail := by
      have hspells := front_spells scope st.depth st.behind st.position
        (header.lead ++ header.names ++ y)
      rw [hfront] at hspells
      obtain ⟨⟨blanks, hlead, _⟩, _⟩ := hspells
      exact ⟨_, hlead⟩
    rw [htail]
    exact ⟨.inr ⟨'#', _, _, by decide, rfl, rfl⟩, not_lineEnd_of_opener (by decide) _⟩
  | braces => exact ⟨rfl, fun h => absurd (lineEnd_cons.mp h) (by decide)⟩

theorem Opens.in_front_of {j k : Job} {w z y y' : List Char} {s : List Scope}
    (h : Opens j w (z ++ y) s k) (hy : Follows y y') : Opens j w (z ++ y') s k := by
  cases h with
  | template _ => exact .template (front_templateOpening _ _ _ _ _)
  | @body scope st header _ hfront =>
    have hlead : header.lead ++ header.names ≠ [] := by simp [(front_header hfront).names_ne_nil]
    exact .body (front_relocate (Scope.eases_refl scope) hlead hfront rfl hy False.elim)
  | braces => exact .braces

/-- a way to an opener is the same whatever stands behind the opener -/
theorem Enters.relocate {j k : Job} {x z : List Char} {outer : List Scope} {c : Char}
    (h : Enters j x (c :: z) outer k) (hc : c ∈ openers) (z' : List Char) :
    Enters j x (c :: z') outer k := by
  generalize hy : c :: z = y at h
  induction h with
  | @here j k x y hreads =>
    subst hy
    refine .here (hreads.in_front_of ?_ (not_lineEnd_of_opener hc z))
    cases k with
    | tokens scope st => exact .inr ⟨c, z, z', hc, rfl, rfl⟩
    | template scope start d => rfl
  | @into j k i l x w v y s outer hreads hopens _ ih =>
    subst hy
    obtain ⟨hend, hline⟩ := hopens.mayEnd (v ++ c :: z')
    have hfollows : Follows (c :: z) (c :: z') := .inr ⟨c, z, z', hc, rfl, rfl⟩
    exact .into (hreads.in_front_of hend hline) (hopens.in_front_of hfollows) (ih rfl)

/-! ## what a job holds at its end -/

/-- what a job gives that has been read to its end: a list of tokens or a template -/
abbrev Outcome := Scan ⊕ TemplateScan

/-- the token lists that were made -/
def Outcome.lists : Outcome → List (List Token)
  | .inl s => [s.tokens]
  | .inr t => t.template.sections.map Section.tokens

/-- the token occurs in one of the lists that were made -/
def Outcome.Holds (t : Token) (r : Outcome) : Prop := ∃ l ∈ r.lists, Occurs t l

/-- the token occurs in one of the lists that the job has made so far -/
def Job.Holds (t : Token) (j : Job) : Prop := ∃ l ∈ j.lists, Occurs t l

theorem Job.Holds.grows {t : Token} {j k : Job} (h : j.Holds t) (hgrows : j.Grows k) :
    k.Holds t := by
  obtain ⟨l, hl, ht⟩ := h
  obtain ⟨l', hl', hsuffix⟩ := hgrows l hl
  exact ⟨l', hl', ht.mono fun u hu => hsuffix.subset hu⟩

theorem Job.Holds.run {t : Token} {j : Job} {cs : List Char} {r : Outcome} (h : j.Holds t)
    (hr : j.run cs = .ok r) : Outcome.Holds t r := by
  cases j with
  | tokens scope st =>
    obtain ⟨s, rfl, hs⟩ := Job.exists_of_run_tokens hr
    obtain ⟨x, y, st', e, -, hreads, -, rfl⟩ := scanTokens_reads hs
    obtain ⟨l, hl, ht⟩ := h.grows hreads.grows
    obtain rfl : l = st'.tokens := List.mem_singleton.mp hl
    exact ⟨_, List.mem_cons_self, occurs_reverse.mpr ht⟩
  | template scope start d =>
    obtain ⟨s, rfl, hs⟩ := Job.exists_of_run_template hr
    obtain ⟨x, y, d', -, hreads, hfinish⟩ := scanTemplate_reads hs
    obtain ⟨l, hl, ht⟩ := h.grows hreads.grows
    refine ⟨l, ?_, ht⟩
    rw [Outcome.lists, Draft.finish_sections hfinish, List.map_reverse]
    exact List.mem_reverse.mpr hl

theorem Job.holds_push {t : Token} {k : Kind} {l : List Token} (hl : l ∈ k.inner) (ht : Occurs t l)
    (scope : Scope) (st : State) (text : List Char) :
    (Job.tokens scope (st.push k text)).Holds t :=
  ⟨_, List.mem_cons_self, .inside List.mem_cons_self hl ht⟩

theorem Opens.run_ok {j k : Job} {w y : List Char} {s : List Scope} {r : Outcome}
    (h : Opens j w y s k) (hr : j.run (w ++ y) = .ok r) :
    ∃ r', k.run y = .ok r' ∧ ∀ t, Outcome.Holds t r' → Outcome.Holds t r := by
  cases hk : k.run y with
  | error e =>
    have herrs : j.run (w ++ y) = .error e := h.errs hk
    rw [hr] at herrs
    cases herrs
  | ok r' =>
    refine ⟨r', rfl, fun t ⟨l, hl, ht⟩ => ?_⟩
    cases h with
    | @template scope st y hfront =>
      obtain ⟨found, rfl, hfound⟩ := Job.exists_of_run_template hk
      have hholds : (Job.tokens scope (st.addTemplate found)).Holds t :=
        Job.holds_push hl ht scope st _
      exact hholds.run
        ((congrArg (Except.map Sum.inl) (scanTokens_template hfront hfound)).symm.trans hr)
    | @body scope st header y hfront =>
      obtain ⟨found, rfl, hfound⟩ := Job.exists_of_run_tokens hk
      have hholds : (Job.tokens scope
          (st.addMacro header (y.take found.count) found.tokens)).Holds t :=
        Job.holds_push hl ht scope st _
      exact hholds.run
        ((congrArg (Except.map Sum.inl) (scanTokens_macroDef hfront hfound)).symm.trans hr)
    | @braces scope start d y =>
      obtain ⟨found, rfl, hfound⟩ := Job.exists_of_run_tokens hk
      obtain rfl : l = found.tokens := List.mem_singleton.mp hl
      have hholds : (Job.template scope start
          (d.addBraces start (y.take found.count) found.tokens)).Holds t :=
        ⟨found.tokens, List.mem_cons_self, ht⟩
      exact hholds.run
        ((congrArg (Except.map Sum.inr) (scanTemplate_brace hfound)).symm.trans hr)

/-- a job that is read to its end has read every job on the way, and holds what that holds -/
theorem Enters.run_ok {j k : Job} {x y : List Char} {outer : List Scope} {r : Outcome}
    (h : Enters j x y outer k) (hr : j.run (x ++ y) = .ok r) :
    ∃ r', k.run y = .ok r' ∧ ∀ t, Outcome.Holds t r' → Outcome.Holds t r := by
  induction h generalizing r with
  | here hreads => exact ⟨r, hreads.run_eq.symm.trans hr, fun _ => id⟩
  | @into j k i l x w z y s outer hreads hopens _ ih =>
    rw [List.append_assoc, List.append_assoc] at hr
    obtain ⟨r', hr', hholds⟩ := hopens.run_ok (hreads.run_eq.symm.trans hr)
    obtain ⟨r'', hr'', hholds'⟩ := ih hr'
    exact ⟨r'', hr'', fun t ht => hholds t (hholds' t ht)⟩

/-- where a way leads in a source that can be scanned the next decision is not to fail, and if it is an
atom, the token of that is a token of the source -/
theorem Enters.occurs {source : String} {mode : Mode} {ts : List Token} {x y : List Char}
    {outer : List Scope} {scope : Scope} {st : State}
    (h : Enters (.begin (.initial mode) .start) x y outer (.tokens scope st))
    (hsource : source.toList = x ++ y) (hscan : scan source mode = .ok ts) :
    match front scope st.depth st.behind st.position y with
    | .fail _ => False
    | .atom a text _ => Occurs ⟨.atom a, st.position, stopOf (.atom a) st.position text⟩ ts
    | _ => True := by
  obtain ⟨s, hs, rfl⟩ := (scan_ok_iff (scan_reads hscan).1).mp hscan
  have hrun : (Job.begin (.initial mode) .start).run (x ++ y) = .ok (.inl s) := by
    rw [← hsource]
    exact Job.run_tokens_ok.mpr hs
  obtain ⟨r, hr, hholds⟩ := h.run_ok hrun
  obtain ⟨s', rfl, hs'⟩ := Job.exists_of_run_tokens hr
  split
  · rename_i e hfront
    rw [scanTokens_fail hfront] at hs'
    cases hs'
  · rename_i a text rest hfront
    rw [scanTokens_atom hfront] at hs'
    have hpushed : (Job.tokens scope (st.push (.atom a) text)).Holds
        ⟨.atom a, st.position, stopOf (.atom a) st.position text⟩ :=
      ⟨_, List.mem_cons_self, .here List.mem_cons_self⟩
    obtain ⟨l, hl, hocc⟩ := hholds _ (hpushed.run (Job.run_tokens_ok.mpr hs'))
    obtain rfl : l = s.tokens := List.mem_singleton.mp hl
    exact hocc
  · trivial

end ScriptLexer

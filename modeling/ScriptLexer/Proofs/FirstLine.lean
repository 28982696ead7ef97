import ScriptLexer.Proofs.Payloads
import ScriptLexer.Proofs.Separators

/-!
# The first line of a source

A macro body is read as a plain source is, up to the first line break that is a token or that a
token in front of it reached to: `scan_firstLine`.  The line breaks in raw strings, in block
comments and in sections lie inside of a token and end no body.

A macro definition would be refused in a body, at any depth, so the source must hold none.

* `MacroFree`         no macro definition stands anywhere in the tree;
* `Reads.inside`      a run that makes no macro definition is possible inside of a macro body;
* `Reads.firstLine`   a run in a plain scope, cut at the end of the first line, is one in a body.
-/

namespace ScriptLexer

/-! ## without macro definitions -/

/-- no token is a macro definition, at any depth -/
def MacroFree (ts : List Token) : Prop := ∀ t, Occurs t ts → ∀ m, t.kind ≠ .macroDef m

theorem MacroFree.mono {a b : List Token} (h : MacroFree b) (hab : ∀ u ∈ a, u ∈ b) : MacroFree a :=
  fun t ht => h t (ht.mono hab)

theorem macroFree_reverse {ts : List Token} : MacroFree ts.reverse ↔ MacroFree ts :=
  forall_congr' fun _ => imp_congr_left occurs_reverse

/-- a scope of the same mode that is a macro body or lies in one -/
def Scope.inside (s : Scope) : Scope := { s with inMacro := true }

namespace Job

/-- no macro definition stands in a list of the job -/
def MacroFree (j : Job) : Prop := ∀ l ∈ j.lists, ScriptLexer.MacroFree l

theorem MacroFree.of_grows {j j' : Job} (h : j'.MacroFree) (hj : j.Grows j') : j.MacroFree := by
  intro l hl
  obtain ⟨l', hl', hsuffix⟩ := hj l hl
  exact (h l' hl').mono fun _ hu => hsuffix.mem hu

/-- the same job in a macro body -/
def inside : Job → Job
  | .tokens s st => .tokens s.inside st
  | .template s start d => .template s.inside start d

end Job

theorem front_inside {s : Scope} {depth : Nat} {behind : Behind} {start : Position}
    {cs r : List Char} {f : Front} (hfront : front s depth behind start cs = f)
    (hrest : f.rest? = some r) (hsimple : f.Simple) :
    front s.inside depth behind start cs = f := by
  subst hfront
  obtain ⟨c, cs, rfl⟩ := exists_cons_of_rest? hrest
  refine front_inScope hrest (fun _ => Iff.rfl) (fun _ => id) (fun hbare => ?_) fun _ => .inr hsimple
  exact front_bareSection hrest (Scope.isBareSection_of_mode rfl depth ▸ hbare)

theorem Reads.inside {j j' : Job} {x y : List Char} (h : Reads j x y j') :
    j'.MacroFree → Reads j.inside x y j'.inside := by
  induction h with
  | done => exact fun _ => .done
  | blank hfront _ ih =>
    intro hfree
    exact .blank (front_inside hfront rfl trivial) (ih hfree)
  | atom hfront _ ih =>
    intro hfree
    exact .atom (front_inside hfront rfl trivial) (ih hfree)
  | @template scope st body x y d t j hfront hbody hfinish hnext ihbody ih =>
    intro hfree
    have hlist := hfree.of_grows hnext.grows _ List.mem_cons_self
    refine .template (front_inside hfront rfl trivial) (ihbody fun l hl u hu => ?_) hfinish
      (ih hfree)
    -- the sections of the draft are those of the token
    refine hlist u (.inside List.mem_cons_self ?_ hu)
    rw [Kind.inner, Draft.finish_sections hfinish, List.map_reverse]
    exact List.mem_reverse.mpr hl
  | macroDef _ _ _ hnext _ _ =>
    intro hfree
    have hlist := hfree.of_grows hnext.grows _ List.mem_cons_self
    exact (hlist _ (.here List.mem_cons_self) _ rfl).elim
  | text hpiece _ ih =>
    intro hfree
    exact .text hpiece (ih hfree)
  | @braces scope start d st inner x y j hinner hexit hnext ihinner ih =>
    intro hfree
    have hlists := hfree.of_grows hnext.grows
    refine .braces (ihinner fun l hl => ?_) ?_ (ih hfree)
    · obtain rfl : l = st.tokens := List.mem_singleton.mp hl
      exact macroFree_reverse.mp (hlists _ List.mem_cons_self)
    · exact (front_exit_iff _ _ _ _ _ _).mpr ((front_exit_iff _ _ _ _ _ _).mp hexit)

/-! ## the end of a line -/

theorem front_ne_macroDef {s : Scope} (hs : s.inMacro = true) {depth : Nat} {behind : Behind}
    {start : Position} {cs rest : List Char} {header : MacroHeader} :
    front s depth behind start cs ≠ .macroDef header rest := by
  intro h
  obtain ⟨cs', _, h⟩ := front_macroDef h
  rw [Lexeme.directive_eq, Lexeme.directiveAfter, if_pos hs] at h
  split at h
  · cases h
  split at h
  · cases h
  split at h
  · cases h
  split at h
  · exact (Lexeme.colour_simple start _ _).ne_macroDef _ _ h
  · cases h

theorem Atom.SpelledBy.lineEnd {a : Atom} {x rest : List Char} (h : a.SpelledBy x rest)
    (ha : a.behind = .lineEnd) : LineEnd rest := by
  cases a with
  | comment style text =>
    cases style with
    | line => exact h.2.2
    | block => cases ha
  | region text => exact h.2
  | endRegion text => exact h.2
  | number n =>
    rw [Atom.behind] at ha
    split at ha <;> cases ha
  | _ => cases ha

/-- the tokens of a list that belong to its first line: those in front of the first line break, and
none behind a token that takes the rest of its line -/
def firstLine : List Token → List Token
  | [] => []
  | t :: ts =>
    if t.kind = .atom .newline then []
    else if t.kind.TakesLine then [t]
    else t :: firstLine ts

theorem firstLine_prefix (ts : List Token) : firstLine ts <+: ts := by
  induction ts with
  | nil => exact List.prefix_rfl
  | cons t ts ih =>
    rw [firstLine]
    split
    · exact List.nil_prefix
    · split
      · exact (List.prefix_cons_inj t).mpr List.nil_prefix
      · exact (List.prefix_cons_inj t).mpr ih

/-! ## plain runs in a body -/

theorem Behind.nothing_ne_lineEnd : Behind.nothing ≠ .lineEnd := nofun

/-- half of the way from a plain scope to a body: what a body forbids is forbidden, but the end of a
line ends nothing -/
def Scope.plainInside : Scope := (Scope.initial .plain).inside

/-- away from a line break a plain decision is that of a body -/
theorem front_plainInside {depth : Nat} {behind : Behind} {start : Position} {c : Char}
    {cs r : List Char} {f : Front}
    (hfront : front .plainInside depth behind start (c :: cs) = f) (hrest : f.rest? = some r)
    (hc : c ≠ '\n') : front (.initial .macroBody) depth behind start (c :: cs) = f := by
  subst hfront
  exact front_inScope hrest (fun h => absurd h hc) (fun _ h => absurd h (by decide))
    (fun h => absurd h (by simp [Scope.isBareSection, Scope.initial])) fun _ => .inl rfl

/-- in a plain scope the token of a line break is the line break -/
theorem front_plainInside_newline {depth : Nat} {behind : Behind} {start : Position} {c : Char}
    {cs text rest : List Char} {a : Atom}
    (h : front .plainInside depth behind start (c :: cs) = .atom a text rest) (hc : c ≠ '\n') :
    a ≠ .newline := by
  rintro rfl
  have htakes := front_takes .plainInside depth behind start (c :: cs)
  have hspells := front_spells .plainInside depth behind start (c :: cs)
  rw [h] at htakes hspells
  rcases hspells with rfl | rfl
  · exact hc (List.cons.inj htakes.1).1.symm
  · -- a backslash stands in a body only
    obtain rfl : '\\' = c := (List.cons.inj htakes.1).1
    cases h

/-- if a run makes the tokens `all` out of the tokens `old`, then `cut` is what it has made at the end
of the first line; all of them with the last token first -/
def CutAtLine (old all cut : List Token) : Prop :=
  ∃ new, all.reverse = old.reverse ++ new ∧ cut.reverse = old.reverse ++ firstLine new

section
variable {t : Token} {old all cut : List Token}

theorem cutAtLine_refl (old : List Token) : CutAtLine old old old :=
  ⟨[], by simp, by simp [firstLine]⟩

theorem cutAtLine_newline (h : t :: old <:+ all) (ht : t.kind = .atom .newline) :
    CutAtLine old all old := by
  obtain ⟨more, rfl⟩ := h
  exact ⟨t :: more.reverse, by simp, by simp [firstLine, ht]⟩

theorem cutAtLine_lineEnd (h : t :: old <:+ all) (ht : t.kind ≠ .atom .newline)
    (hline : t.kind.TakesLine) : CutAtLine old all (t :: old) := by
  obtain ⟨more, rfl⟩ := h
  exact ⟨t :: more.reverse, by simp, by simp [firstLine, ht, hline]⟩

theorem CutAtLine.cons (h : CutAtLine (t :: old) all cut) (ht : t.kind ≠ .atom .newline)
    (hline : ¬t.kind.TakesLine) : CutAtLine old all cut := by
  obtain ⟨new, hall, hcut⟩ := h
  exact ⟨t :: new, by simp [hall], by simp [hcut, firstLine, ht, hline]⟩

end

/-- a plain run, cut at the end of the first line, is a run in a body -/
theorem Reads.firstLine {st st' : State} {x : List Char}
    (h : Reads (.tokens .plainInside st) x [] (.tokens .plainInside st'))
    (hbehind : st.behind ≠ .lineEnd) :
    ∃ u v cut, x = u ++ v ∧ LineEnd v ∧
      Reads (.tokens (.initial .macroBody) st) u v (.tokens (.initial .macroBody) cut) ∧
      CutAtLine st.tokens st'.tokens cut.tokens := by
  induction h using Reads.toEnd with
  | done => exact ⟨[], [], _, rfl, lineEnd_nil, .done, cutAtLine_refl _⟩
  | @blank st c x hfront hnext ih =>
    have hc : c ≠ '\n' := by
      rintro rfl
      have hnewline : atNewline .plainInside st.behind x = .blank '\n' x := hfront
      rw [atNewline, if_neg (by decide), if_neg hbehind] at hnewline
      cases hnewline
    obtain ⟨u, v, cut, rfl, hv, hreads, hcut⟩ := ih Behind.nothing_ne_lineEnd
    exact ⟨c :: u, v, cut, rfl, hv, .blank (front_plainInside hfront rfl hc) hreads, hcut⟩
  | @atom st a text x hfront hnext ih =>
    have hsuffix := hnext.tokens_suffix
    have htakes := front_takes .plainInside st.depth st.behind st.position (text ++ x)
    rw [hfront] at htakes
    obtain ⟨c, text, rfl⟩ := List.exists_cons_of_ne_nil htakes.2
    by_cases hc : c = '\n'
    · -- the line ends here
      subst hc
      have hnewline : atNewline .plainInside st.behind (text ++ x) = .atom a ('\n' :: text) x :=
        hfront
      rw [atNewline, if_neg (by decide), if_neg hbehind] at hnewline
      obtain ⟨rfl, _⟩ := Front.atom.inj hnewline
      exact ⟨[], _, st, rfl, lineEnd_cons.mpr rfl, .done, cutAtLine_newline hsuffix rfl⟩
    have hbody := front_plainInside hfront rfl hc
    have ha : Kind.atom a ≠ .atom .newline := fun h =>
      front_plainInside_newline hfront hc (Kind.atom.inj h)
    by_cases hline : (Kind.atom a).TakesLine
    · -- the line ends behind the token
      have hspells := front_spells .plainInside st.depth st.behind st.position (c :: text ++ x)
      rw [hfront] at hspells
      have hreads : Reads (.tokens (.initial .macroBody) st) (c :: text ++ []) x
          (.tokens (.initial .macroBody) (st.push (.atom a) (c :: text))) := .atom hbody .done
      rw [List.append_nil] at hreads
      exact ⟨c :: text, x, _, rfl, hspells.lineEnd ((Kind.takesLine_iff _).mp hline), hreads,
        cutAtLine_lineEnd hsuffix ha hline⟩
    · obtain ⟨u, v, cut, rfl, hv, hreads, hcut⟩ :=
        ih fun h => hline ((Kind.takesLine_iff _).mpr h)
      exact ⟨c :: text ++ u, v, cut, (List.append_assoc ..).symm, hv, .atom hbody hreads,
        hcut.cons ha hline⟩
  | @template st body x d t hbody hfinish hnext ih =>
    obtain ⟨u, v, cut, rfl, hv, hreads, hcut⟩ := ih Behind.nothing_ne_lineEnd
    have hbody' : Reads (.beginTemplate (.initial .macroBody) st.position) body ('"' :: (u ++ v))
        (.template (.initial .macroBody) st.position d) :=
      hbody.relocate (fun _ => rfl) rfl (by intro h; cases h)
    exact ⟨_, v, cut, (List.append_assoc ..).symm, hv,
      .template (front_templateOpening _ _ _ _ _) hbody' hfinish hreads,
      hcut.cons (by intro h; cases h) id⟩
  | macroDef hfront _ _ _ _ => exact (front_ne_macroDef rfl hfront).elim

/-! ## whole sources -/

/-- in the mode of a macro body a source without macro definitions gives the first line of its
tokens -/
theorem scan_firstLine {source : String} {ts : List Token} (h : scan source = .ok ts)
    (hfree : MacroFree ts) :
    scan source .macroBody = .ok (firstLine ts) ∧ firstLine ts <+: ts := by
  refine ⟨?_, firstLine_prefix ts⟩
  obtain ⟨hsize, _⟩ := scan_reads h
  obtain ⟨st, hreads, rfl⟩ := scan_plain_reads h
  have hinside := hreads.inside fun l hl => by
    obtain rfl : l = st.tokens := List.mem_singleton.mp hl
    exact macroFree_reverse.mp hfree
  obtain ⟨u, v, cut, hsource, hv, hbody, new, hall, hcut⟩ :=
    Reads.firstLine hinside Behind.nothing_ne_lineEnd
  obtain ⟨e, hexit⟩ := (body_exit_iff 0 cut.depth cut.behind cut.position v).mpr hv
  have hscan : scanTokens (.initial .macroBody) (.start .start) (u ++ v) = .ok (cut.finish e) :=
    hbody.scanTokens_ok hexit
  rw [scan_eq hsize, hsource, hscan, hall]
  exact congrArg Except.ok hcut

/-- three line breaks inside of tokens, and the end of the first line at a comment -/
theorem scan_firstLine_comment :
    ∃ ts t us, scan "@'\n' /*\n*/ $\"\x7b\n\x7d\" // a\nb" = .ok (ts ++ t :: us) ∧
      MacroFree (ts ++ t :: us) ∧ t.kind = .atom (.comment .line " a") ∧ us.length = 1 ∧
      scan "@'\n' /*\n*/ $\"\x7b\n\x7d\" // a\nb" .macroBody
        = .ok (firstLine (ts ++ t :: us)) ∧
      firstLine (ts ++ t :: us) = ts ++ [t] := by
  refine ⟨[⟨.atom (.string "\n"), ⟨0, 0, 0⟩, ⟨4, 1, 3⟩⟩,
      ⟨.atom (.comment .block "\n"), ⟨5, 1, 3⟩, ⟨10, 2, 8⟩⟩,
      ⟨.template ⟨"\x7b\n\x7d", "0", [⟨⟨13, 16⟩, ⟨0, 3⟩,
        [⟨.atom .newline, ⟨14, 2, 8⟩, ⟨15, 2, 8⟩⟩]⟩]⟩, ⟨11, 2, 8⟩, ⟨17, 3, 15⟩⟩],
    ⟨.atom (.comment .line " a"), ⟨18, 3, 15⟩, ⟨22, 3, 15⟩⟩,
    [⟨.atom (.identifier "b"), ⟨23, 4, 23⟩, ⟨24, 4, 23⟩⟩], ?h, ?hfree, rfl, rfl,
    (scan_firstLine ?h ?hfree).1, by decide⟩
  case h => decide +kernel
  case hfree =>
    intro t ht
    simp [occurs_cons, Kind.inner, not_occurs_nil] at ht
    rcases ht with rfl | rfl | rfl | rfl | rfl | rfl <;>
    · intro m hm
      cases hm

end ScriptLexer

import ScriptLexer.Proofs.Interpolation
import ScriptLexer.Proofs.Sections

/-!
# Sections end at the matching brace

A section of a template ends at the brace that matches the one in front of it, and a double quote may
stand in it only where a brace is open.  `Matched` says so of the tokens of a section; what counts
there is the tokens `{` and `}`, and they are the tokens with the texts `{` and `}`, so that a brace in
a string, a comment, a template or a macro body does not count, nor do `begin` and `end`.

A scan counts the open braces as it goes.  `State.Matches` says that this count is that of the tokens
and never was below zero; `State.Matches.push` keeps it over one token, `Job.matches_invariant` over a
step of a run.

`scan_matched` says that the sections of a scan are so, and the tokens of a scan that begins in a
section.
-/

namespace ScriptLexer

open Position (after)

/-! ## counts of braces -/

/-- the braces, as they are written with a symbol -/
def braces : List (Dual × Char) := [(.openBrace, '{'), (.closeBrace, '}')]

/-- how many of the tokens are the symbol of `d` -/
def symbolCount (d : Dual) (ts : List Token) : Nat :=
  ts.countP fun t => t.kind = .atom (.dual d .symbol)

/-- in the tokens every brace has its match, and strings between double quotes stand inside of
braces -/
structure Matched (source : List Char) (ts : List Token) : Prop where
  /-- no brace is closed that was not opened -/
  nested : ∀ u, u <+: ts → symbolCount .closeBrace u ≤ symbolCount .openBrace u
  /-- all of them are closed at the end -/
  settled : symbolCount .closeBrace ts = symbolCount .openBrace ts
  /-- strings between double quotes stand inside of braces -/
  quoted : ∀ u t v, ts = u ++ t :: v → t.IsQuoted source →
    symbolCount .closeBrace u < symbolCount .openBrace u
  /-- a brace counts if it is all of a token, and so not inside of another one -/
  counted : ∀ t ∈ ts, ∀ d c, (d, c) ∈ braces →
    (t.kind = .atom (.dual d .symbol) ↔ t.text? source = some [c])

theorem Kind.braceNet_eq (k : Kind) :
    k.braceNet = (if k = .atom (.dual .openBrace .symbol) then 1 else 0)
      - (if k = .atom (.dual .closeBrace .symbol) then 1 else 0) := by
  unfold Kind.braceNet
  split
  · rfl
  · rfl
  · rename_i hopen hclose
    rw [if_neg hopen, if_neg hclose]
    rfl

theorem braceNet_eq (ts : List Token) :
    braceNet ts = symbolCount .openBrace ts - symbolCount .closeBrace ts := by
  induction ts with
  | nil => rfl
  | cons t ts ih =>
    have hcons : braceNet (t :: ts) = t.kind.braceNet + braceNet ts := by simp [braceNet]
    rw [hcons, ih, Kind.braceNet_eq]
    simp only [symbolCount, List.countP_cons, decide_eq_true_eq]
    push_cast
    omega

/-! ## the text of a brace -/

theorem front_openBrace (scope : Scope) (depth : Nat) (behind : Behind) (p : Position)
    (cs : List Char) :
    front scope depth behind p ('{' :: cs) = .atom (.dual .openBrace .symbol) ['{'] cs := rfl

theorem front_closeBrace (scope : Scope) (depth : Nat) (behind : Behind) (p : Position)
    (cs : List Char) :
    front scope depth behind p ('}' :: cs) = if scope.isBareSection depth then .exit .brace
      else .atom (.dual .closeBrace .symbol) ['}'] cs := by
  by_cases h : scope.isBareSection depth = true
  · rw [if_pos h]
    exact (front_exit_iff _ _ _ _ _ _).mpr ⟨rfl, h⟩
  · rw [if_neg h, front]
    simp only [h, and_false, if_false, Char.reduceEq, Bool.false_eq_true]
    rfl

/-- an atom with the text of a brace is that brace -/
theorem front_brace {scope : Scope} {depth : Nat} {behind : Behind} {p : Position} {a : Atom}
    {rest : List Char} {d : Dual} {c : Char} (hbrace : (d, c) ∈ braces)
    (h : front scope depth behind p (c :: rest) = .atom a [c] rest) : a = .dual d .symbol := by
  simp only [braces, List.mem_cons, List.not_mem_nil, or_false, Prod.mk.injEq] at hbrace
  rcases hbrace with ⟨rfl, rfl⟩ | ⟨rfl, rfl⟩
  · rw [front_openBrace] at h
    exact (Front.atom.inj h).1.symm
  · rw [front_closeBrace] at h
    split at h
    · cases h
    · exact (Front.atom.inj h).1.symm

theorem symbolTable_braces :
    ∀ e ∈ symbolTable, ∀ b ∈ braces, e.2 = Atom.dual b.1 .symbol → e.1 = [b.2] := by decide

theorem Arises.brace_iff {source : List Char} {t : Token} (h : Arises source t) {d : Dual}
    {c : Char} (hbrace : (d, c) ∈ braces) :
    t.kind = .atom (.dual d .symbol) ↔ t.text? source = some [c] := by
  have hne : c ≠ '$' ∧ c ≠ '#' := by
    have hall : ∀ b ∈ braces, b.2 ≠ '$' ∧ b.2 ≠ '#' := by decide
    exact hall _ hbrace
  cases h with
  | @atom scope depth behind pre text rest a hsource hfront =>
    have htext : (⟨.atom a, after pre, stopOf (.atom a) (after pre) text⟩ : Token).text? source
        = some text := by
      rw [hsource]
      exact Located.text?_append rfl rfl rest
    rw [htext]
    constructor
    · rintro ⟨⟩
      have hspells := front_spells scope depth behind (after pre) (text ++ rest)
      rw [hfront] at hspells
      exact congrArg some (symbolTable_braces _ hspells _ hbrace rfl)
    · intro hc
      obtain rfl : text = [c] := Option.some.inj hc
      rw [front_brace hbrace hfront]
  | @template scope pre body rest d' t hsource _ _ =>
    refine ⟨fun hk => (by cases hk), fun hc => ?_⟩
    rw [hsource, Located.text?_append rfl rfl rest] at hc
    exact absurd (List.cons.inj (Option.some.inj hc)).1.symm hne.1
  | @macroDef scope depth behind pre body rest header st e hsource hfront _ _ =>
    refine ⟨fun hk => (by cases hk), fun hc => ?_⟩
    have hspells := front_spells scope depth behind (after pre)
      (header.lead ++ header.names ++ (body ++ rest))
    rw [hfront] at hspells
    obtain ⟨blanks, hlead, _⟩ := hspells.lead
    rw [hsource, Located.text?_append rfl rfl rest, hlead] at hc
    exact absurd (List.cons.inj (Option.some.inj hc)).1.symm hne.2

/-! ## one token -/

/-- the braces of the tokens so far match, but for those that the state says are open -/
structure State.Matches (source : List Char) (st : State) : Prop where
  counts : st.Counts
  nested : ∀ u, u <+: st.tokens.reverse → 0 ≤ braceNet u
  quoted : ∀ u t v, st.tokens.reverse = u ++ t :: v → t.IsQuoted source → 0 < braceNet u

theorem State.matches_start (source : List Char) (p : Position) : (State.start p).Matches source where
  counts := rfl
  nested u hu := by
    rw [List.prefix_nil.mp hu]
    exact Int.le_refl 0
  quoted u t v h := by
    have hlength := congrArg List.length h
    simp [State.start] at hlength

/-- a token keeps the match if it neither closes a brace nor stands between double quotes while no
brace is open -/
theorem State.Matches.push {source : List Char} {st : State} {k : Kind} {text : List Char}
    (h : st.Matches source) (hclose : k = .atom (.dual .closeBrace .symbol) → st.depth ≠ 0)
    (hquoted : Located.IsQuoted source ⟨k, st.position, stopOf k st.position text⟩ → st.depth ≠ 0) :
    (st.push k text).Matches source := by
  have hold : (st.depth : ℤ) = braceNet st.tokens.reverse := h.counts
  have htokens : (st.push k text).tokens.reverse
      = st.tokens.reverse ++ [⟨k, st.position, stopOf k st.position text⟩] := by
    simp [State.push]
  have hnonneg : 0 ≤ (st.depth : ℤ) + k.braceNet := by
    unfold Kind.braceNet
    split
    · omega
    · have := hclose rfl
      omega
    · omega
  have hcounts := h.counts.push_of_nonneg hnonneg text
  have hnew : ((st.push k text).depth : ℤ) = braceNet (st.push k text).tokens.reverse := hcounts
  refine ⟨hcounts, fun u hu => ?_, fun u t v hsplit ht => ?_⟩
  · rw [htokens, List.prefix_concat_iff] at hu
    rcases hu with rfl | hu
    · rw [← htokens, ← hnew]
      exact Int.natCast_nonneg _
    · exact h.nested u hu
  · rw [htokens] at hsplit
    rcases List.eq_nil_or_concat v with rfl | ⟨v, z, rfl⟩
    · -- the string is the new token
      obtain ⟨rfl, hlast⟩ := List.append_inj' hsplit rfl
      obtain rfl := (List.cons.inj hlast).1
      have := hquoted ht
      omega
    · rw [List.concat_eq_append, ← List.cons_append, ← List.append_assoc] at hsplit
      exact h.quoted u t v (List.append_inj' hsplit rfl).1 ht

theorem State.Matches.push_of_ne {source : List Char} {st : State} {k : Kind}
    (h : st.Matches source) (hk : ∀ a, k ≠ .atom a) (text : List Char) :
    (st.push k text).Matches source := by
  refine h.push (fun hclose => absurd hclose (hk _)) ?_
  rintro ⟨⟨_, hstring⟩, _⟩
  exact absurd hstring (hk _)

/-- outside of all braces a section goes on with neither a closing brace nor a double quote -/
theorem front_bareAtom {scope : Scope} {behind : Behind} {p : Position} {a : Atom}
    {text rest : List Char} (hmode : scope.mode = .interpolation)
    (h : front scope 0 behind p (text ++ rest) = .atom a text rest) :
    a ≠ .dual .closeBrace .symbol ∧ ∀ x, text ≠ '"' :: x := by
  have hbare : scope.isBareSection 0 = true := by simp [Scope.isBareSection, hmode]
  have htakes := front_takes scope 0 behind p (text ++ rest)
  have hspells := front_spells scope 0 behind p (text ++ rest)
  rw [h] at htakes hspells
  obtain ⟨c, cs, rfl⟩ := List.exists_cons_of_ne_nil htakes.2
  obtain ⟨hquote, hbrace⟩ := front_bareSection (congrArg Front.rest? h) hbare
  constructor
  · rintro rfl
    have htext := symbolTable_braces _ hspells (.closeBrace, '}') (by decide) rfl
    exact hbrace (List.cons.inj htext).1
  · intro x hx
    exact hquote (List.cons.inj hx).1

/-! ## runs -/

/-- the tokens of the job match so far, if it reads a section -/
def Job.Matches (source : List Char) : Job → Prop
  | .tokens scope st => scope.mode = .interpolation → st.Matches source
  | .template _ _ _ => True

theorem Job.matches_invariant (source : List Char) :
    Job.Invariant source (Job.Matches source) where
  begin _ p _ := State.matches_start source p
  beginTemplate _ _ := trivial
  blank _ hj hmode := ⟨(hj hmode).counts, (hj hmode).nested, (hj hmode).quoted⟩
  atom := by
    intro scope st pre text rest a hsource hpos hfront hj hmode
    refine (hj hmode).push ?_ ?_
    · rintro ⟨⟩ hdepth
      rw [hdepth] at hfront
      exact (front_bareAtom hmode hfront).1 rfl
    · rintro ⟨_, x, hx⟩ hdepth
      rw [hdepth] at hfront
      rw [hsource, Located.text?_append hpos (by rw [← hpos])] at hx
      exact (front_bareAtom hmode hfront).2 x (Option.some.inj hx)
  template _ _ _ _ _ hj hmode := (hj hmode).push_of_ne (by intro a h; cases h) _
  macroDef _ _ _ _ _ _ hj hmode := (hj hmode).push_of_ne (by intro a h; cases h) _
  text _ _ := trivial
  braces _ _ _ := trivial

theorem depth_of_exit {scope : Scope} {depth : Nat} {behind : Behind} {p : Position}
    {cs : List Char} {e : Exit} (hmode : scope.mode = .interpolation)
    (h : front scope depth behind p cs = .exit e) : depth = 0 := by
  have hends := (front_exit_iff _ _ _ _ _ _).mp h
  cases e with
  | endOfInput => exact absurd hmode hends.2
  | newline => exact absurd (hmode.symm.trans hends.2) (by decide)
  | brace => simpa [Scope.isBareSection, hmode] using hends.2

theorem Reads.matched {scope : Scope} {p : Position} {st : State} {pre x y source : List Char}
    {e : Exit} (h : Reads (.begin scope p) x y (.tokens scope st))
    (hexit : front scope st.depth st.behind st.position y = .exit e)
    (hmode : scope.mode = .interpolation) (hsource : source = pre ++ x ++ y) (hp : p = after pre)
    (harises : ∀ t ∈ st.tokens.reverse, Arises source t) : Matched source st.tokens.reverse := by
  have hmatches : st.Matches source :=
    h.keeps (Job.matches_invariant source) pre hsource hp (fun _ => State.matches_start source p) hmode
  have hcounts : (st.depth : ℤ) = braceNet st.tokens.reverse := hmatches.counts
  rw [depth_of_exit hmode hexit] at hcounts
  refine ⟨fun u hu => ?_, ?_, fun u t v hsplit ht => ?_, fun t ht d c => (harises t ht).brace_iff⟩
  · have hnested := hmatches.nested u hu
    rw [braceNet_eq] at hnested
    omega
  · rw [braceNet_eq] at hcounts
    omega
  · have hquoted := hmatches.quoted u t v hsplit ht
    rw [braceNet_eq] at hquoted
    omega

/-! ## the sections of a tree -/

/-- Sections end at the matching brace: so does every section of a template that occurs in the tree
of a scan, and so does a scan that begins in a section. -/
theorem scan_matched {source : String} {mode : Mode} {ts : List Token}
    (h : scan source mode = .ok ts) :
    (∀ t p s, Occurs t ts → t.kind = .template p → s ∈ p.sections →
      Matched source.toList s.tokens) ∧
    (mode = .interpolation → Matched source.toList ts) := by
  constructor
  · intro t p s ht hk hs
    obtain ⟨scope, pre, inner, rest, st, hsource, _, htokens, hreads, hexit⟩ :=
      (scan_arises h ht).section hk hs
    have hinner : s.tokens ∈ t.kind.inner := by
      rw [hk]
      exact List.mem_map_of_mem hs
    rw [htokens] at hinner ⊢
    exact hreads.matched hexit rfl (by simp [hsource]) rfl
      fun u hu => scan_arises h (ht.trans hinner (.here hu))
  · rintro rfl
    obtain ⟨_, x, y, st, e, hsource, hreads, hexit, rfl⟩ := scan_reads h
    have hwhole : source.toList = [] ++ x ++ y := hsource
    have hp : Position.start = after [] := rfl
    exact hreads.matched hexit rfl hwhole hp fun u hu => scan_arises h (.here hu)

/-- a section with a brace as a word, which has no match, and one inside of a string; and a scan that
begins in a section, with a brace inside of a comment -/
theorem scan_matched_words :
    ∃ ts s us, scan "$\"\x7bbegin\x7b\"\x7d\"\x7d\x7d\"" = .ok ts ∧
      (∃ t p, Occurs t ts ∧ t.kind = .template p ∧ s ∈ p.sections) ∧ s.tokens.length = 4 ∧
      Matched "$\"\x7bbegin\x7b\"\x7d\"\x7d\x7d\"".toList s.tokens ∧
      scan "\x7b/*\x7d*/\x7d\x7d\"" .interpolation = .ok us ∧ us.length = 3 ∧
      Matched "\x7b/*\x7d*/\x7d\x7d\"".toList us := by
  have hmem : ∀ s : Section Token, s ∈ [s] := fun s => List.mem_cons_self
  refine ⟨[⟨.template ⟨"\x7bbegin\x7b\"\x7d\"\x7d\x7d", "0", [_]⟩, ⟨0, 0, 0⟩, ⟨15, 0, 0⟩⟩],
    ⟨⟨2, 14⟩, ⟨0, 12⟩,
      [⟨.atom (.dual .openBrace .word), ⟨3, 0, 0⟩, ⟨8, 0, 0⟩⟩,
        ⟨.atom (.dual .openBrace .symbol), ⟨8, 0, 0⟩, ⟨9, 0, 0⟩⟩,
        ⟨.atom (.string "\x7d"), ⟨9, 0, 0⟩, ⟨12, 0, 0⟩⟩,
        ⟨.atom (.dual .closeBrace .symbol), ⟨12, 0, 0⟩, ⟨13, 0, 0⟩⟩]⟩,
    [⟨.atom (.dual .openBrace .symbol), ⟨0, 0, 0⟩, ⟨1, 0, 0⟩⟩,
      ⟨.atom (.comment .block "\x7d"), ⟨1, 0, 0⟩, ⟨6, 0, 0⟩⟩,
      ⟨.atom (.dual .closeBrace .symbol), ⟨6, 0, 0⟩, ⟨7, 0, 0⟩⟩],
    ?h, ⟨_, _, .here List.mem_cons_self, rfl, hmem _⟩, rfl,
    (scan_matched ?h).1 _ _ _ (.here List.mem_cons_self) rfl (hmem _), ?hsection, rfl,
    (scan_matched ?hsection).2 rfl⟩
  case h => decide +kernel
  case hsection => decide +kernel

end ScriptLexer

import ScriptLexer.Proofs.Forest
import ScriptLexer.Proofs.Run

/-!
# Where the tokens of a tree come from

Whatever holds of every token of a tree holds because of the step that made the token.  `Arises`
keeps that step: the text in front of the token, the token's own text and the rest of the source,
with the decision or the run that led to it.

`scan_arises` says that every token of a scan's result arises so, at any depth; facts about all
tokens of a tree are then facts about three kinds of steps.  `Reads.grows` says that a run takes
nothing back that it has made.
-/

namespace ScriptLexer

open Position (after)

/-- the token was made by one step of a scan, which had come to the end of `pre` in the source -/
inductive Arises (source : List Char) : Token → Prop where
  | atom {scope : Scope} {depth : Nat} {behind : Behind} {pre text rest : List Char} {a : Atom}
      (hsource : source = pre ++ text ++ rest)
      (hfront : front scope depth behind (after pre) (text ++ rest) = .atom a text rest) :
      Arises source ⟨.atom a, after pre, stopOf (.atom a) (after pre) text⟩
  | template {scope : Scope} {pre body rest : List Char} {d : Draft} {t : TemplateScan}
      (hsource : source = pre ++ (Front.templateOpening ++ body ++ ['"']) ++ rest)
      (hbody : Reads (.beginTemplate scope (after pre)) body ('"' :: rest)
        (.template scope (after pre) d))
      (hfinish : d.finish (after pre) = .ok t) :
      Arises source ⟨.template t.template, after pre,
        stopOf (.template t.template) (after pre) (Front.templateOpening ++ body ++ ['"'])⟩
  | macroDef {scope : Scope} {depth : Nat} {behind : Behind} {pre body rest : List Char}
      {header : MacroHeader} {st : State} {e : Exit}
      (hsource : source = pre ++ (header.lead ++ (header.names ++ body)) ++ rest)
      (hfront : front scope depth behind (after pre)
        (header.lead ++ header.names ++ (body ++ rest)) = .macroDef header (body ++ rest))
      (hbody : Reads (.begin (.bodyAt header.nameStart.offset) header.nameStop) body rest
        (.tokens (.bodyAt header.nameStart.offset) st))
      (hexit : front (.bodyAt header.nameStart.offset) st.depth st.behind st.position rest
        = .exit e) :
      Arises source ⟨.macroDef (header.define body st.tokens.reverse), after pre,
        stopOf (.macroDef (header.define body st.tokens.reverse)) (after pre)
          (header.lead ++ (header.names ++ body))⟩

/-! ## the text of a token -/

theorem offset_stopOf (k : Kind) (p : Position) (text : List Char) :
    (stopOf k p text).offset = p.offset + byteLength text := by
  by_cases h : k = .atom .newline
  · subst h
    rw [stopOf_newline]
    rfl
  · rw [stopOf_of_ne h, Position.offset_advance]

/-- the source falls into the text in front of the token, the text of the token and the rest -/
theorem Arises.exists_text {source : List Char} {t : Token} (h : Arises source t) :
    ∃ pre text rest, source = pre ++ text ++ rest ∧ text ≠ [] ∧ t.start = after pre ∧
      t.stop = stopOf t.kind (after pre) text := by
  cases h with
  | @atom scope depth behind pre text rest a hsource hfront =>
    have htakes := front_takes scope depth behind (after pre) (text ++ rest)
    rw [hfront] at htakes
    exact ⟨pre, text, rest, hsource, htakes.2, rfl, rfl⟩
  | @template scope pre body rest d t hsource _ _ =>
    exact ⟨pre, _, rest, hsource, by simp, rfl, rfl⟩
  | @macroDef scope depth behind pre body rest header st e hsource hfront _ _ =>
    have hne := (front_header hfront).names_ne_nil
    exact ⟨pre, _, rest, hsource, by simp [hne], rfl, rfl⟩

/-- a token that starts and stops around a text has that text -/
theorem Located.text?_append {t : Token} {pre text : List Char} (hstart : t.start = after pre)
    (hstop : t.stop = stopOf t.kind (after pre) text) (rest : List Char) :
    t.text? (pre ++ text ++ rest) = some text := by
  rw [Located.text?, hstop, offset_stopOf, hstart]
  exact slice?_append pre text rest

/-! ## what a job holds -/

namespace Job

/-- the token lists that a job has made so far -/
def lists : Job → List (List Token)
  | .tokens _ st => [st.tokens]
  | .template _ _ d => d.sections.map Section.tokens

/-- the lists of the first job are what lists of the second began with; the last token of a list
stands first in it -/
def Grows (j j' : Job) : Prop := ∀ l ∈ j.lists, ∃ l' ∈ j'.lists, l <:+ l'

theorem grows_refl (j : Job) : j.Grows j := fun l hl => ⟨l, hl, List.suffix_rfl⟩

theorem Grows.trans {i j k : Job} (hij : i.Grows j) (hjk : j.Grows k) : i.Grows k := by
  intro l hl
  obtain ⟨l', hl', hsuffix⟩ := hij l hl
  obtain ⟨l'', hl'', hsuffix'⟩ := hjk l' hl'
  exact ⟨l'', hl'', hsuffix.trans hsuffix'⟩

theorem grows_push (scope : Scope) (st : State) (k : Kind) (text : List Char) :
    (Job.tokens scope st).Grows (.tokens scope (st.push k text)) := by
  intro l hl
  obtain rfl : l = st.tokens := List.mem_singleton.mp hl
  exact ⟨_, List.mem_cons_self, List.suffix_cons _ _⟩

theorem grows_addBraces (scope : Scope) (start : Position) (d : Draft) (inner : List Char)
    (ts : List Token) :
    (Job.template scope start d).Grows (.template scope start (d.addBraces start inner ts)) :=
  fun l hl => ⟨l, List.mem_cons_of_mem _ hl, List.suffix_rfl⟩

/-- what holds of all tokens that a job has made, at any depth -/
def All (P : Token → Prop) (j : Job) : Prop := ∀ l ∈ j.lists, ∀ t, Occurs t l → P t

theorem all_begin (P : Token → Prop) (scope : Scope) (p : Position) : (Job.begin scope p).All P := by
  intro l hl t ht
  obtain rfl : l = [] := List.mem_singleton.mp hl
  exact (not_occurs_nil t ht).elim

theorem all_beginTemplate (P : Token → Prop) (scope : Scope) (start : Position) :
    (Job.beginTemplate scope start).All P := by
  intro l hl
  cases hl

theorem All.push {P : Token → Prop} {scope : Scope} {st : State} {k : Kind} {text : List Char}
    (h : (Job.tokens scope st).All P) (hnew : P ⟨k, st.position, stopOf k st.position text⟩)
    (hinner : ∀ l ∈ k.inner, ∀ t, Occurs t l → P t) :
    (Job.tokens scope (st.push k text)).All P := by
  intro l hl t ht
  obtain rfl : l = _ := List.mem_singleton.mp hl
  rcases occurs_cons.mp ht with rfl | ⟨l, hl, hin⟩ | hin
  · exact hnew
  · exact hinner l hl t hin
  · exact h _ List.mem_cons_self t hin

theorem All.addBraces {P : Token → Prop} {scope : Scope} {start : Position} {d : Draft}
    (h : (Job.template scope start d).All P) (inner : List Char) {ts : List Token}
    (hts : ∀ t, Occurs t ts → P t) :
    (Job.template scope start (d.addBraces start inner ts)).All P := by
  intro l hl t ht
  rcases List.mem_cons.mp hl with rfl | hl
  · exact hts t ht
  · exact h l hl t ht

/-- every token that a job has made, at any depth, arises in the source -/
def AllArise (source : List Char) (j : Job) : Prop :=
  ∀ l ∈ j.lists, ∀ t, Occurs t l → Arises source t

end Job

/-- a run only adds to what the job holds -/
theorem Reads.grows {j j' : Job} {x y : List Char} (h : Reads j x y j') : j.Grows j' := by
  induction h with
  | done => exact Job.grows_refl _
  | blank _ _ ih => exact ih
  | atom _ _ ih => exact (Job.grows_push _ _ _ _).trans ih
  | template _ _ _ _ _ ih => exact (Job.grows_push _ _ _ _).trans ih
  | macroDef _ _ _ _ _ ih => exact (Job.grows_push _ _ _ _).trans ih
  | text _ _ ih => exact ih
  | braces _ _ _ _ ih => exact (Job.grows_addBraces _ _ _ _ _).trans ih

/-- the tokens at the beginning of a run are the first ones at its end -/
theorem Reads.tokens_suffix {scope scope' : Scope} {st st' : State} {x y : List Char}
    (h : Reads (.tokens scope st) x y (.tokens scope' st')) : st.tokens <:+ st'.tokens := by
  obtain ⟨l, hl, hsuffix⟩ := h.grows _ List.mem_cons_self
  obtain rfl : l = st'.tokens := List.mem_singleton.mp hl
  exact hsuffix

theorem Reads.position_eq {j j' : Job} {x y : List Char} (h : Reads j x y j') :
    j'.position = j.position.advance x := by
  have hadv := h.advanced
  cases j with
  | tokens scope st =>
    cases j' with
    | tokens scope' st' => exact hadv.2.2
    | template scope' start d => exact hadv.elim
  | template scope start d =>
    cases j' with
    | tokens scope' st => exact hadv.elim
    | template scope' start' d' => exact hadv.2.2.2.1

theorem Draft.finish_sections {d : Draft} {start : Position} {t : TemplateScan}
    (h : d.finish start = .ok t) : t.template.sections = d.sections.reverse := by
  unfold Draft.finish at h
  simp only at h
  split at h
  · cases h; rfl
  · cases h

theorem Draft.finish_lexeme {d : Draft} {start : Position} {t : TemplateScan}
    (h : d.finish start = .ok t) : t.template.lexeme.toList = t.body := by
  unfold Draft.finish at h
  simp only at h
  split at h
  · cases h
    exact String.toList_ofList
  · cases h

/-- every step makes tokens that arise -/
theorem Job.allArise_invariant (source : List Char) :
    Job.Invariant source (Job.AllArise source) where
  begin := Job.all_begin _
  beginTemplate := Job.all_beginTemplate _
  blank _ hj := hj
  atom hsource hpos hfront hj := by
    refine Job.All.push hj ?_ fun l hl => nomatch hl
    rw [hpos]
    exact .atom hsource hfront
  template hsource hpos hbody hfinish hin hj := by
    refine Job.All.push hj ?_ fun l hl => hin l ?_
    · rw [hpos]
      exact .template hsource hbody hfinish
    · rw [Kind.inner, Draft.finish_sections hfinish, List.map_reverse] at hl
      exact List.mem_reverse.mp hl
  macroDef hsource hpos hfront hbody hexit hin hj := by
    refine Job.All.push hj ?_ fun l hl t ht => ?_
    · rw [hpos]
      exact .macroDef hsource hfront hbody hexit
    · obtain rfl : l = _ := List.mem_singleton.mp hl
      exact hin _ List.mem_cons_self t (occurs_reverse.mp ht)
  text _ hj := hj
  braces inner hin hj :=
    Job.All.addBraces hj inner fun t ht => hin _ List.mem_cons_self t (occurs_reverse.mp ht)

/-- every token of a scan's result, at any depth, arises in the source -/
theorem scan_arises {source : String} {mode : Mode} {ts : List Token}
    (h : scan source mode = .ok ts) {t : Token} (ht : Occurs t ts) :
    Arises source.toList t := by
  obtain ⟨_, x, y, st, e, hxy, hx, _, rfl⟩ := scan_reads h
  have hall := hx.keeps (Job.allArise_invariant _) [] hxy rfl (Job.all_begin _ _ _)
  exact hall _ List.mem_cons_self t (occurs_reverse.mp ht)

end ScriptLexer

import ScriptLexer.Proofs.Failures
import ScriptLexer.Proofs.FirstLine

/-!
# The way to an error

A scan that fails has come to a place where one step fails, and on the way it has entered templates,
sections and macro bodies that it has not left.

* `Opens j w y s k`        at the job `j` the text `w` opens the job `k` inside of it, which leaves
                           the scopes `s` outside: none for a template, that of `j` for a new scope;
* `Enters j x y outer k`   from `j` the text `x` leads into `k`, inside of the scopes `outer`;
* `Job.Fails y e`          the next step of a job, in front of `y`, is to fail with `e`;
* `Raised`                 a source fails with an error inside of the given scopes.

`errs_iff_enters` says that to fail is to come to such a place; `scan_raised` says the same of a
whole source.  What holds of a step inwards (`Opens.scope_or`, `Opens.stands`) holds of the way
(`Enters.scopes`, `Enters.stands`, `Enters.beginsIn`): every scope on it is open where the text read
so far has what opens it, and a template begins where that has its opening (`Job.BeginsIn`).
-/

namespace ScriptLexer

open Position (after)

/-! ## runs, one after the other -/

theorem Reads.trans {i j k : Job} {a b y : List Char} (hij : Reads i a (b ++ y) j) :
    Reads j b y k → Reads i (a ++ b) y k := by
  intro hjk
  generalize hz : b ++ y = z at hij
  induction hij with
  | done => exact hjk
  | @blank scope st c x z j hfront _ ih =>
    subst hz
    rw [← List.append_assoc] at hfront
    exact .blank hfront (ih hjk rfl)
  | @atom scope st a text x z j hfront _ ih =>
    subst hz
    rw [← List.append_assoc x] at hfront
    rw [List.append_assoc text]
    exact .atom hfront (ih hjk rfl)
  | @template scope st body x z d t j hfront hbody hfinish _ _ ih =>
    subst hz
    rw [← List.append_assoc x] at hfront hbody
    rw [List.append_assoc _ x]
    exact .template hfront hbody hfinish (ih hjk rfl)
  | @macroDef scope st st' header body x z e j hfront hbody hexit _ _ ih =>
    subst hz
    rw [← List.append_assoc x] at hfront hbody hexit
    rw [List.append_assoc _ x]
    exact .macroDef hfront hbody hexit (ih hjk rfl)
  | @text scope start d taken x z j hpiece _ ih =>
    subst hz
    rw [← List.append_assoc x] at hpiece
    rw [List.append_assoc taken]
    exact .text hpiece (ih hjk rfl)
  | @braces scope start d st inner x z j hinner hexit _ _ ih =>
    subst hz
    rw [← List.append_assoc x] at hinner hexit
    rw [List.append_assoc _ x]
    exact .braces hinner hexit (ih hjk rfl)

/-! ## the way inwards -/

namespace Job

/-- the scope that a job is read in -/
def scope : Job → Scope
  | .tokens s _ => s
  | .template s _ _ => s

/-- the next step of the job, in front of `y`, is to fail -/
def Fails (y : List Char) (e : LexError) : Job → Prop
  | .tokens scope st => front scope st.depth st.behind st.position y = .fail e
  | .template _ start d =>
    (∃ cause, piece y = .fail cause ∧ e = .report cause d.position start.offset) ∨
    (∃ rest, piece y = .quote rest) ∧ d.finish start = .error e

end Job

theorem Job.Fails.draft {scope : Scope} {start : Position} {d : Draft} {y : List Char} {e : LexError}
    (h : (Job.template scope start d).Fails y e) : d.Failure start y e := by
  rcases h with ⟨cause, hpiece, rfl⟩ | ⟨⟨rest, hpiece⟩, hfinish⟩
  · exact piece_failure hpiece start d
  · have htakes := piece_takes y
    rw [hpiece] at htakes
    obtain rfl : '"' :: rest = y := htakes
    exact Draft.finish_failure hfinish rest

/-- at the first job the text `w` opens the second one, inside of the scopes `s`; `y` is behind it -/
inductive Opens : Job → List Char → List Char → List Scope → Job → Prop where
  | template {scope : Scope} {st : State} {y : List Char}
      (hfront : front scope st.depth st.behind st.position (Front.templateOpening ++ y)
        = .template y) :
      Opens (.tokens scope st) Front.templateOpening y [] (.beginTemplate scope st.position)
  | body {scope : Scope} {st : State} {header : MacroHeader} {y : List Char}
      (hfront : front scope st.depth st.behind st.position (header.lead ++ header.names ++ y)
        = .macroDef header y) :
      Opens (.tokens scope st) (header.lead ++ header.names) y [scope]
        (.begin (.bodyAt header.nameStart.offset) header.nameStop)
  | braces {scope : Scope} {start : Position} {d : Draft} {y : List Char} :
      Opens (.template scope start d) ['{'] y [scope]
        (.begin (scope.sectionAt d.position.offset) (d.position.next '{'))

/-- the text `x` in front of `y` leads from the first job into the second one, inside of the scopes
`outer`, the outermost first -/
inductive Enters : Job → List Char → List Char → List Scope → Job → Prop where
  | here {j k : Job} {x y : List Char} (hreads : Reads j x y k) : Enters j x y [] k
  | into {j k i l : Job} {x w z y : List Char} {s outer : List Scope}
      (hreads : Reads j x (w ++ (z ++ y)) k) (hopens : Opens k w (z ++ y) s i)
      (hinner : Enters i z y outer l) : Enters j (x ++ (w ++ z)) y (s ++ outer) l

/-- a run in front of a way inwards -/
theorem Reads.enters {i j k : Job} {a x y : List Char} {outer : List Scope}
    (hij : Reads i a (x ++ y) j) (hjk : Enters j x y outer k) : Enters i (a ++ x) y outer k := by
  cases hjk with
  | here hreads => exact .here (hij.trans hreads)
  | @into _ k l _ x w z _ s outer hreads hopens hinner =>
    rw [List.append_assoc, List.append_assoc] at hij
    rw [← List.append_assoc a]
    exact .into (hij.trans hreads) hopens hinner

theorem Opens.enters {j k l : Job} {w x y : List Char} {s outer : List Scope}
    (hopens : Opens j w (x ++ y) s k) (hinner : Enters k x y outer l) :
    Enters j (w ++ x) y (s ++ outer) l := Enters.into .done hopens hinner

/-! ## to fail is to come to a failing step -/

/-- the scan of the job and the text fails with the error -/
def Job.Errs (cs : List Char) (e : LexError) (j : Job) : Prop := j.run cs = .error e

theorem Job.errs_tokens {scope : Scope} {st : State} {cs : List Char} {e : LexError} :
    (Job.tokens scope st).Errs cs e ↔ scanTokens scope st cs = .error e := by
  show (scanTokens scope st cs).map Sum.inl = _ ↔ _
  cases scanTokens scope st cs <;> simp [Except.map]

theorem Job.errs_template {scope : Scope} {start : Position} {d : Draft} {cs : List Char}
    {e : LexError} :
    (Job.template scope start d).Errs cs e ↔ scanTemplate scope start d cs = .error e := by
  show (scanTemplate scope start d cs).map Sum.inr = _ ↔ _
  cases scanTemplate scope start d cs <;> simp [Except.map]

/-- what a job fails with, a job around it fails with -/
theorem Opens.errs {j k : Job} {w y : List Char} {s : List Scope} {e : LexError}
    (h : Opens j w y s k) (hk : k.Errs y e) : j.Errs (w ++ y) e := by
  cases h with
  | template hfront =>
    rw [Job.beginTemplate, Job.errs_template] at hk
    rw [Job.errs_tokens, scanTokens_eq, hfront]
    simp only [hk]
  | body hfront =>
    rw [Job.begin, Job.errs_tokens] at hk
    rw [Job.errs_tokens, scanTokens_eq, hfront]
    simp only [hk]
  | braces =>
    rw [Job.begin, Job.errs_tokens] at hk
    rw [Job.errs_template, List.singleton_append, scanTemplate_eq, piece]
    simp only [hk]

theorem Job.Fails.errs {k : Job} {y : List Char} {e : LexError} (h : k.Fails y e) : k.Errs y e := by
  cases k with
  | tokens scope st =>
    have hfront : front scope st.depth st.behind st.position y = .fail e := h
    rw [Job.errs_tokens, scanTokens_eq, hfront]
  | template scope start d =>
    rw [Job.errs_template, scanTemplate_eq]
    rcases h with ⟨cause, hpiece, rfl⟩ | ⟨⟨rest, hpiece⟩, hfinish⟩
    · rw [hpiece]
    · rw [hpiece]
      exact hfinish

/-- what the place at the end of a way fails with, its beginning fails with -/
theorem Enters.errs {j k : Job} {x y : List Char} {outer : List Scope} {e : LexError}
    (h : Enters j x y outer k) (hfails : k.Fails y e) : j.Errs (x ++ y) e := by
  induction h with
  | here hreads => exact hreads.run_eq.trans hfails.errs
  | @into j k i l x w z y s outer hreads hopens _ ih =>
    have hk : k.Errs (w ++ (z ++ y)) e := hopens.errs (ih hfails)
    rw [List.append_assoc, List.append_assoc]
    exact hreads.run_eq.trans hk

/-- the first step of a job to the error that it fails with -/
inductive Job.Toward (cs : List Char) (e : LexError) (j : Job) : Prop where
  | fails (hfails : j.Fails cs e)
  | reads {x y : List Char} {k : Job} (hcs : cs = x ++ y) (hlt : y.length < cs.length)
      (hreads : Reads j x y k) (hk : k.Errs y e)
  | opens {w y : List Char} {s : List Scope} {k : Job} (hcs : cs = w ++ y)
      (hlt : y.length < cs.length) (hopens : Opens j w y s k) (hk : k.Errs y e)

theorem scanTokens_toward {scope : Scope} {st : State} {cs : List Char} {e : LexError}
    (h : scanTokens scope st cs = .error e) : (Job.tokens scope st).Toward cs e := by
  have htakes := front_takes scope st.depth st.behind st.position cs
  rw [scanTokens_eq] at h
  cases hf : front scope st.depth st.behind st.position cs with
  | fail e' =>
    simp only [hf, Except.error.injEq] at h
    subst h
    exact .fails hf
  | exit e' => simp [hf] at h
  | blank c rest =>
    simp only [hf] at h
    rw [hf] at htakes
    have hlt := htakes.blank_lt
    obtain rfl : c :: rest = cs := htakes
    exact .reads (x := [c]) rfl hlt (.blank hf .done) (Job.errs_tokens.mpr h)
  | atom a text rest =>
    simp only [hf] at h
    rw [hf] at htakes
    have hlt := htakes.atom_lt
    obtain ⟨rfl, _⟩ := htakes
    have hreads : Reads (.tokens scope st) (text ++ []) rest _ := .atom hf .done
    rw [List.append_nil] at hreads
    exact .reads rfl hlt hreads (Job.errs_tokens.mpr h)
  | template rest =>
    simp only [hf] at h
    rw [hf] at htakes
    have hlt := htakes.template_lt
    obtain rfl : Front.templateOpening ++ rest = cs := htakes
    cases ht : scanTemplate scope st.position
        (.start (st.position.advance Front.templateOpening)) rest with
    | error e' =>
      simp only [ht, Except.error.injEq] at h
      subst h
      exact .opens rfl hlt (.template hf) (Job.errs_template.mpr ht)
    | ok t =>
      simp only [ht] at h
      obtain ⟨body, z, d, rfl, hbody, hfinish⟩ := scanTemplate_reads ht
      have hrest : (body ++ '"' :: z).drop (t.body.length + 1) = z := by
        rw [hbody.body_eq hfinish]
        exact List.drop_length_add_append 1
      rw [hrest] at h
      have hreads : Reads (.tokens scope st) (Front.templateOpening ++ body ++ ['"'] ++ []) z
        (.tokens scope (st.addTemplate t)) := .template hf hbody hfinish .done
      refine .reads (by simp) ?_ hreads (Job.errs_tokens.mpr h)
      simp only [List.length_append, List.length_cons] at hlt ⊢
      omega
  | macroDef header rest =>
    simp only [hf] at h
    rw [hf] at htakes
    have hlt := htakes.macroDef_lt
    obtain ⟨rfl, _⟩ := htakes
    cases hb : scanTokens (.bodyAt header.nameStart.offset) (.start header.nameStop) rest with
    | error e' =>
      simp only [hb, Except.error.injEq] at h
      subst h
      exact .opens rfl hlt (.body hf) (Job.errs_tokens.mpr hb)
    | ok b =>
      simp only [hb] at h
      obtain ⟨body, z, st', e', rfl, hbody, hexit, rfl⟩ := scanTokens_reads hb
      have hcount : (st'.finish e').count = body.length := hbody.count_eq
      rw [hcount, List.take_left, List.drop_left] at h
      have hreads : Reads (.tokens scope st) (header.lead ++ (header.names ++ body) ++ []) z
        (.tokens scope (st.addMacro header body st'.tokens.reverse)) :=
        .macroDef hf hbody hexit .done
      refine .reads (by simp) ?_ hreads (Job.errs_tokens.mpr h)
      simp only [List.length_append] at hlt ⊢
      omega

theorem scanTemplate_toward {scope : Scope} {start : Position} {d : Draft} {cs : List Char}
    {e : LexError} (h : scanTemplate scope start d cs = .error e) :
    (Job.template scope start d).Toward cs e := by
  have htakes := piece_takes cs
  rw [scanTemplate_eq] at h
  cases hp : piece cs with
  | fail cause =>
    simp only [hp, Except.error.injEq] at h
    exact .fails (.inl ⟨cause, hp, h.symm⟩)
  | quote rest =>
    simp only [hp] at h
    exact .fails (.inr ⟨⟨rest, hp⟩, h⟩)
  | text taken rest =>
    simp only [hp] at h
    rw [hp] at htakes
    have hlt := htakes.text_lt
    obtain ⟨rfl, _⟩ := htakes
    have hreads : Reads (.template scope start d) (taken ++ []) rest _ := .text hp .done
    rw [List.append_nil] at hreads
    exact .reads rfl hlt hreads (Job.errs_template.mpr h)
  | brace rest =>
    simp only [hp] at h
    rw [hp] at htakes
    have hlt := htakes.brace_lt
    obtain rfl : '{' :: rest = cs := htakes
    cases hs : scanTokens (scope.sectionAt d.position.offset) (.start (d.position.next '{'))
        rest with
    | error e' =>
      simp only [hs, Except.error.injEq] at h
      subst h
      exact .opens (w := ['{']) rfl hlt .braces (Job.errs_tokens.mpr hs)
    | ok s =>
      simp only [hs] at h
      obtain ⟨inner, z, st', e', rfl, hinner, hexit, rfl⟩ := scanTokens_reads hs
      obtain ⟨rfl, z', rfl⟩ := section_exit hexit
      have hcount : (st'.finish .brace).count = inner.length := hinner.count_eq
      have hrest : (inner ++ '}' :: z').drop (inner.length + 1) = z' :=
        List.drop_length_add_append 1
      rw [hcount, List.take_left, hrest] at h
      have hreads : Reads (.template scope start d) ('{' :: inner ++ ['}'] ++ []) z'
        (.template scope start (d.addBraces start inner st'.tokens.reverse)) :=
        .braces hinner hexit .done
      refine .reads (by simp) ?_ hreads (Job.errs_template.mpr h)
      simp only [List.length_append, List.length_cons] at hlt ⊢
      omega

theorem Job.Errs.toward {j : Job} {cs : List Char} {e : LexError} (h : j.Errs cs e) :
    j.Toward cs e := by
  cases j with
  | tokens scope st => exact scanTokens_toward (Job.errs_tokens.mp h)
  | template scope start d => exact scanTemplate_toward (Job.errs_template.mp h)

/-- to fail is to come to a step that fails -/
theorem errs_iff_enters {j : Job} {cs : List Char} {e : LexError} :
    j.Errs cs e ↔ ∃ x y outer k, cs = x ++ y ∧ Enters j x y outer k ∧ k.Fails y e := by
  constructor
  · intro h
    induction cs using (measure List.length).wf.induction generalizing j with
    | _ cs ih =>
    cases h.toward with
    | fails hfails => exact ⟨[], cs, [], j, rfl, .here .done, hfails⟩
    | @reads x y k hcs hlt hreads hk =>
      obtain ⟨x', y', outer, l, rfl, henters, hfails⟩ := ih y hlt hk
      exact ⟨x ++ x', y', outer, l, by simp [hcs], hreads.enters henters, hfails⟩
    | @opens w y s k hcs hlt hopens hk =>
      obtain ⟨x', y', outer, l, rfl, henters, hfails⟩ := ih y hlt hk
      exact ⟨w ++ x', y', s ++ outer, l, by simp [hcs], hopens.enters henters, hfails⟩
  · rintro ⟨x, y, outer, k, rfl, henters, hfails⟩
    exact henters.errs hfails

/-! ## what a way passes by -/

theorem Reads.scope_eq {j k : Job} {x y : List Char} (h : Reads j x y k) : k.scope = j.scope := by
  have hadv := h.advanced
  cases j with
  | tokens scope st =>
    cases k with
    | tokens scope' st' => exact hadv.1
    | template scope' start d => exact hadv.elim
  | template scope start d =>
    cases k with
    | tokens scope' st => exact hadv.elim
    | template scope' start' d' => exact hadv.1

/-- at the byte `n` of the text stands `w` -/
def TextAt (text w : List Char) (n : Nat) : Prop := ∃ u v, text = u ++ (w ++ v) ∧ byteLength u = n

/-- at the byte `n` of the text the names of a macro header begin, behind `#macro` and blanks -/
def HeaderAt (text : List Char) (n : Nat) : Prop :=
  ∃ u blanks c v, text = u ++ ('#' :: "macro".toList ++ blanks) ++ c :: v ∧ blanks ≠ [] ∧
    (∀ b ∈ blanks, isBlank b = true) ∧ isWordStart c = true ∧
    byteLength (u ++ ('#' :: "macro".toList ++ blanks)) = n

/-- the text has in it what opens the scope -/
def Scope.OpenIn (text : List Char) (s : Scope) : Prop :=
  match s.mode with
  | .plain => False
  | .interpolation => TextAt text ['{'] s.start
  | .macroBody => HeaderAt text s.start

theorem TextAt.append {text w : List Char} {n : Nat} (h : TextAt text w n) (x : List Char) :
    TextAt (text ++ x) w n := by
  obtain ⟨u, v, rfl, hn⟩ := h
  exact ⟨u, v ++ x, by simp, hn⟩

theorem HeaderAt.append {text : List Char} {n : Nat} (h : HeaderAt text n) (x : List Char) :
    HeaderAt (text ++ x) n := by
  obtain ⟨u, blanks, c, v, rfl, hne, hblanks, hc, hn⟩ := h
  exact ⟨u, blanks, c, v ++ x, by simp, hne, hblanks, hc, hn⟩

theorem Scope.OpenIn.append {text : List Char} {s : Scope} (h : s.OpenIn text) (x : List Char) :
    s.OpenIn (text ++ x) := by
  unfold Scope.OpenIn at h ⊢
  split at h
  · exact h.elim
  · exact TextAt.append h x
  · exact HeaderAt.append h x

/-- what stands in a text begins in front of its end -/
theorem TextAt.lt {text w : List Char} {n : Nat} (h : TextAt text w n) (hw : w ≠ []) :
    n < byteLength text := by
  obtain ⟨u, v, rfl, rfl⟩ := h
  rw [byteLength_append, byteLength_append]
  have hpos := byteLength_pos hw
  omega

theorem HeaderAt.textAt {text : List Char} {n : Nat} (h : HeaderAt text n) :
    ∃ c, isWordStart c = true ∧ TextAt text [c] n := by
  obtain ⟨u, blanks, c, v, htext, _, _, hc, hn⟩ := h
  exact ⟨c, hc, _, v, htext, hn⟩

theorem Scope.OpenIn.lt {text : List Char} {s : Scope} (h : s.OpenIn text) :
    s.start < byteLength text := by
  unfold Scope.OpenIn at h
  split at h
  · exact h.elim
  · exact TextAt.lt h (List.cons_ne_nil _ _)
  · obtain ⟨c, _, hc⟩ := HeaderAt.textAt h
    exact hc.lt (List.cons_ne_nil _ _)

/-- the text `pre` ends where the job has come to, and the template that the job reads begins in it -/
structure Job.Stands (pre : List Char) (j : Job) : Prop where
  position : j.position = after pre
  opening : ∀ scope start d, j = .template scope start d →
    TextAt pre Front.templateOpening start.offset

theorem Job.stands_begin (scope : Scope) : (Job.begin scope .start).Stands [] :=
  ⟨rfl, fun _ _ _ h => nomatch h⟩

theorem Reads.stands {j k : Job} {x y pre : List Char} (h : Reads j x y k) (hj : j.Stands pre) :
    k.Stands (pre ++ x) := by
  refine ⟨by rw [h.position_eq, hj.position, Position.advance_after], ?_⟩
  rintro scope start d rfl
  have hadv := h.advanced
  cases j with
  | tokens scope' st => exact hadv.elim
  | template scope' start' d' =>
    rw [hadv.2.1]
    exact (hj.opening scope' start' d' rfl).append x

theorem directive_word {scope : Scope} {start : Position} {cs rest : List Char}
    {header : MacroHeader} (h : Lexeme.directive scope start cs = .macroDef header rest) :
    cs.takeWhile isWordPart = "macro".toList := by
  unfold Lexeme.directive at h
  simp only at h
  split at h
  · cases h
  split at h
  · cases h
  split at h
  · rename_i hword
    exact hword
  split at h
  · exact ((Lexeme.colour_simple start _ _).ne_macroDef _ _ h).elim
  · cases h

/-- the names of a header stand behind `#macro` and blanks -/
theorem front_header_openIn {scope : Scope} {depth : Nat} {behind : Behind} {pre rest : List Char}
    {header : MacroHeader} (h : front scope depth behind (after pre)
      (header.lead ++ header.names ++ rest) = .macroDef header rest) :
    (Scope.bodyAt header.nameStart.offset).OpenIn (pre ++ (header.lead ++ header.names)) := by
  have hspells := front_spells scope depth behind (after pre) (header.lead ++ header.names ++ rest)
  rw [h] at hspells
  obtain ⟨⟨blanks, hlead, hblanks⟩, hnames, ⟨hname, hconfiguration⟩, _⟩ := hspells
  obtain ⟨c, cs, hword, hc⟩ : ∃ c cs, header.names = c :: cs ∧ isWordStart c = true := by
    rw [hnames]
    cases hconf : header.configuration with
    | none =>
      obtain ⟨c, cs, hcs, hc, _⟩ := hname
      exact ⟨c, cs, hcs, hc⟩
    | some first =>
      obtain ⟨c, cs, hcs, hc, _⟩ := hconfiguration first hconf
      exact ⟨c, cs ++ ':' :: header.name.toList, by simp [headerNames, hcs], hc⟩
  have hne : blanks ≠ [] := by
    -- without a blank the first name would go on with the word of the directive
    rintro rfl
    obtain ⟨cs', hcs', hdirective⟩ := front_macroDef h
    have hdirectiveWord := directive_word hdirective
    rw [hlead, hword, List.append_nil] at hcs'
    obtain rfl : "macro".toList ++ c :: (cs ++ rest) = cs' := by simpa using hcs'
    have hall : "macro".toList.all isWordPart = true := by decide
    have htake : ("macro".toList ++ c :: (cs ++ rest)).takeWhile isWordPart
        = "macro".toList ++ c :: (cs ++ rest).takeWhile isWordPart := by
      rw [List.takeWhile_append_of_pos (List.all_eq_true.mp hall),
        List.takeWhile_cons_of_pos (isWordPart_of_isWordStart c hc)]
    have hlength := congrArg List.length (htake.symm.trans hdirectiveWord)
    simp at hlength
  rw [(front_header h).nameStart, Position.advance_after, hlead, hword, ← List.append_assoc]
  exact ⟨pre, blanks, c, cs, rfl, hne, hblanks, hc, rfl⟩

/-- a job that is opened stands where its opening ends, in the scope around it or in a new one -/
theorem Opens.stands {j k : Job} {w y pre : List Char} {s : List Scope} (h : Opens j w y s k)
    (hj : j.Stands pre) : k.Stands (pre ++ w) := by
  cases h with
  | @template scope st y hfront =>
    have hpos : st.position = after pre := hj.position
    refine ⟨?_, ?_⟩
    · rw [← Position.advance_after, ← hpos]
      rfl
    · rintro _ _ _ ⟨⟩
      exact ⟨pre, [], by rw [List.append_nil], by rw [hpos]; rfl⟩
  | @body scope st header y hfront =>
    have hpos : st.position = after pre := hj.position
    have hplaced := front_header hfront
    refine ⟨?_, fun _ _ _ h => nomatch h⟩
    show header.nameStop = _
    rw [hplaced.nameStop, hplaced.nameStart, hpos, Position.advance_after, Position.advance_after,
      List.append_assoc]
  | @braces scope start d y =>
    have hpos : d.position = after pre := hj.position
    refine ⟨?_, fun _ _ _ h => nomatch h⟩
    rw [Position.after_append_singleton, ← hpos]
    rfl

/-- the template that the job reads, if it reads one, begins with its opening in the text `pre` -/
def Job.BeginsIn (pre : List Char) : Job → Prop
  | .tokens _ _ => True
  | .template _ start _ => ∃ u v, pre = u ++ (Front.templateOpening ++ v) ∧ start = after u

theorem Reads.beginsIn {j k : Job} {x y pre : List Char} (h : Reads j x y k)
    (hj : j.BeginsIn pre) : k.BeginsIn (pre ++ x) := by
  have hadv := h.advanced
  cases k with
  | tokens _ _ => trivial
  | template scope start d =>
    cases j with
    | tokens _ _ => exact hadv.elim
    | template scope' start' d' =>
      obtain ⟨u, v, rfl, hstart⟩ := hj
      exact ⟨u, v ++ x, by simp, hadv.2.1.trans hstart⟩

theorem Opens.beginsIn {j k : Job} {w y pre : List Char} {s : List Scope} (h : Opens j w y s k)
    (hj : j.Stands pre) : k.BeginsIn (pre ++ w) := by
  cases h with
  | template _ => exact ⟨pre, [], by rw [List.append_nil], hj.position⟩
  | body _ => trivial
  | braces => trivial

/-- the scope is a macro body -/
def Scope.isBody (s : Scope) : Bool := s.mode == .macroBody

/-- between the scopes `first` and `last` the scopes `inner`, the last of which is `last`, were opened
in the text `pre`; at most one of them is a macro body, and only outside of all others -/
structure Entered (pre : List Char) (first : Scope) (inner : List Scope) (last : Scope) : Prop where
  openIn : ∀ s ∈ inner, s.OpenIn pre
  bodies : (inner.filter Scope.isBody = [] ∧ last.inMacro = first.inMacro) ∨
    ∃ n, inner.filter Scope.isBody = [.bodyAt n] ∧ first.inMacro = false ∧ last.inMacro = true

/-- what a step inwards does to the scope -/
theorem Opens.scope_or {j k : Job} {w y pre : List Char} {s : List Scope} (h : Opens j w y s k)
    (hj : j.Stands pre) : (s = [] ∧ k.scope = j.scope) ∨
      s = [j.scope] ∧ k.scope.OpenIn (pre ++ w) ∧
        (k.scope.isBody = false ∧ k.scope.inMacro = j.scope.inMacro ∨
          (∃ n, k.scope = .bodyAt n) ∧ j.scope.inMacro = false) := by
  cases h with
  | template => exact .inl ⟨rfl, rfl⟩
  | @body scope st header y hfront =>
    have hpos : st.position = after pre := hj.position
    rw [hpos] at hfront
    refine .inr ⟨rfl, front_header_openIn hfront, .inr ⟨⟨_, rfl⟩, ?_⟩⟩
    exact Bool.eq_false_iff.mpr fun hinside => front_ne_macroDef hinside hfront
  | @braces scope start d y =>
    have hpos : d.position = after pre := hj.position
    have hopen : TextAt (pre ++ ['{']) ['{'] d.position.offset := ⟨pre, [], rfl, by rw [hpos]; rfl⟩
    exact .inr ⟨rfl, hopen, .inl ⟨rfl, rfl⟩⟩

theorem Enters.stands {j k : Job} {x y pre : List Char} {outer : List Scope}
    (h : Enters j x y outer k) (hj : j.Stands pre) : k.Stands (pre ++ x) := by
  induction h generalizing pre with
  | here hreads => exact hreads.stands hj
  | into hreads hopens _ ih =>
    have hk := ih (hopens.stands (hreads.stands hj))
    simpa using hk

theorem Enters.beginsIn {j k : Job} {x y pre : List Char} {outer : List Scope}
    (h : Enters j x y outer k) (hj : j.Stands pre) (hbegins : j.BeginsIn pre) :
    k.BeginsIn (pre ++ x) := by
  induction h generalizing pre with
  | here hreads => exact hreads.beginsIn hbegins
  | into hreads hopens _ ih =>
    have hk := hreads.stands hj
    have hinner := ih (hopens.stands hk) (hopens.beginsIn hk)
    simpa using hinner

/-- the scopes on a way are the first one and those that were opened on it -/
theorem Enters.scopes {j k : Job} {x y pre : List Char} {outer : List Scope}
    (h : Enters j x y outer k) (hj : j.Stands pre) :
    ∃ inner, outer ++ [k.scope] = j.scope :: inner ∧ Entered (pre ++ x) j.scope inner k.scope := by
  induction h generalizing pre with
  | @here j k x y hreads =>
    refine ⟨[], by rw [hreads.scope_eq]; rfl, fun s hs => absurd hs List.not_mem_nil, .inl ⟨rfl, ?_⟩⟩
    rw [hreads.scope_eq]
  | @into j k i l x w z y s outer hreads hopens _ ih =>
    have hk := hreads.stands hj
    obtain ⟨inner, hscopes, hentered⟩ := ih (hopens.stands hk)
    have htext : pre ++ x ++ w ++ z = pre ++ (x ++ (w ++ z)) := by simp
    rw [htext] at hentered
    rw [← hreads.scope_eq]
    rcases hopens.scope_or hk with ⟨rfl, hscope⟩ | ⟨rfl, hopen, hnew⟩
    · rw [hscope] at hscopes hentered
      exact ⟨inner, hscopes, hentered⟩
    · refine ⟨i.scope :: inner, by rw [List.append_assoc, hscopes]; rfl, fun s hs => ?_, ?_⟩
      · rcases List.mem_cons.mp hs with rfl | hs
        · rw [← htext]
          exact hopen.append z
        · exact hentered.openIn s hs
      · rcases hnew with ⟨hbody, hinside⟩ | ⟨⟨n, hbody⟩, hinside⟩
        · rw [List.filter_cons_of_neg (by simp [hbody]), ← hinside]
          exact hentered.bodies
        · rw [hbody] at hentered ⊢
          rcases hentered.bodies with ⟨hnone, hlast⟩ | ⟨_, _, hfirst, _⟩
          · exact .inr ⟨n, by rw [List.filter_cons_of_pos rfl, hnone], hinside, hlast⟩
          · exact absurd hfirst.symm Bool.false_ne_true

/-! ## whole sources -/

/-- the scan of the source fails with the error inside of the scopes, the outermost first -/
def Raised (source : String) (mode : Mode) (scopes : List Scope) (e : LexError) : Prop :=
  ∃ x y outer k, source.toList = x ++ y ∧ Enters (.begin (.initial mode) .start) x y outer k ∧
    k.Fails y e ∧ scopes = outer ++ [k.scope]

/-- a source that fits in the counts fails with an error exactly when a way leads to it -/
theorem scan_raised {source : String} {mode : Mode} {e : LexError}
    (hsize : byteLength source.toList ≤ countLimit) :
    scan source mode = .error e ↔ ∃ scopes, Raised source mode scopes e := by
  have herrs : scan source mode = .error e
      ↔ (Job.begin (.initial mode) .start).Errs source.toList e := by
    rw [Job.begin, Job.errs_tokens, scan_error_iff hsize]
  rw [herrs, errs_iff_enters]
  constructor
  · rintro ⟨x, y, outer, k, hxy, henters, hfails⟩
    exact ⟨_, x, y, outer, k, hxy, henters, hfails, rfl⟩
  · rintro ⟨_, x, y, outer, k, hxy, henters, hfails, _⟩
    exact ⟨x, y, outer, k, hxy, henters, hfails⟩

/-- where the way to an error ends, and inside of what -/
theorem Raised.entered {source : String} {mode : Mode} {scopes : List Scope} {e : LexError}
    (h : Raised source mode scopes e) :
    ∃ (x y : List Char) (k : Job) (inner : List Scope), source.toList = x ++ y ∧ k.Stands x ∧
      k.Fails y e ∧ scopes = .initial mode :: inner ∧ Entered x (.initial mode) inner k.scope ∧
      scopes.getLast? = some k.scope := by
  obtain ⟨x, y, outer, k, hxy, henters, hfails, rfl⟩ := h
  have hj := Job.stands_begin (.initial mode)
  obtain ⟨inner, hscopes, hentered⟩ := henters.scopes hj
  exact ⟨x, y, k, inner, hxy, henters.stands hj, hfails, hscopes, hentered, List.getLast?_concat⟩

end ScriptLexer

import ScriptLexer.Proofs.Decisions
import ScriptLexer.Scan

/-!
# Runs

A scan as a sequence of steps.  A job is something that can be read on: a list of tokens in a scope,
or a template.

* `Job`               a job with what it has read so far;
* `Reads j x y j'`    the job `j` takes the text `x` from the front of `x ++ y` and has then become
                      `j'`; a template and a macro definition are one step each, with the run of what
                      is inside them as a premise.

`scanTokens_reads` and `scanTemplate_reads` say that a scan that succeeds is such a run, up to the
decision that ends it.  `Reads.run_eq` is the other direction: behind a run the scan goes on as from
the job that was reached.  What a run does to a job is said once, in `Reads.advanced`.
`Reads.toEnd` is the induction on runs of tokens that come to the end of the text, and `Reads.keeps` the
one for what every step of a run in a source keeps (`Job.Invariant`).
-/

namespace ScriptLexer

open Position (after)

/-! ## the two recursions as equations -/

/-- the macro definition of a header, a body text and the tokens of the body -/
def MacroHeader.define (header : MacroHeader) (body : List Char) (tokens : List Token) :
    MacroDef Token :=
  ⟨header.name, header.configuration, String.ofList (header.names ++ body), header.nameStart,
    header.nameStop, tokens⟩

namespace State

/-- one more token, a template -/
def addTemplate (st : State) (t : TemplateScan) : State :=
  st.push (.template t.template) (Front.templateOpening ++ t.body ++ ['"'])

/-- one more token, a macro definition with the text `body` behind its header -/
def addMacro (st : State) (header : MacroHeader) (body : List Char) (tokens : List Token) : State :=
  st.push (.macroDef (header.define body tokens)) (header.lead ++ (header.names ++ body))

end State

/-- the draft with a section of the template that begins at `start` -/
def Draft.addBraces (d : Draft) (start : Position) (inner : List Char) (tokens : List Token) :
    Draft :=
  d.addSection (start.offset + byteLength Front.templateOpening) inner tokens

theorem scanTokens_eq (scope : Scope) (st : State) (cs : List Char) :
    scanTokens scope st cs =
      match front scope st.depth st.behind st.position cs with
      | .fail e => .error e
      | .exit e => .ok (st.finish e)
      | .blank c rest => scanTokens scope (st.skip c) rest
      | .atom a text rest => scanTokens scope (st.push (.atom a) text) rest
      | .template rest =>
        match scanTemplate scope st.position (.start (st.position.advance Front.templateOpening))
          rest with
        | .error e => .error e
        | .ok t => scanTokens scope (st.addTemplate t) (rest.drop (t.body.length + 1))
      | .macroDef header rest =>
        match scanTokens (.bodyAt header.nameStart.offset) (.start header.nameStop) rest with
        | .error e => .error e
        | .ok body =>
          scanTokens scope (st.addMacro header (rest.take body.count) body.tokens)
            (rest.drop body.count) := by
  rw [scanTokens]
  split
  all_goals
    rename_i h
    conv => rhs; rw [h]
  all_goals rfl

theorem scanTemplate_eq (scope : Scope) (start : Position) (d : Draft) (cs : List Char) :
    scanTemplate scope start d cs =
      match piece cs with
      | .fail cause => .error (.report cause d.position start.offset)
      | .quote _ => d.finish start
      | .text taken rest => scanTemplate scope start (d.addText taken) rest
      | .brace rest =>
        match scanTokens (scope.sectionAt d.position.offset) (.start (d.position.next '{'))
          rest with
        | .error e => .error e
        | .ok s =>
          scanTemplate scope start (d.addBraces start (rest.take s.count) s.tokens)
            (rest.drop (s.count + 1)) := by
  rw [scanTemplate]
  split
  all_goals
    rename_i h
    conv => rhs; rw [h]
  all_goals rfl

/-! ## where tokens stop -/

theorem stopOf_newline (p : Position) (text : List Char) :
    stopOf (.atom .newline) p text = p.along text := if_pos rfl

theorem stopOf_of_ne {k : Kind} (h : k ≠ .atom .newline) (p : Position) (text : List Char) :
    stopOf k p text = p.advance text := if_neg h

/-! ## jobs -/

/-- something that is read on: a list of tokens in a scope, or a template that begins at `start` -/
inductive Job where
  | tokens (scope : Scope) (st : State)
  | template (scope : Scope) (start : Position) (d : Draft)

namespace Job

/-- the list of tokens in a scope, nothing read -/
def begin (scope : Scope) (p : Position) : Job := .tokens scope (.start p)

/-- the template that begins at `start`, its opening read -/
def beginTemplate (scope : Scope) (start : Position) : Job :=
  .template scope start (.start (start.advance Front.templateOpening))

/-- where the job has come to -/
def position : Job → Position
  | .tokens _ st => st.position
  | .template _ _ d => d.position

/-- what the scan makes of a job and the text in front of it -/
def run (cs : List Char) : Job → Except LexError (Scan ⊕ TemplateScan)
  | .tokens scope st => (scanTokens scope st cs).map .inl
  | .template scope start d => (scanTemplate scope start d cs).map .inr

end Job

/-! ## runs -/

/-- the job takes the text `x` from the front of `x ++ y` and has then become another job -/
inductive Reads : Job → List Char → List Char → Job → Prop where
  | done {j : Job} {y : List Char} : Reads j [] y j
  | blank {scope : Scope} {st : State} {c : Char} {x y : List Char} {j : Job}
      (hfront : front scope st.depth st.behind st.position (c :: (x ++ y)) = .blank c (x ++ y))
      (hnext : Reads (.tokens scope (st.skip c)) x y j) :
      Reads (.tokens scope st) (c :: x) y j
  | atom {scope : Scope} {st : State} {a : Atom} {text x y : List Char} {j : Job}
      (hfront : front scope st.depth st.behind st.position (text ++ (x ++ y))
        = .atom a text (x ++ y))
      (hnext : Reads (.tokens scope (st.push (.atom a) text)) x y j) :
      Reads (.tokens scope st) (text ++ x) y j
  | template {scope : Scope} {st : State} {body x y : List Char} {d : Draft} {t : TemplateScan}
      {j : Job}
      (hfront : front scope st.depth st.behind st.position
        (Front.templateOpening ++ (body ++ '"' :: (x ++ y))) = .template (body ++ '"' :: (x ++ y)))
      (hbody : Reads (.beginTemplate scope st.position) body ('"' :: (x ++ y))
        (.template scope st.position d))
      (hfinish : d.finish st.position = .ok t)
      (hnext : Reads (.tokens scope (st.addTemplate t)) x y j) :
      Reads (.tokens scope st) (Front.templateOpening ++ body ++ ['"'] ++ x) y j
  | macroDef {scope : Scope} {st st' : State} {header : MacroHeader} {body x y : List Char}
      {e : Exit} {j : Job}
      (hfront : front scope st.depth st.behind st.position
        (header.lead ++ header.names ++ (body ++ (x ++ y))) = .macroDef header (body ++ (x ++ y)))
      (hbody : Reads (.begin (.bodyAt header.nameStart.offset) header.nameStop) body (x ++ y)
        (.tokens (.bodyAt header.nameStart.offset) st'))
      (hexit : front (.bodyAt header.nameStart.offset) st'.depth st'.behind st'.position (x ++ y)
        = .exit e)
      (hnext : Reads (.tokens scope (st.addMacro header body st'.tokens.reverse)) x y j) :
      Reads (.tokens scope st) (header.lead ++ (header.names ++ body) ++ x) y j
  | text {scope : Scope} {start : Position} {d : Draft} {taken x y : List Char} {j : Job}
      (hpiece : piece (taken ++ (x ++ y)) = .text taken (x ++ y))
      (hnext : Reads (.template scope start (d.addText taken)) x y j) :
      Reads (.template scope start d) (taken ++ x) y j
  | braces {scope : Scope} {start : Position} {d : Draft} {st : State} {inner x y : List Char}
      {j : Job}
      (hinner : Reads (.begin (scope.sectionAt d.position.offset) (d.position.next '{')) inner
        ('}' :: (x ++ y)) (.tokens (scope.sectionAt d.position.offset) st))
      (hexit : front (scope.sectionAt d.position.offset) st.depth st.behind st.position
        ('}' :: (x ++ y)) = .exit .brace)
      (hnext : Reads (.template scope start (d.addBraces start inner st.tokens.reverse)) x y j) :
      Reads (.template scope start d) ('{' :: inner ++ ['}'] ++ x) y j

/-- induction on a run of a list of tokens to the end of the text -/
theorem Reads.toEnd {scope : Scope} {st' : State}
    {motive : (st : State) → (x : List Char) →
      Reads (.tokens scope st) x [] (.tokens scope st') → Prop}
    (done : motive st' [] .done)
    (blank : ∀ {st c x} (hfront : front scope st.depth st.behind st.position (c :: x) = .blank c x)
      (hnext : Reads (.tokens scope (st.skip c)) x [] (.tokens scope st')),
      motive (st.skip c) x hnext →
      motive st (c :: x) (.blank (by rwa [List.append_nil]) hnext))
    (atom : ∀ {st a text x}
      (hfront : front scope st.depth st.behind st.position (text ++ x) = .atom a text x)
      (hnext : Reads (.tokens scope (st.push (.atom a) text)) x [] (.tokens scope st')),
      motive (st.push (.atom a) text) x hnext →
      motive st (text ++ x) (.atom (by rwa [List.append_nil]) hnext))
    (template : ∀ {st body x d t}
      (hbody : Reads (.beginTemplate scope st.position) body ('"' :: x)
        (.template scope st.position d))
      (hfinish : d.finish st.position = .ok t)
      (hnext : Reads (.tokens scope (st.addTemplate t)) x [] (.tokens scope st')),
      motive (st.addTemplate t) x hnext →
      motive st (Front.templateOpening ++ body ++ ['"'] ++ x)
        (.template rfl (by rwa [List.append_nil]) hfinish hnext))
    (macroDef : ∀ {st st₁ header body x e}
      (hfront : front scope st.depth st.behind st.position
        (header.lead ++ header.names ++ (body ++ x)) = .macroDef header (body ++ x))
      (hbody : Reads (.begin (.bodyAt header.nameStart.offset) header.nameStop) body x
        (.tokens (.bodyAt header.nameStart.offset) st₁))
      (hexit : front (.bodyAt header.nameStart.offset) st₁.depth st₁.behind st₁.position x = .exit e)
      (hnext : Reads (.tokens scope (st.addMacro header body st₁.tokens.reverse)) x []
        (.tokens scope st')),
      motive (st.addMacro header body st₁.tokens.reverse) x hnext →
      motive st (header.lead ++ (header.names ++ body) ++ x)
        (.macroDef (by rwa [List.append_nil]) (by rwa [List.append_nil])
          (by rwa [List.append_nil]) hnext))
    {st : State} {x : List Char} (h : Reads (.tokens scope st) x [] (.tokens scope st')) :
    motive st x h := by
  have hall : ∀ {j j' x y}, Reads j x y j' → ∀ {st}, j = .tokens scope st → j' = .tokens scope st' →
      y = [] → ∀ h, motive st x h := by
    intro j j' x y h
    induction h with
    | done =>
      intro st hj hj' _ h
      cases hj.symm.trans hj'
      exact done
    | @blank scope st c x y j hfront hnext ih =>
      rintro st ⟨⟩ rfl rfl h
      rw [List.append_nil] at hfront
      exact blank hfront hnext (ih rfl rfl rfl hnext)
    | @atom scope st a text x y j hfront hnext ih =>
      rintro st ⟨⟩ rfl rfl h
      rw [List.append_nil] at hfront
      exact atom hfront hnext (ih rfl rfl rfl hnext)
    | @template scope st body x y d t j hfront hbody hfinish hnext ihbody ih =>
      rintro st ⟨⟩ rfl rfl h
      rw [List.append_nil] at hbody
      exact template hbody hfinish hnext (ih rfl rfl rfl hnext)
    | @macroDef scope st st₁ header body x y e j hfront hbody hexit hnext ihbody ih =>
      rintro st ⟨⟩ rfl rfl h
      rw [List.append_nil] at hfront hbody hexit
      exact macroDef hfront hbody hexit hnext (ih rfl rfl rfl hnext)
    | text _ _ _ => exact fun hj => nomatch hj
    | braces _ _ _ _ _ => exact fun hj => nomatch hj
  exact hall h rfl rfl rfl h

/-! ## what a run does to a job -/

/-- the job has taken `x` and is the other job now: its count, its position and the text of a draft
have grown by `x` and by nothing else -/
def Job.Advanced (x : List Char) : Job → Job → Prop
  | .tokens scope st, .tokens scope' st' =>
    scope' = scope ∧ st'.count = st.count + x.length ∧ st'.position = st.position.advance x
  | .template scope start d, .template scope' start' d' =>
    scope' = scope ∧ start' = start ∧ d'.lexeme = x.reverse ++ d.lexeme ∧
      d'.position = d.position.advance x ∧ d'.size = d.size + byteLength x
  | _, _ => False

namespace Job

theorem advanced_nil (j : Job) : j.Advanced [] j := by
  cases j with
  | tokens scope st => exact ⟨rfl, rfl, rfl⟩
  | template scope start d => exact ⟨rfl, rfl, rfl, rfl, rfl⟩

theorem Advanced.trans {a b : List Char} {i j k : Job} (hij : i.Advanced a j)
    (hjk : j.Advanced b k) : i.Advanced (a ++ b) k := by
  cases i with
  | tokens scope st =>
    cases j with
    | template scope' start d => exact hij.elim
    | tokens scope' st' =>
      cases k with
      | template scope'' start d => exact hjk.elim
      | tokens scope'' st'' =>
        obtain ⟨hs, hc, hp⟩ := hij
        obtain ⟨hs', hc', hp'⟩ := hjk
        refine ⟨hs'.trans hs, ?_, ?_⟩
        · rw [hc', hc, List.length_append, Nat.add_assoc]
        · rw [hp', hp, Position.advance_append]
  | template scope start d =>
    cases j with
    | tokens scope' st => exact hij.elim
    | template scope' start' d' =>
      cases k with
      | tokens scope'' st => exact hjk.elim
      | template scope'' start'' d'' =>
        obtain ⟨hs, ht, hl, hp, hz⟩ := hij
        obtain ⟨hs', ht', hl', hp', hz'⟩ := hjk
        refine ⟨hs'.trans hs, ht'.trans ht, ?_, ?_, ?_⟩
        · rw [hl', hl, List.reverse_append, List.append_assoc]
        · rw [hp', hp, Position.advance_append]
        · rw [hz', hz, byteLength_append, Nat.add_assoc]

theorem advanced_skip (scope : Scope) (st : State) (c : Char) :
    (Job.tokens scope st).Advanced [c] (.tokens scope (st.skip c)) :=
  ⟨rfl, rfl, rfl⟩

theorem advanced_push (scope : Scope) (st : State) (k : Kind) (text : List Char) :
    (Job.tokens scope st).Advanced text (.tokens scope (st.push k text)) :=
  ⟨rfl, rfl, rfl⟩

theorem advanced_addText (scope : Scope) (start : Position) (d : Draft) (text : List Char) :
    (Job.template scope start d).Advanced text (.template scope start (d.addText text)) :=
  ⟨rfl, rfl, rfl, rfl, rfl⟩

theorem advanced_addBraces (scope : Scope) (start : Position) (d : Draft) (inner : List Char)
    (tokens : List Token) :
    (Job.template scope start d).Advanced ('{' :: inner ++ ['}'])
      (.template scope start (d.addBraces start inner tokens)) :=
  ⟨rfl, rfl, rfl, rfl, rfl⟩

end Job

theorem Draft.finish_body {d : Draft} {start : Position} {t : TemplateScan}
    (h : d.finish start = .ok t) : t.body = d.lexeme.reverse := by
  unfold Draft.finish at h
  simp only at h
  split at h
  · cases h; rfl
  · cases h

/-- a run takes the text that it is said to take -/
theorem Reads.advanced {j j' : Job} {x y : List Char} (h : Reads j x y j') : j.Advanced x j' := by
  induction h with
  | done => exact Job.advanced_nil _
  | blank _ _ ih => exact (Job.advanced_skip _ _ _).trans ih
  | atom _ _ ih => exact (Job.advanced_push _ _ _ _).trans ih
  | @template scope st body x y d t j _ _ hfinish _ ihbody ih =>
    obtain rfl : t.body = body := by
      rw [Draft.finish_body hfinish, ihbody.2.2.1]
      simp [Draft.start]
    exact (Job.advanced_push _ _ _ _).trans ih
  | macroDef _ _ _ _ _ ih => exact (Job.advanced_push _ _ _ _).trans ih
  | text _ _ ih => exact (Job.advanced_addText _ _ _ _).trans ih
  | braces _ _ _ _ ih => exact (Job.advanced_addBraces _ _ _ _ _).trans ih

/-- what a section or a body took is what its count says -/
theorem Reads.count_eq {scope : Scope} {p : Position} {st : State} {x y : List Char}
    (h : Reads (.begin scope p) x y (.tokens scope st)) : st.count = x.length := by
  rw [h.advanced.2.1]
  exact Nat.zero_add _

theorem Reads.body_eq {scope : Scope} {start : Position} {d : Draft} {t : TemplateScan}
    {x y : List Char} (h : Reads (.beginTemplate scope start) x y (.template scope start d))
    (hfinish : d.finish start = .ok t) : t.body = x := by
  rw [Draft.finish_body hfinish, h.advanced.2.2.1]
  simp [Draft.start]

/-! ## what a run keeps -/

/-- a property of jobs in the source that every step keeps, and that the jobs inside begin with -/
structure Job.Invariant (source : List Char) (P : Job → Prop) : Prop where
  begin : ∀ (scope : Scope) (p : Position), P (.begin scope p)
  beginTemplate : ∀ (scope : Scope) (start : Position), P (.beginTemplate scope start)
  blank : ∀ {scope : Scope} {st : State} (c : Char),
    P (.tokens scope st) → P (.tokens scope (st.skip c))
  atom : ∀ {scope : Scope} {st : State} {pre text rest : List Char} {a : Atom},
    source = pre ++ text ++ rest → st.position = after pre →
    front scope st.depth st.behind (after pre) (text ++ rest) = .atom a text rest →
    P (.tokens scope st) → P (.tokens scope (st.push (.atom a) text))
  template : ∀ {scope : Scope} {st : State} {pre rest : List Char} {d : Draft} {t : TemplateScan},
    source = pre ++ (Front.templateOpening ++ t.body ++ ['"']) ++ rest → st.position = after pre →
    Reads (.beginTemplate scope (after pre)) t.body ('"' :: rest) (.template scope (after pre) d) →
    d.finish (after pre) = .ok t → P (.template scope (after pre) d) →
    P (.tokens scope st) → P (.tokens scope (st.addTemplate t))
  macroDef : ∀ {scope : Scope} {st st' : State} {header : MacroHeader} {pre body rest : List Char}
    {e : Exit}, source = pre ++ (header.lead ++ (header.names ++ body)) ++ rest →
    st.position = after pre →
    front scope st.depth st.behind (after pre) (header.lead ++ header.names ++ (body ++ rest))
      = .macroDef header (body ++ rest) →
    Reads (.begin (.bodyAt header.nameStart.offset) header.nameStop) body rest
      (.tokens (.bodyAt header.nameStart.offset) st') →
    front (.bodyAt header.nameStart.offset) st'.depth st'.behind st'.position rest = .exit e →
    P (.tokens (.bodyAt header.nameStart.offset) st') →
    P (.tokens scope st) → P (.tokens scope (st.addMacro header body st'.tokens.reverse))
  text : ∀ {scope : Scope} {start : Position} {d : Draft} (taken : List Char),
    P (.template scope start d) → P (.template scope start (d.addText taken))
  braces : ∀ {scope : Scope} {start : Position} {d : Draft} {st : State} (inner : List Char),
    P (.tokens (scope.sectionAt d.position.offset) st) → P (.template scope start d) →
    P (.template scope start (d.addBraces start inner st.tokens.reverse))

/-- a run in the source keeps what its steps keep -/
theorem Reads.keeps {source : List Char} {P : Job → Prop} (hP : Job.Invariant source P) {j j' : Job}
    {x y : List Char} (h : Reads j x y j') :
    ∀ pre, source = pre ++ x ++ y → j.position = after pre → P j → P j' := by
  induction h with
  | done => exact fun _ _ _ hj => hj
  | @blank scope st c x y j _ _ ih =>
    intro pre hsource hpos hj
    refine ih (pre ++ [c]) (by simp [hsource]) ?_ (hP.blank c hj)
    rw [Position.after_append_singleton, ← hpos]
    rfl
  | @atom scope st a text x y j hfront _ ih =>
    intro pre hsource hpos hj
    refine ih (pre ++ text) (by simp [hsource]) ?_ ?_
    · rw [← Position.advance_after, ← hpos]
      rfl
    · replace hpos : st.position = after pre := hpos
      rw [hpos] at hfront
      exact hP.atom (by simp [hsource]) hpos hfront hj
  | @template scope st body x y d t j _ hbody hfinish _ ihbody ih =>
    intro pre hsource hpos hj
    obtain rfl : t.body = body := hbody.body_eq hfinish
    have hin := ihbody (pre ++ Front.templateOpening) (by simp [hsource])
      (by rw [← Position.advance_after, ← hpos]; rfl) (hP.beginTemplate _ _)
    refine ih (pre ++ (Front.templateOpening ++ t.body ++ ['"'])) (by simp [hsource]) ?_ ?_
    · rw [← Position.advance_after, ← hpos]
      rfl
    · replace hpos : st.position = after pre := hpos
      rw [hpos] at hbody hfinish hin
      exact hP.template (by simp [hsource]) hpos hbody hfinish hin hj
  | @macroDef scope st st' header body x y e j hfront hbody hexit _ ihbody ih =>
    intro pre hsource hpos hj
    replace hpos : st.position = after pre := hpos
    have hplaced := front_header hfront
    have hin := ihbody (pre ++ (header.lead ++ header.names)) (by simp [hsource])
      (by
        rw [← Position.advance_after, ← hpos, Position.advance_append, ← hplaced.nameStart,
          ← hplaced.nameStop]
        rfl)
      (hP.begin _ _)
    refine ih (pre ++ (header.lead ++ (header.names ++ body))) (by simp [hsource]) ?_ ?_
    · rw [← Position.advance_after, ← hpos]
      rfl
    · rw [hpos] at hfront
      exact hP.macroDef (by simp [hsource]) hpos hfront hbody hexit hin hj
  | @text scope start d taken x y j _ _ ih =>
    intro pre hsource hpos hj
    refine ih (pre ++ taken) (by simp [hsource]) ?_ (hP.text taken hj)
    rw [← Position.advance_after, ← hpos]
    rfl
  | @braces scope start d st inner x y j _ _ _ ihinner ih =>
    intro pre hsource hpos hj
    have hin := ihinner (pre ++ ['{']) (by simp [hsource])
      (by rw [Position.after_append_singleton, ← hpos]; rfl) (hP.begin _ _)
    refine ih (pre ++ ('{' :: inner ++ ['}'])) (by simp [hsource]) ?_ (hP.braces inner hin hj)
    rw [← Position.advance_after, ← hpos]
    rfl

/-! ## from a run to the scan -/

theorem Job.run_tokens_ok {scope : Scope} {st : State} {cs : List Char} {s : Scan} :
    (Job.tokens scope st).run cs = .ok (.inl s) ↔ scanTokens scope st cs = .ok s := by
  show (scanTokens scope st cs).map Sum.inl = _ ↔ _
  cases scanTokens scope st cs <;> simp [Except.map]

theorem Job.run_tokens_inj {scope : Scope} {st st' : State} {cs cs' : List Char}
    (h : (Job.tokens scope st).run cs = (Job.tokens scope st').run cs') :
    scanTokens scope st cs = scanTokens scope st' cs' := by
  unfold Job.run at h
  cases hs : scanTokens scope st cs with
  | error e =>
    cases hs' : scanTokens scope st' cs' with
    | error e' => simpa [hs, hs', Except.map] using h
    | ok s' => simp [hs, hs', Except.map] at h
  | ok s =>
    cases hs' : scanTokens scope st' cs' with
    | error e' => simp [hs, hs', Except.map] at h
    | ok s' => simpa [hs, hs', Except.map] using h

theorem Job.run_template_ok {scope : Scope} {start : Position} {d : Draft} {cs : List Char}
    {t : TemplateScan} :
    (Job.template scope start d).run cs = .ok (.inr t) ↔ scanTemplate scope start d cs = .ok t := by
  show (scanTemplate scope start d cs).map Sum.inr = _ ↔ _
  cases scanTemplate scope start d cs <;> simp [Except.map]

theorem Job.exists_of_run_tokens {scope : Scope} {st : State} {cs : List Char}
    {r : Scan ⊕ TemplateScan} (h : (Job.tokens scope st).run cs = .ok r) :
    ∃ s, r = .inl s ∧ scanTokens scope st cs = .ok s := by
  replace h : (scanTokens scope st cs).map Sum.inl = .ok r := h
  cases hs : scanTokens scope st cs with
  | error e =>
    rw [hs] at h
    cases h
  | ok s =>
    rw [hs] at h
    exact ⟨s, (Except.ok.inj h).symm, rfl⟩

theorem Job.exists_of_run_template {scope : Scope} {start : Position} {d : Draft} {cs : List Char}
    {r : Scan ⊕ TemplateScan} (h : (Job.template scope start d).run cs = .ok r) :
    ∃ t, r = .inr t ∧ scanTemplate scope start d cs = .ok t := by
  replace h : (scanTemplate scope start d cs).map Sum.inr = .ok r := h
  cases ht : scanTemplate scope start d cs with
  | error e =>
    rw [ht] at h
    cases h
  | ok t =>
    rw [ht] at h
    exact ⟨t, (Except.ok.inj h).symm, rfl⟩

theorem scanTokens_of_exit {scope : Scope} {st : State} {cs : List Char} {e : Exit}
    (h : front scope st.depth st.behind st.position cs = .exit e) :
    scanTokens scope st cs = .ok (st.finish e) := by
  rw [scanTokens_eq, h]

theorem scanTokens_fail {scope : Scope} {st : State} {cs : List Char} {e : LexError}
    (h : front scope st.depth st.behind st.position cs = .fail e) :
    scanTokens scope st cs = .error e := by
  rw [scanTokens_eq, h]

theorem scanTokens_atom {scope : Scope} {st : State} {cs text rest : List Char} {a : Atom}
    (h : front scope st.depth st.behind st.position cs = .atom a text rest) :
    scanTokens scope st cs = scanTokens scope (st.push (.atom a) text) rest := by
  rw [scanTokens_eq, h]

theorem scanTokens_template {scope : Scope} {st : State} {cs rest : List Char} {t : TemplateScan}
    (h : front scope st.depth st.behind st.position cs = .template rest)
    (ht : scanTemplate scope st.position (.start (st.position.advance Front.templateOpening)) rest
      = .ok t) :
    scanTokens scope st cs = scanTokens scope (st.addTemplate t) (rest.drop (t.body.length + 1)) := by
  rw [scanTokens_eq, h]
  simp only [ht]

theorem scanTokens_macroDef {scope : Scope} {st : State} {cs rest : List Char} {header : MacroHeader}
    {b : Scan} (h : front scope st.depth st.behind st.position cs = .macroDef header rest)
    (hb : scanTokens (.bodyAt header.nameStart.offset) (.start header.nameStop) rest = .ok b) :
    scanTokens scope st cs = scanTokens scope
      (st.addMacro header (rest.take b.count) b.tokens) (rest.drop b.count) := by
  rw [scanTokens_eq, h]
  simp only [hb]

theorem scanTemplate_text {scope : Scope} {start : Position} {d : Draft} {cs taken rest : List Char}
    (h : piece cs = .text taken rest) :
    scanTemplate scope start d cs = scanTemplate scope start (d.addText taken) rest := by
  rw [scanTemplate_eq, h]

theorem scanTemplate_brace {scope : Scope} {start : Position} {d : Draft} {cs : List Char} {s : Scan}
    (hs : scanTokens (scope.sectionAt d.position.offset) (.start (d.position.next '{')) cs = .ok s) :
    scanTemplate scope start d ('{' :: cs) = scanTemplate scope start
      (d.addBraces start (cs.take s.count) s.tokens) (cs.drop (s.count + 1)) := by
  rw [scanTemplate_eq, piece]
  simp only [hs]

theorem scanTemplate_quote (scope : Scope) (start : Position) (d : Draft) (cs : List Char) :
    scanTemplate scope start d ('"' :: cs) = d.finish start := by
  rw [scanTemplate_eq, piece]

/-- behind a run the scan goes on as from the job that was reached -/
theorem Reads.run_eq {j j' : Job} {x y : List Char} (h : Reads j x y j') :
    j.run (x ++ y) = j'.run y := by
  induction h with
  | done => rfl
  | @blank scope st c x y j hfront _ ih =>
    rw [← ih]
    simp only [Job.run, List.cons_append]
    rw [scanTokens_eq, hfront]
  | @atom scope st a text x y j hfront _ ih =>
    rw [← ih]
    simp only [Job.run, List.append_assoc]
    rw [scanTokens_eq, hfront]
  | @template scope st body x y d t j hfront hbody hfinish _ ihbody ih =>
    have hinner : scanTemplate scope st.position
        (.start (st.position.advance Front.templateOpening)) (body ++ '"' :: (x ++ y)) = .ok t := by
      refine Job.run_template_ok.mp (ihbody.trans (Job.run_template_ok.mpr ?_))
      rw [scanTemplate_quote, hfinish]
    have hrest : (body ++ '"' :: (x ++ y)).drop (t.body.length + 1) = x ++ y := by
      rw [hbody.body_eq hfinish]
      exact List.drop_length_add_append 1
    rw [← ih]
    simp only [Job.run, List.append_assoc, List.cons_append, List.nil_append]
    rw [scanTokens_eq, hfront]
    simp only [hinner, hrest]
  | @macroDef scope st st' header body x y e j hfront hbody hexit _ ihbody ih =>
    have hinner : scanTokens (.bodyAt header.nameStart.offset) (.start header.nameStop)
        (body ++ (x ++ y)) = .ok (st'.finish e) :=
      Job.run_tokens_ok.mp (ihbody.trans (Job.run_tokens_ok.mpr (scanTokens_of_exit hexit)))
    have hcount : (st'.finish e).count = body.length := hbody.count_eq
    rw [← ih]
    simp only [Job.run, List.append_assoc] at hfront ⊢
    rw [scanTokens_eq, hfront]
    simp only [hinner, hcount, List.take_left, List.drop_left]
    rfl
  | @text scope start d taken x y j hpiece _ ih =>
    rw [← ih]
    simp only [Job.run, List.append_assoc]
    rw [scanTemplate_eq, hpiece]
  | @braces scope start d st inner x y j hinner hexit _ ihinner ih =>
    have hsection : scanTokens (scope.sectionAt d.position.offset) (.start (d.position.next '{'))
        (inner ++ '}' :: (x ++ y)) = .ok (st.finish .brace) :=
      Job.run_tokens_ok.mp (ihinner.trans (Job.run_tokens_ok.mpr (scanTokens_of_exit hexit)))
    have hcount : (st.finish .brace).count = inner.length := hinner.count_eq
    have hrest : (inner ++ '}' :: (x ++ y)).drop (inner.length + 1) = x ++ y :=
      List.drop_length_add_append 1
    rw [← ih]
    simp only [Job.run, List.append_assoc, List.cons_append, List.nil_append]
    rw [scanTemplate_eq, piece]
    simp only [hsection, hcount, hrest, List.take_left]
    rfl

/-- a run up to where the scope ends is the scan -/
theorem Reads.scanTokens_ok {scope scope' : Scope} {st st' : State} {x y : List Char} {e : Exit}
    (h : Reads (.tokens scope st) x y (.tokens scope' st'))
    (hexit : front scope' st'.depth st'.behind st'.position y = .exit e) :
    scanTokens scope st (x ++ y) = .ok (st'.finish e) :=
  Job.run_tokens_ok.mp (h.run_eq.trans (Job.run_tokens_ok.mpr (scanTokens_of_exit hexit)))

/-! ## from the scan to a run -/

/-- a section can only end in front of a brace -/
theorem section_exit {scope : Scope} {n depth : Nat} {behind : Behind} {p : Position}
    {cs : List Char} {e : Exit} (h : front (scope.sectionAt n) depth behind p cs = .exit e) :
    e = .brace ∧ ∃ rest, cs = '}' :: rest := by
  have hends := (front_exit_iff _ _ _ _ _ _).mp h
  cases e with
  | endOfInput => exact absurd rfl hends.2
  | newline => exact absurd hends.2 (by simp [Scope.sectionAt])
  | brace => exact ⟨rfl, List.head?_eq_some_iff.mp hends.1⟩

mutual

/-- a list of tokens that can be read to its end is a run up to a text in front of which its scope
ends -/
theorem scanTokens_reads {scope : Scope} {st : State} {cs : List Char} {s : Scan}
    (h : scanTokens scope st cs = .ok s) :
    ∃ x y st' e, cs = x ++ y ∧ Reads (.tokens scope st) x y (.tokens scope st') ∧
      front scope st'.depth st'.behind st'.position y = .exit e ∧ s = st'.finish e := by
  have htakes := front_takes scope st.depth st.behind st.position cs
  rw [scanTokens_eq] at h
  cases hf : front scope st.depth st.behind st.position cs with
  | fail e => simp [hf] at h
  | exit e =>
    simp only [hf, Except.ok.injEq] at h
    exact ⟨[], cs, st, e, rfl, .done, hf, h.symm⟩
  | blank c rest =>
    simp only [hf] at h
    rw [hf] at htakes
    have := htakes.blank_lt
    obtain ⟨x, y, st', e, rfl, hx, he, hs⟩ := scanTokens_reads h
    obtain rfl : c :: (x ++ y) = cs := htakes
    exact ⟨c :: x, y, st', e, rfl, .blank hf hx, he, hs⟩
  | atom a text rest =>
    simp only [hf] at h
    rw [hf] at htakes
    have := htakes.atom_lt
    obtain ⟨x, y, st', e, rfl, hx, he, hs⟩ := scanTokens_reads h
    obtain ⟨rfl, _⟩ := htakes
    exact ⟨text ++ x, y, st', e, (List.append_assoc ..).symm, .atom hf hx, he, hs⟩
  | template rest =>
    simp only [hf] at h
    rw [hf] at htakes
    have := htakes.template_lt
    cases ht : scanTemplate scope st.position
        (.start (st.position.advance Front.templateOpening)) rest with
    | error e => simp [ht] at h
    | ok t =>
      simp only [ht] at h
      obtain ⟨body, z, d, rfl, hbody, hfinish⟩ := scanTemplate_reads ht
      have hrest : (body ++ '"' :: z).drop (t.body.length + 1) = z := by
        rw [Reads.body_eq hbody hfinish]
        exact List.drop_length_add_append 1
      rw [hrest] at h
      have hlt : z.length < cs.length := by
        simp only [List.length_append, List.length_cons] at this
        omega
      obtain ⟨x, y, st', e, rfl, hx, he, hs⟩ := scanTokens_reads h
      obtain rfl : Front.templateOpening ++ (body ++ '"' :: (x ++ y)) = cs := htakes
      refine ⟨Front.templateOpening ++ body ++ ['"'] ++ x, y, st', e, by simp, ?_, he, hs⟩
      exact .template hf hbody hfinish hx
  | macroDef header rest =>
    simp only [hf] at h
    rw [hf] at htakes
    have := htakes.macroDef_lt
    cases hb : scanTokens (.bodyAt header.nameStart.offset) (.start header.nameStop) rest with
    | error e => simp [hb] at h
    | ok b =>
      simp only [hb] at h
      obtain ⟨body, z, st₁, e₁, rfl, hbody, hexit, rfl⟩ := scanTokens_reads hb
      have hcount : (st₁.finish e₁).count = body.length := Reads.count_eq hbody
      rw [hcount, List.take_left, List.drop_left] at h
      have hlt : z.length < cs.length := by
        simp only [List.length_append] at this
        omega
      obtain ⟨x, y, st', e, rfl, hx, he, hs⟩ := scanTokens_reads h
      obtain ⟨rfl, _⟩ := htakes
      refine ⟨header.lead ++ (header.names ++ body) ++ x, y, st', e, by simp, ?_, he, hs⟩
      exact .macroDef hf hbody hexit hx
termination_by cs.length

/-- a template that can be read is a run up to its closing quote -/
theorem scanTemplate_reads {scope : Scope} {start : Position} {d : Draft} {cs : List Char}
    {t : TemplateScan} (h : scanTemplate scope start d cs = .ok t) :
    ∃ x y d', cs = x ++ '"' :: y ∧
      Reads (.template scope start d) x ('"' :: y) (.template scope start d') ∧
      d'.finish start = .ok t := by
  have htakes := piece_takes cs
  rw [scanTemplate_eq] at h
  cases hp : piece cs with
  | fail cause => simp [hp] at h
  | quote rest =>
    simp only [hp] at h
    rw [hp] at htakes
    obtain rfl : '"' :: rest = cs := htakes
    exact ⟨[], rest, d, rfl, .done, h⟩
  | text taken rest =>
    simp only [hp] at h
    rw [hp] at htakes
    have := htakes.text_lt
    obtain ⟨x, y, d', rfl, hx, hfinish⟩ := scanTemplate_reads h
    obtain ⟨rfl, _⟩ := htakes
    exact ⟨taken ++ x, y, d', (List.append_assoc ..).symm, .text hp hx, hfinish⟩
  | brace rest =>
    simp only [hp] at h
    rw [hp] at htakes
    have := htakes.brace_lt
    cases hs : scanTokens (scope.sectionAt d.position.offset) (.start (d.position.next '{'))
        rest with
    | error e => simp [hs] at h
    | ok s =>
      simp only [hs] at h
      obtain ⟨inner, z, st₁, e₁, rfl, hinner, hexit, rfl⟩ := scanTokens_reads hs
      obtain ⟨rfl, z', rfl⟩ := section_exit hexit
      have hcount : (st₁.finish .brace).count = inner.length := Reads.count_eq hinner
      have hrest : (inner ++ '}' :: z').drop (inner.length + 1) = z' :=
        List.drop_length_add_append 1
      rw [hcount, List.take_left, hrest] at h
      have hlt : z'.length < cs.length := by
        simp only [List.length_append, List.length_cons] at this
        omega
      obtain ⟨x, y, d', rfl, hx, hfinish⟩ := scanTemplate_reads h
      obtain rfl : '{' :: (inner ++ '}' :: (x ++ '"' :: y)) = cs := htakes
      refine ⟨'{' :: inner ++ ['}'] ++ x, y, d', by simp, ?_, hfinish⟩
      exact .braces hinner hexit hx
termination_by cs.length

end

/-! ## whole sources -/

theorem byteLength_pos {cs : List Char} (h : cs ≠ []) : 0 < byteLength cs := by
  cases cs with
  | nil => exact absurd rfl h
  | cons c cs =>
    rw [byteLength_cons]
    exact Nat.add_pos_left c.utf8Size_pos _

theorem byteLength_eq_utf8ByteSize (cs : List Char) :
    byteLength cs = (String.ofList cs).utf8ByteSize := by
  induction cs with
  | nil => rfl
  | cons c cs ih =>
    rw [byteLength_cons, ih, ← List.singleton_append, String.ofList_append,
      String.utf8ByteSize_append, ← String.singleton_eq_ofList, String.utf8ByteSize_singleton]

theorem byteLength_toList (s : String) : byteLength s.toList = s.utf8ByteSize := by
  rw [byteLength_eq_utf8ByteSize, String.ofList_toList]

/-- a source that fits in the counts is scanned from its beginning -/
theorem scan_eq {source : String} (h : byteLength source.toList ≤ countLimit) (mode : Mode) :
    scan source mode
      = (scanTokens (.initial mode) (.start .start) source.toList).map Scan.tokens := by
  rw [byteLength_toList] at h
  rw [scan, scanSource, if_neg (Nat.not_lt_of_le h)]

/-- a source is scanned if the scan of its characters succeeds -/
theorem scan_ok_iff {source : String} {mode : Mode} {ts : List Token}
    (hsize : byteLength source.toList ≤ countLimit) :
    scan source mode = .ok ts ↔
      ∃ s, scanTokens (.initial mode) (.start .start) source.toList = .ok s ∧ s.tokens = ts := by
  rw [scan_eq hsize]
  cases scanTokens (.initial mode) (.start .start) source.toList with
  | error e => simp [Except.map]
  | ok s => simp [Except.map]

/-- and fails with an error if that does -/
theorem scan_error_iff {source : String} {mode : Mode} {e : LexError}
    (hsize : byteLength source.toList ≤ countLimit) :
    scan source mode = .error e ↔
      scanTokens (.initial mode) (.start .start) source.toList = .error e := by
  rw [scan_eq hsize]
  cases scanTokens (.initial mode) (.start .start) source.toList with
  | error e => simp [Except.map]
  | ok s => simp [Except.map]

/-- only a source that is too large is refused without a look at it -/
theorem byteLength_le_of_scan_error {source : String} {mode : Mode} {e : LexError}
    (h : scan source mode = .error e) (hcause : e.cause ≠ .sourceTooLarge) :
    byteLength source.toList ≤ countLimit := by
  rw [byteLength_toList]
  refine Nat.le_of_not_lt fun hlarge => ?_
  rw [scan, scanSource, if_pos hlarge] at h
  cases h
  exact hcause rfl

/-- a source that can be scanned fits in the counts, and its tokens are those of a run -/
theorem scan_reads {source : String} {mode : Mode} {ts : List Token}
    (h : scan source mode = .ok ts) :
    byteLength source.toList ≤ countLimit ∧ ∃ x y st e, source.toList = x ++ y ∧
      Reads (.begin (.initial mode) .start) x y (.tokens (.initial mode) st) ∧
      front (.initial mode) st.depth st.behind st.position y = .exit e ∧
      ts = st.tokens.reverse := by
  have hsize : byteLength source.toList ≤ countLimit := by
    rw [byteLength_toList]
    refine Nat.le_of_not_lt fun hlarge => ?_
    rw [scan, scanSource, if_pos hlarge] at h
    cases h
  obtain ⟨s, hs, rfl⟩ := (scan_ok_iff hsize).mp h
  obtain ⟨x, y, st, e, hxy, hx, he, rfl⟩ := scanTokens_reads hs
  exact ⟨hsize, x, y, st, e, hxy, hx, he, rfl⟩

/-- a source whose first lexeme takes all of it is the one token of that lexeme -/
theorem scan_of_atom {source : String} {a : Atom} (h : byteLength source.toList ≤ countLimit)
    (ha : a ≠ .newline)
    (hfront : front (.initial .plain) 0 .nothing .start source.toList
      = .atom a source.toList []) :
    scan source = .ok [⟨.atom a, .start, after source.toList⟩] := by
  have hscan : scanTokens (.initial .plain) (.start .start) source.toList = _ :=
    scanTokens_atom hfront
  have hk : Kind.atom a ≠ .atom .newline := fun h => ha (Kind.atom.inj h)
  rw [scan_eq h, hscan, scanTokens_of_exit (e := .endOfInput) rfl, ← Position.start_advance,
    ← stopOf_of_ne hk]
  rfl

/-- a source that is a template and nothing else is the one token of that template -/
theorem scan_of_template {source : String} {p : Template Token} {body : List Char}
    (h : byteLength source.toList ≤ countLimit)
    (hsource : source.toList = Front.templateOpening ++ (body ++ ['"']))
    (htemplate : scanTemplate (.initial .plain) .start
      (.start (Position.start.advance Front.templateOpening)) (body ++ ['"']) = .ok ⟨p, body⟩) :
    scan source = .ok [⟨.template p, .start, after source.toList⟩] := by
  have hfront : front (.initial .plain) 0 .nothing .start source.toList
      = .template (body ++ ['"']) := by
    rw [hsource]
    rfl
  have hrest : (body ++ ['"']).drop (body.length + 1) = [] := by simp
  have hscan : scanTokens (.initial .plain) (.start .start) source.toList = _ :=
    scanTokens_template hfront htemplate
  have hk : Kind.template p ≠ .atom .newline := by
    intro h
    cases h
  rw [scan_eq h, hscan, hrest, scanTokens_of_exit (e := .endOfInput) rfl, hsource,
    ← List.append_assoc, ← Position.start_advance, ← stopOf_of_ne hk]
  rfl

/-- a source that is wrong at its beginning cannot be scanned -/
theorem scan_of_fail {source : String} {mode : Mode} {e : LexError}
    (h : byteLength source.toList ≤ countLimit)
    (hfront : front (.initial mode) 0 .nothing .start source.toList = .fail e) :
    scan source mode = .error e := by
  have hscan : scanTokens (.initial mode) (.start .start) source.toList = _ := scanTokens_fail hfront
  rw [scan_eq h, hscan]
  rfl

/-- the form in which the tokens of a given source can be computed -/
theorem scan_of_toOption {source : String} {mode : Mode} {ts : List Token}
    (h : (scan source mode).toOption = some ts) : scan source mode = .ok ts := by
  cases hs : scan source mode with
  | error e => simp [hs, Except.toOption] at h
  | ok ts' => simpa [hs, Except.toOption] using h

end ScriptLexer

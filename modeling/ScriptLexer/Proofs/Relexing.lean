import ScriptLexer.Proofs.Embed
import ScriptLexer.Proofs.Origin
import ScriptLexer.Proofs.Relocate

/-!
# Tokens read again

The text of a token, scanned alone, gives the token back: `scan_relex`.  Nothing in front of a token
and nothing behind it has a say in what it is, wherever in a tree it stands: the step that made it
can be made at the end of a text, in a plain scope, with no open brace and nothing in front of it.

The one exception are the line breaks that a backslash hides in a macro body, since a backslash
belongs nowhere else.

* `Reads.relocate`    moves the runs inside a token;
* `front_alone`       moves the decision that an atom is, which looks at what lies behind it too;
* `Arises.alone`      puts them together: the token is all that a plain scan makes of its text;
* `Reads.scan_alone`  then takes the places to the beginning of the text.
-/

namespace ScriptLexer

open Position (after)

/-- the line break of a line that a backslash joins to the next one -/
def Located.IsContinuation (source : List Char) (t : Token) : Prop :=
  t.kind = .atom .newline ∧ t.text? source = some ['\\', '\n']

/-! ## decisions about a text of its own -/

theorem symbolTable_point : ∀ e ∈ symbolTable, e.1.head? = some '.' → e.1 = ['.'] := by decide

theorem Lexeme.symbol_point {cs text rest : List Char} {a : Atom}
    (h : symbol '.' cs = .atom a text rest) : rest = cs := by
  unfold symbol at h
  cases hs : symbol? ('.' :: cs) with
  | none => simp [hs] at h
  | some e =>
    have happ := symbol?_append hs
    obtain ⟨d, e', he⟩ := List.exists_cons_of_ne_nil (symbol?_ne_nil hs)
    have hpoint : e.1 = ['.'] := by
      refine symbolTable_point e (symbol?_mem hs) ?_
      rw [he, List.cons_append] at happ
      rw [he, (List.cons.inj happ).1]
      rfl
    simp only [hs, Front.atom.injEq] at h
    rw [← h.2.2, hpoint]
    rfl

theorem lexeme_alone {behind : Behind} {start : Position} {c : Char} {cs text : List Char}
    {a : Atom} (h : lexeme behind start c cs = .atom a text []) :
    lexeme .nothing start c cs = .atom a text [] := by
  by_cases hpoint : c = '.'
  · subst hpoint
    have hpoint : Lexeme.point behind cs = .atom a text [] := h
    show Lexeme.point .nothing cs = .atom a text []
    cases cs with
    | nil => exact hpoint
    | cons d cs =>
      rw [Lexeme.point] at hpoint ⊢
      split at hpoint
      · rename_i hd
        rw [if_pos ⟨hd.1, by simp⟩, hpoint]
      · -- a point that is not the beginning of a float leaves what follows it
        exact absurd (Lexeme.symbol_point hpoint) (by simp)
  · rw [← h]
    unfold lexeme
    simp only [if_neg hpoint]

/-- an atom that is decided upon at the end of a text is so in a plain scope with nothing behind,
unless it joins two lines -/
theorem front_alone {scope : Scope} {depth : Nat} {behind : Behind} {start : Position}
    {text : List Char} {a : Atom} (h : front scope depth behind start text = .atom a text [])
    (hcont : ¬(a = .newline ∧ text = ['\\', '\n'])) :
    front (.initial .plain) 0 .nothing start text = .atom a text [] := by
  cases text with
  | nil =>
    rw [front, atEnd] at h
    split at h <;> cases h
  | cons c cs =>
    have hbare : (Scope.initial .plain).isBareSection 0 = false := rfl
    -- a quote or a brace that the scope gives a meaning makes no atom there
    rw [front] at h ⊢
    simp only [hbare, Bool.false_eq_true, and_false, if_false]
    split at h
    · rename_i hc
      rw [if_pos hc]
      unfold atNewline at h
      split at h
      · cases h
      · split at h
        · cases h
        · exact h
    rename_i hc
    rw [if_neg hc]
    split at h
    · unfold atBackslash at h
      split at h
      · cases h
      · split at h
        · obtain ⟨ha, htext, _⟩ := Front.atom.inj h
          exact absurd ⟨ha.symm, htext.symm⟩ hcont
        · cases h
    rename_i hc
    rw [if_neg hc]
    split at h
    · cases h
    split at h
    · cases h
    split at h
    · rename_i hc
      rw [if_pos hc, ← h]
      exact Lexeme.directive_inScope (congrArg Front.rest? h) fun h => absurd h (by decide)
    · rename_i hc
      rw [if_neg hc]
      exact lexeme_alone h

theorem front_alone_header {scope : Scope} {depth : Nat} {behind : Behind} {start : Position}
    {cs rest : List Char} {header : MacroHeader}
    (h : front scope depth behind start cs = .macroDef header rest) :
    front (.initial .plain) 0 .nothing start cs = .macroDef header rest := by
  obtain ⟨cs', rfl, h⟩ := front_macroDef h
  rw [← h]
  exact Lexeme.directive_inScope (congrArg Front.rest? h) fun h => absurd h (by decide)

/-! ## the runs of single tokens -/

theorem Arises.alone {source : List Char} {t : Token} (h : Arises source t)
    (hcont : ¬t.IsContinuation source) :
    ∃ pre text rest st, source = pre ++ text ++ rest ∧ t.start = after pre ∧
      t.stop = stopOf t.kind (after pre) text ∧ st.tokens = [t] ∧
      Reads (.begin (.initial .plain) (after pre)) text [] (.tokens (.initial .plain) st) := by
  have hplain : (Scope.initial .plain).inMacro = true → False := by decide
  cases h with
  | @atom scope depth behind pre text rest a hsource hfront =>
    have htakes := front_takes scope depth behind (after pre) (text ++ rest)
    rw [hfront] at htakes
    have hend : front scope depth behind (after pre) (text ++ []) = .atom a text [] :=
      front_relocate (x := []) (Scope.eases_refl scope) htakes.2 hfront rfl (.inl break_nil)
        fun _ _ _ => lineEnd_nil
    rw [List.append_nil] at hend
    have halone := front_alone hend fun h => hcont ⟨by rw [h.1], by
      rw [hsource, ← h.2]
      exact Located.text?_append rfl rfl rest⟩
    have hreads : Reads (.begin (.initial .plain) (after pre)) (text ++ []) []
        (.tokens (.initial .plain) ((State.start (after pre)).push (.atom a) text)) :=
      .atom (by rw [List.append_nil, List.append_nil]; exact halone) .done
    rw [List.append_nil] at hreads
    exact ⟨pre, text, rest, _, hsource, rfl, rfl, rfl, hreads⟩
  | @template scope pre body rest d t hsource hbody hfinish =>
    have hbody' : Reads (.beginTemplate (.initial .plain) (after pre)) body ['"']
        (.template (.initial .plain) (after pre) d) :=
      hbody.relocate (fun h => (hplain h).elim) rfl fun h => nomatch h
    have hreads : Reads (.begin (.initial .plain) (after pre))
        (Front.templateOpening ++ body ++ ['"'] ++ []) []
        (.tokens (.initial .plain) ((State.start (after pre)).addTemplate t)) :=
      .template (front_templateOpening _ _ _ _ _) hbody' hfinish .done
    rw [List.append_nil, State.addTemplate, hbody.body_eq hfinish] at hreads
    exact ⟨pre, _, rest, _, hsource, rfl, rfl, rfl, hreads⟩
  | @macroDef scope depth behind pre body rest header st e hsource hfront hbody hexit =>
    have hlead : header.lead ++ header.names ≠ [] := by simp [(front_header hfront).names_ne_nil]
    have hend : front scope depth behind (after pre)
        (header.lead ++ header.names ++ (body ++ [])) = .macroDef header (body ++ []) :=
      front_relocate (Scope.eases_refl scope) hlead hfront rfl (.inl break_nil) fun _ _ _ => lineEnd_nil
    have hbody' : Reads (.begin (.bodyAt header.nameStart.offset) header.nameStop) body []
        (.tokens (.bodyAt header.nameStart.offset) st) :=
      hbody.relocate (Scope.eases_refl _) (.inl break_nil) fun _ _ => lineEnd_nil
    obtain ⟨e', hexit'⟩ := (body_exit_iff header.nameStart.offset st.depth st.behind st.position
      []).mpr lineEnd_nil
    have hreads : Reads (.begin (.initial .plain) (after pre))
        (header.lead ++ (header.names ++ body) ++ []) []
        (.tokens (.initial .plain)
          ((State.start (after pre)).addMacro header body st.tokens.reverse)) :=
      .macroDef (front_alone_header hend) hbody' hexit' .done
    rw [List.append_nil] at hreads
    exact ⟨pre, _, rest, _, hsource, rfl, rfl, rfl, hreads⟩

/-- what a plain run makes of a whole text at `p` is what a scan of the text makes, embedded at `p` -/
theorem Reads.scan_alone {p : Position} {text : List Char} {st : State}
    (h : Reads (.begin (.initial .plain) p) text [] (.tokens (.initial .plain) st)) :
    ∃ s, scanTokens (.initial .plain) (.start .start) text = .ok s ∧
      st.tokens.reverse = s.tokens.map (Located.embed p) := by
  have hthere : scanTokens (.initial .plain) (.start p) text = .ok (st.finish .endOfInput) := by
    have hscan := h.scanTokens_ok (e := .endOfInput) rfl
    rwa [List.append_nil] at hscan
  have hembed := scanTokens_embed (Scope.moved_initial p) (State.moved_start p _ .start) text
  rw [Position.embed_start, hthere] at hembed
  cases hhere : scanTokens (.initial .plain) (.start .start) text with
  | error e =>
    rw [hhere] at hembed
    cases hembed
  | ok s =>
    rw [hhere] at hembed
    have htokens := congrArg Scan.tokens (Except.ok.inj hembed)
    simp only [Scan.embed, embedTokens_eq_map] at htokens
    exact ⟨s, rfl, htokens⟩

/-- the text of a token, scanned alone, gives the token back, at the beginning of its text; only a
line break behind a backslash cannot stand alone -/
theorem scan_relex {source : String} {mode : Mode} {ts : List Token}
    (h : scan source mode = .ok ts) {t : Token} (ht : Occurs t ts)
    (hcont : ¬t.IsContinuation source.toList) :
    ∃ text u, t.text? source.toList = some text ∧ scan (String.ofList text) = .ok [u] ∧
      t = u.embed t.start := by
  obtain ⟨hsize, _⟩ := scan_reads h
  obtain ⟨pre, text, rest, st, hsource, hstart, hstop, htokens, hreads⟩ :=
    (scan_arises h ht).alone hcont
  obtain ⟨s, hs, hmap⟩ := hreads.scan_alone
  rw [htokens] at hmap
  obtain ⟨u, hu, hut⟩ := List.map_eq_singleton_iff.mp hmap.symm
  have hfits : byteLength (String.ofList text).toList ≤ countLimit := by
    rw [hsource, byteLength_append, byteLength_append] at hsize
    rw [String.toList_ofList]
    omega
  refine ⟨text, u, ?_, ?_, ?_⟩
  · rw [hsource]
    exact Located.text?_append hstart hstop rest
  · rw [scan_eq hfits, String.toList_ofList, hs]
    exact congrArg Except.ok hu
  · rw [hstart]
    exact hut.symm

/-- a template in a macro body, with a line break in its section -/
theorem scan_relex_template :
    ∃ ts t, scan "#macro M $\"\x7b\nb\x7d\"" = .ok ts ∧ Occurs t ts ∧
      ¬t.IsContinuation "#macro M $\"\x7b\nb\x7d\"".toList ∧
      ∃ text u, t.text? "#macro M $\"\x7b\nb\x7d\"".toList = some text ∧
        scan (String.ofList text) = .ok [u] ∧ t = u.embed t.start := by
  refine ⟨[⟨.macroDef ⟨"M", none, "M $\"\x7b\nb\x7d\"", ⟨7, 0, 0⟩, ⟨8, 0, 0⟩,
    [⟨.template ⟨"\x7b\nb\x7d", "0", [⟨⟨11, 15⟩, ⟨0, 4⟩,
      [⟨.atom .newline, ⟨12, 0, 0⟩, ⟨13, 0, 0⟩⟩,
        ⟨.atom (.identifier "b"), ⟨13, 1, 13⟩, ⟨14, 1, 13⟩⟩]⟩]⟩, ⟨9, 0, 0⟩, ⟨16, 1, 13⟩⟩]⟩,
    ⟨0, 0, 0⟩, ⟨16, 1, 13⟩⟩],
    ⟨.template ⟨"\x7b\nb\x7d", "0", [⟨⟨11, 15⟩, ⟨0, 4⟩,
      [⟨.atom .newline, ⟨12, 0, 0⟩, ⟨13, 0, 0⟩⟩,
        ⟨.atom (.identifier "b"), ⟨13, 1, 13⟩, ⟨14, 1, 13⟩⟩]⟩]⟩, ⟨9, 0, 0⟩, ⟨16, 1, 13⟩⟩,
    ?h, ?ht, ?hcont, scan_relex ?h ?ht ?hcont⟩
  case h => exact scan_of_toOption (by decide +kernel)
  case ht =>
    refine .inside List.mem_cons_self List.mem_cons_self ?_
    exact .here List.mem_cons_self
  case hcont => exact fun hcont => nomatch hcont.1

end ScriptLexer

import Mathlib.Algebra.Order.Ring.Int
import Mathlib.Algebra.BigOperators.Group.List.Basic
import ScriptLexer.Proofs.Payloads
import ScriptLexer.Proofs.Separators

/-!
# Sources as sections

A source whose braces are nested may stand between the braces of a template: `scan_interpolated`.
The tokens of the section are those of the source, and what comes out is such a source again, so
that templates nest to any depth.

A section differs from a source in three ways, and what is asked of the source (`Interpolable`)
excludes each of them:

* a closing brace outside of all other braces ends a section, so there must be none;
* a double quote must not stand in a section outside of all braces;
* a section goes on behind its last token, which must not take the brace that ends the section.
-/

namespace ScriptLexer

open Position (after)

/-! ## nested braces -/

/-- how many braces a token of the kind opens, less those that it closes -/
def Kind.braceNet : Kind → ℤ
  | .atom (.dual .openBrace .symbol) => 1
  | .atom (.dual .closeBrace .symbol) => -1
  | _ => 0

/-- how many braces the tokens open, less those that they close -/
def braceNet (ts : List Token) : ℤ := (ts.map fun t => t.kind.braceNet).sum

theorem braceNet_concat (ts : List Token) (t : Token) :
    braceNet (ts ++ [t]) = braceNet ts + t.kind.braceNet := by
  simp [braceNet]

/-- a string that is written between double quotes -/
def Located.IsQuoted (source : List Char) (t : Token) : Prop :=
  (∃ text, t.kind = .atom (.string text)) ∧ ∃ x, t.text? source = some ('"' :: x)

/-- a source with the tokens `ts` may stand between the braces of a template -/
structure Interpolable (source : List Char) (ts : List Token) : Prop where
  /-- no brace is closed that was not opened -/
  nested : ∀ u, u <+: ts → 0 ≤ braceNet u
  /-- all of them are closed at the end -/
  settled : braceNet ts = 0
  /-- strings between double quotes stand inside of braces -/
  quoted : ∀ u t v, ts = u ++ t :: v → t.IsQuoted source → 0 < braceNet u
  /-- the last token does not take what follows the source -/
  closed : ¬OpenEnded source ts

/-- the count of a scan is that of the tokens as long as no brace is closed that was not opened -/
theorem braceDepth_eq {depth : Nat} {k : Kind} (h : 0 ≤ (depth : ℤ) + k.braceNet) :
    (braceDepth depth k : ℤ) = depth + k.braceNet := by
  unfold braceDepth
  split
  · rfl
  · simp only [Kind.braceNet] at h ⊢
    omega
  · rename_i hopen hclose
    have hnet : k.braceNet = 0 := by
      unfold Kind.braceNet
      split
      · exact (hopen rfl).elim
      · exact (hclose rfl).elim
      · rfl
    rw [hnet, add_zero]

/-- the open braces of a state are those of its tokens -/
def State.Counts (st : State) : Prop := (st.depth : ℤ) = braceNet st.tokens.reverse

theorem State.Counts.push_of_nonneg {st : State} {k : Kind} (h : st.Counts)
    (hnet : 0 ≤ (st.depth : ℤ) + k.braceNet) (text : List Char) : (st.push k text).Counts := by
  unfold State.Counts at h ⊢
  simp only [State.push, List.reverse_cons, braceNet_concat, ← h]
  exact braceDepth_eq hnet

theorem State.Counts.push {st : State} {k : Kind} {text source : List Char} {ts : List Token}
    (h : st.Counts) (hts : Interpolable source ts.reverse)
    (hsuffix : (st.push k text).tokens <:+ ts) : (st.push k text).Counts := by
  have hnested := hts.nested _ (List.reverse_prefix.mpr hsuffix)
  simp only [State.push, List.reverse_cons, braceNet_concat] at hnested
  unfold State.Counts at h
  exact State.Counts.push_of_nonneg h (h ▸ hnested) text

/-! ## decisions in a section -/

theorem symbol_closeBrace (cs : List Char) :
    Lexeme.symbol '}' cs = .atom (.dual .closeBrace .symbol) ['}'] cs := rfl

theorem quoted_atom {start : Position} {cs r : List Char}
    (h : (Lexeme.quoted start cs).rest? = some r) :
    ∃ text x, Lexeme.quoted start cs = .atom (.string text) ('"' :: x) r := by
  revert h
  unfold Lexeme.quoted
  split
  · intro h
    cases h
  · intro h
    cases h
  · split
    · intro h
      cases h
      exact ⟨_, _, rfl⟩
    · intro h
      cases h

/-- the scope of a section of a template that stands in no macro body -/
def Scope.sectionFrom (n : Nat) : Scope := (Scope.initial .plain).sectionAt n

/-- a plain decision is that of a section if no quote or brace stands outside of all braces -/
theorem front_sectionFrom {n depth : Nat} {behind : Behind} {start : Position} {c : Char}
    {cs r : List Char} {f : Front}
    (hfront : front (.initial .plain) depth behind start (c :: cs) = f) (hrest : f.rest? = some r)
    (hbare : depth = 0 → c ≠ '"' ∧ c ≠ '}') :
    front (.sectionFrom n) depth behind start (c :: cs) = f := by
  subst hfront
  refine front_inScope hrest (fun _ => ⟨nofun, nofun⟩) (fun _ => nofun) (fun h => ?_)
    fun h => absurd h Bool.false_ne_true
  exact hbare (by simpa [Scope.isBareSection, Scope.sectionFrom, Scope.sectionAt] using h)

theorem Interpolable.bare {source pre rest : List Char} {ts : List Token} {st : State} {a : Atom}
    {c : Char} {cs : List Char} (hts : Interpolable source ts.reverse) (hst : st.Counts)
    (hsource : source = pre ++ c :: cs ++ rest) (hpos : st.position = after pre)
    (hfront : front (.initial .plain) st.depth st.behind st.position (c :: cs ++ rest)
      = .atom a (c :: cs) rest)
    (hsuffix : (st.push (.atom a) (c :: cs)).tokens <:+ ts) (hdepth : st.depth = 0) :
    c ≠ '"' ∧ c ≠ '}' := by
  have hnet : braceNet st.tokens.reverse = 0 := by
    rw [← hst, hdepth]
    rfl
  constructor
  · rintro rfl
    have hquoted : Lexeme.quoted st.position (cs ++ rest) = .atom a ('"' :: cs) rest := hfront
    obtain ⟨text, x, hatom⟩ := quoted_atom (congrArg Front.rest? hquoted)
    obtain ⟨rfl, _⟩ := Front.atom.inj (hquoted.symm.trans hatom)
    obtain ⟨more, rfl⟩ := hsuffix
    have hpositive := hts.quoted st.tokens.reverse _ more.reverse (by simp [State.push]; rfl)
      ⟨⟨text, rfl⟩, cs, by rw [hsource]; exact Located.text?_append hpos (by rw [← hpos]) rest⟩
    omega
  · rintro rfl
    have hbrace : Lexeme.symbol '}' (cs ++ rest) = .atom a ('}' :: cs) rest := hfront
    rw [symbol_closeBrace] at hbrace
    obtain ⟨rfl, _⟩ := Front.atom.inj hbrace
    have hnested := hts.nested _ (List.reverse_prefix.mpr hsuffix)
    simp only [State.push, List.reverse_cons, braceNet_concat, hnet, Kind.braceNet] at hnested
    omega

/-! ## plain runs in a section -/

/-- the run over a source that may be a section is one in a section, and its braces are those of the
tokens -/
theorem Reads.intoSection {source : List Char} {n : Nat} {st st' : State} {x : List Char}
    (h : Reads (.tokens (.initial .plain) st) x [] (.tokens (.initial .plain) st')) :
    ∀ pre, source = pre ++ x → st.position = after pre → st.Counts →
      Interpolable source st'.tokens.reverse →
      Reads (.tokens (.sectionFrom n) st) x [] (.tokens (.sectionFrom n) st') ∧ st'.Counts := by
  induction h using Reads.toEnd with
  | done => exact fun _ _ _ hst _ => ⟨.done, hst⟩
  | @blank st c x hfront hnext ih =>
    intro pre hsource hpos hst hts
    have hbare : c ≠ '"' ∧ c ≠ '}' := by
      constructor
      · rintro rfl
        have hquoted : Lexeme.quoted st.position x = .blank '"' x := hfront
        obtain ⟨_, _, hatom⟩ := quoted_atom (congrArg Front.rest? hquoted)
        exact nomatch hquoted.symm.trans hatom
      · rintro rfl
        exact nomatch (symbol_closeBrace x).symm.trans hfront
    obtain ⟨hreads, hcounts⟩ := ih (pre ++ [c]) (by simp [hsource])
      (by rw [Position.after_append_singleton, ← hpos]; rfl) hst hts
    refine ⟨.blank ?_ hreads, hcounts⟩
    rw [List.append_nil]
    exact front_sectionFrom hfront rfl fun _ => hbare
  | @atom st a text x hfront hnext ih =>
    intro pre hsource hpos hst hts
    have hsuffix := hnext.tokens_suffix
    have htakes := front_takes (.initial .plain) st.depth st.behind st.position (text ++ x)
    rw [hfront] at htakes
    obtain ⟨c, text, rfl⟩ := List.exists_cons_of_ne_nil htakes.2
    have hbare := hts.bare hst (by simp [hsource]) hpos hfront hsuffix
    obtain ⟨hreads, hcounts⟩ := ih (pre ++ (c :: text)) (by simp [hsource])
      (by rw [← Position.advance_after, ← hpos]; rfl) (hst.push hts hsuffix) hts
    refine ⟨.atom ?_ hreads, hcounts⟩
    rw [List.append_nil]
    exact front_sectionFrom hfront rfl hbare
  | @template st body x d t hbody hfinish hnext ih =>
    intro pre hsource hpos hst hts
    obtain rfl : t.body = body := hbody.body_eq hfinish
    obtain ⟨hreads, hcounts⟩ := ih (pre ++ (Front.templateOpening ++ t.body ++ ['"']))
      (by simp [hsource]) (by rw [← Position.advance_after, ← hpos]; rfl)
      (hst.push hts hnext.tokens_suffix) hts
    have hbody' : Reads (.beginTemplate (.sectionFrom n) st.position) t.body ('"' :: (x ++ []))
        (.template (.sectionFrom n) st.position d) :=
      hbody.relocate (fun h => absurd h Bool.false_ne_true) rfl fun h => nomatch h
    exact ⟨.template (front_templateOpening _ _ _ _ _) hbody' hfinish hreads, hcounts⟩
  | @macroDef st st₁ header body x e hfront hbody hexit hnext ih =>
    intro pre hsource hpos hst hts
    obtain ⟨hreads, hcounts⟩ := ih (pre ++ (header.lead ++ (header.names ++ body)))
      (by simp [hsource]) (by rw [← Position.advance_after, ← hpos]; rfl)
      (hst.push hts hnext.tokens_suffix) hts
    rw [← List.append_nil x] at hbody hexit
    refine ⟨.macroDef ?_ hbody hexit hreads, hcounts⟩
    rw [List.append_nil]
    obtain ⟨cs, hcs, _⟩ := front_macroDef hfront
    rw [hcs] at hfront ⊢
    exact front_sectionFrom hfront rfl fun _ => by decide

/-! ## one level -/

/-- the source as the only section of a template -/
def interpolated (s : String) : String := "$\"\x7b" ++ s ++ "\x7d\""

/-- that template, if the tokens of the source are `ts` -/
def interpolatedTemplate (s : String) (ts : List Token) : Template Token where
  lexeme := "\x7b" ++ s ++ "\x7d"
  decoded := "0"
  sections := [⟨⟨2, s.utf8ByteSize + 4⟩, ⟨0, s.utf8ByteSize + 2⟩, embedTokens ⟨3, 0, 0⟩ ts⟩]

/-- its token, which is all there is -/
def interpolatedToken (s : String) (ts : List Token) : Token :=
  ⟨.template (interpolatedTemplate s ts), .start, after (interpolated s).toList⟩

theorem toList_interpolated (s : String) :
    (interpolated s).toList = Front.templateOpening ++ '{' :: (s.toList ++ ['}', '"']) := by
  simp [interpolated, Front.templateOpening]

theorem utf8ByteSize_interpolated (s : String) :
    (interpolated s).utf8ByteSize = s.utf8ByteSize + 5 := by
  rw [← byteLength_toList, toList_interpolated, ← byteLength_toList s, byteLength_append,
    byteLength_cons, byteLength_append]
  show 2 + (1 + (byteLength s.toList + 2)) = _
  omega

theorem scanTokens_section {s : String} {ts : List Token} (h : scan s = .ok ts)
    (hs : Interpolable s.toList ts) :
    ∃ r, scanTokens (.sectionFrom 2) (.start ⟨3, 0, 0⟩) (s.toList ++ ['}', '"']) = .ok r ∧
      r.tokens = embedTokens ⟨3, 0, 0⟩ ts ∧ r.count = s.toList.length := by
  obtain ⟨st, hplain, rfl⟩ := scan_plain_reads h
  obtain ⟨hreads, hcounts⟩ := Reads.intoSection (n := 0) hplain [] rfl rfl rfl hs
  have hclosed : st.behind ≠ .lineEnd := fun hline => hs.closed (hplain.behind_iff.mp hline)
  have hbrace : Reads (.tokens (.sectionFrom 0) (.start .start)) s.toList ['}', '"']
      (.tokens (.sectionFrom 0) st) :=
    hreads.relocate (Scope.eases_refl _) (.inl (break_cons.mpr (by decide))) fun h => absurd h hclosed
  have hdepth : st.depth = 0 := by
    have hzero : (st.depth : ℤ) = 0 := hcounts.trans hs.settled
    omega
  have hexit : front (.sectionFrom 0) st.depth st.behind st.position ['}', '"'] = .exit .brace := by
    rw [front_exit_iff, hdepth]
    exact ⟨rfl, rfl⟩
  have hscan : scanTokens (.sectionFrom 0) (.start .start) (s.toList ++ ['}', '"'])
      = .ok (st.finish .brace) := hbrace.scanTokens_ok hexit
  -- moved by three bytes, the scope begins there too; where it begins only matters to errors
  have hmoved : (Scope.sectionFrom 0).Moved ⟨3, 0, 0⟩ (.sectionFrom 3) := ⟨rfl, rfl, fun _ => rfl⟩
  have heases : (Scope.sectionFrom 3).Eases (.sectionFrom 2) := ⟨rfl, id⟩
  have hembed := scanTokens_embed hmoved (State.moved_start ⟨3, 0, 0⟩ _ .start)
    (s.toList ++ ['}', '"'])
  rw [hscan, Position.embed_start] at hembed
  refine ⟨(st.finish .brace).embed ⟨3, 0, 0⟩ [] 0, scanTokens_ease heases hembed, rfl, ?_⟩
  exact Reads.count_eq hbrace

theorem finish_interpolated (s : String) (ts : List Token) :
    ((Draft.start ⟨2, 0, 0⟩).addBraces .start s.toList (embedTokens ⟨3, 0, 0⟩ ts)).finish .start
      = .ok ⟨interpolatedTemplate s ts, '{' :: s.toList ++ ['}']⟩ := by
  have hsize : byteLength ('{' :: s.toList ++ ['}']) = s.utf8ByteSize + 2 := by
    rw [byteLength_append, byteLength_cons, byteLength_toList, Nat.add_comm ('{' : Char).utf8Size]
    rfl
  have hlexeme : String.ofList ('{' :: s.toList ++ ['}']) = "\x7b" ++ s ++ "\x7d" := by
    rw [← String.toList_inj]
    simp
  have hnumber : decodeEscapes ['0'] = .ok ['0'] := by decide +kernel
  simp only [Draft.finish, Draft.addBraces, Draft.addSection, Draft.start, hsize, Nat.zero_add,
    List.append_nil, List.reverse_reverse, List.length_nil, hlexeme]
  rw [show (Nat.toDigits 10 0) = ['0'] from rfl, hnumber]
  rfl

theorem scanTemplate_interpolated {s : String} {ts : List Token} (h : scan s = .ok ts)
    (hs : Interpolable s.toList ts) :
    scanTemplate (.initial .plain) .start (.start ⟨2, 0, 0⟩) ('{' :: (s.toList ++ ['}', '"']))
      = .ok ⟨interpolatedTemplate s ts, '{' :: s.toList ++ ['}']⟩ := by
  obtain ⟨r, hsection, htokens, hcount⟩ := scanTokens_section h hs
  have hsection : scanTokens
      ((Scope.initial .plain).sectionAt (Draft.start ⟨2, 0, 0⟩).position.offset)
      (.start ((Draft.start ⟨2, 0, 0⟩).position.next '{')) (s.toList ++ ['}', '"']) = .ok r :=
    hsection
  have hrest : (s.toList ++ ['}', '"']).drop (s.toList.length + 1) = ['"'] :=
    List.drop_length_add_append 1
  rw [scanTemplate_eq, piece]
  simp only [hsection, hcount, List.take_left, hrest, htokens, scanTemplate_quote]
  exact finish_interpolated s ts

theorem scan_eq_interpolated {s : String} {ts : List Token} (h : scan s = .ok ts)
    (hs : Interpolable s.toList ts) (hsize : (interpolated s).utf8ByteSize ≤ countLimit) :
    scan (interpolated s) = .ok [interpolatedToken s ts] := by
  have htemplate : scanTemplate (.initial .plain) .start
      (.start (Position.start.advance Front.templateOpening)) ('{' :: s.toList ++ ['}'] ++ ['"'])
      = .ok ⟨interpolatedTemplate s ts, '{' :: s.toList ++ ['}']⟩ := by
    rw [List.append_assoc]
    exact scanTemplate_interpolated h hs
  rw [scan_of_template (by rwa [byteLength_toList]) (by simp [toList_interpolated]) htemplate]
  rfl

/-! ## any depth -/

/-- what a template makes of a source is such a source again -/
theorem interpolable_interpolated (s : String) (ts : List Token) :
    Interpolable (interpolated s).toList [interpolatedToken s ts] where
  nested u hu := by
    rcases List.prefix_cons_iff.mp hu with rfl | ⟨v, rfl, hv⟩
    · exact Int.le_refl 0
    · rw [List.prefix_nil.mp hv]
      exact Int.le_refl 0
  settled := rfl
  quoted u t v h hquoted := by
    obtain ⟨text, htext⟩ := hquoted.1
    have ht : t ∈ [interpolatedToken s ts] := h ▸ by simp
    rw [List.mem_singleton.mp ht] at htext
    cases htext
  closed := by
    rintro ⟨t, ht, htakes, _⟩
    obtain rfl : interpolatedToken s ts = t := Option.some.inj ht
    exact htakes

/-- the tokens of the source, `n` templates deep -/
def interpolatedTokens (s : String) (ts : List Token) : Nat → List Token
  | 0 => ts
  | n + 1 => [interpolatedToken (interpolated^[n] s) (interpolatedTokens s ts n)]

/-- interpolation is transparent: a source may stand in a template, and so in templates at any
depth -/
theorem scan_interpolated {s : String} {ts : List Token} (h : scan s = .ok ts)
    (hs : Interpolable s.toList ts) :
    ((interpolated s).utf8ByteSize ≤ countLimit →
      scan (interpolated s) = .ok [interpolatedToken s ts]) ∧
    ∀ n, (interpolated^[n] s).utf8ByteSize ≤ countLimit →
      scan (interpolated^[n] s) = .ok (interpolatedTokens s ts n) := by
  refine ⟨scan_eq_interpolated h hs, fun n hsize => ?_⟩
  have hall : Interpolable (interpolated^[n] s).toList (interpolatedTokens s ts n) ∧
      scan (interpolated^[n] s) = .ok (interpolatedTokens s ts n) := by
    induction n with
    | zero => exact ⟨hs, h⟩
    | succ n ih =>
      rw [Function.iterate_succ_apply'] at hsize ⊢
      have hfits := hsize
      rw [utf8ByteSize_interpolated] at hfits
      obtain ⟨hs', h'⟩ := ih (by omega)
      exact ⟨interpolable_interpolated _ _, scan_eq_interpolated h' hs' hsize⟩
  exact hall.2

/-- a string in braces, on the second line, in two templates -/
theorem scan_interpolated_string :
    ∃ ts, scan "\x7b\n\"a\"\x7d" = .ok ts ∧ Interpolable "\x7b\n\"a\"\x7d".toList ts ∧
      ts.length = 4 ∧
      scan (interpolated "\x7b\n\"a\"\x7d") = .ok [interpolatedToken "\x7b\n\"a\"\x7d" ts] ∧
      scan "$\"\x7b$\"\x7b\x7b\n\"a\"\x7d\x7d\"\x7d\""
        = .ok (interpolatedTokens "\x7b\n\"a\"\x7d" ts 2) := by
  refine ⟨[⟨.atom (.dual .openBrace .symbol), ⟨0, 0, 0⟩, ⟨1, 0, 0⟩⟩,
      ⟨.atom .newline, ⟨1, 0, 0⟩, ⟨2, 0, 0⟩⟩,
      ⟨.atom (.string "a"), ⟨2, 1, 2⟩, ⟨5, 1, 2⟩⟩,
      ⟨.atom (.dual .closeBrace .symbol), ⟨5, 1, 2⟩, ⟨6, 1, 2⟩⟩], ?h, ?hs, rfl,
    (scan_interpolated ?h ?hs).1 (by decide), (scan_interpolated ?h ?hs).2 2 (by decide)⟩
  case h => decide +kernel
  case hs =>
    refine ⟨fun u hu => ?_, rfl, fun u t v h hquoted => ?_, ?_⟩
    · simp [List.prefix_cons_iff] at hu
      rcases hu with rfl | ⟨_, rfl, rfl | ⟨_, rfl, rfl | ⟨_, rfl, rfl | rfl⟩⟩⟩ <;> decide
    · obtain ⟨text, htext⟩ := hquoted.1
      simp [List.cons_eq_append_iff] at h
      rcases h with ⟨rfl, rfl, rfl⟩ |
        ⟨_, rfl, ⟨rfl, rfl, rfl⟩ | ⟨_, rfl, ⟨rfl, rfl, rfl⟩ | ⟨rfl, rfl, rfl⟩⟩⟩
      · cases htext
      · cases htext
      · decide
      · cases htext
    · rintro ⟨t, ⟨⟩, htakes, _⟩
      exact htakes

end ScriptLexer

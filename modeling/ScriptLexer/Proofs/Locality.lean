import Mathlib.Data.List.Find
import ScriptLexer.Proofs.Break
import ScriptLexer.Proofs.Decisions

/-!
# Decisions look no further than they take

`front_local` says that a decision that leaves the text `y` is the same in front of any text that may
follow in place of `y`; see `Local`.  One lemma for each lexeme leads there.  Most lexemes are a run of a
class, or look at one more character and then are; the others stop at a delimiter, and only the text up to
that one decides where it is (`quotedBody_local`, `blockBody_local`).

Signs look two characters ahead, but behind its first character no break occurs in a spelling, and no
opener but as its last character (`symbolTable_breaks`, `symbolTable_openers`).
-/

namespace ScriptLexer

/-! ## the lexemes -/

namespace Lexeme

theorem word_local (c : Char) : Local (word c) := by
  intro u x y y' h hy _
  have hrest : (u ++ y).dropWhile isWordPart = x ++ y := Option.some.inj h
  obtain ⟨htake, hdrop⟩ := span_local hrest fun _ => hy.stops (by decide)
  simp only [word, htake, hdrop, Front.withRest]

theorem symbolTable_breaks : ∀ e ∈ symbolTable, ∀ c ∈ e.1.tail, c ∉ breaks := by
  have hall : (symbolTable.all fun e => e.1.tail.all (!breaks.contains ·)) = true := by decide
  intro e he c hc
  have htail := List.all_eq_true.mp (List.all_eq_true.mp hall e he) c hc
  simpa using htail

theorem symbolTable_openers : ∀ e ∈ symbolTable, ∀ c ∈ e.1.tail.dropLast, c ∉ openers := by
  have hall : (symbolTable.all fun e => e.1.tail.dropLast.all (!openers.contains ·)) = true := by
    decide
  intro e he c hc
  have htail := List.all_eq_true.mp (List.all_eq_true.mp hall e he) c hc
  simpa using htail

/-- a spelling that fits ends in front of what follows, or with the opener that this begins with -/
theorem prefix_of_follows {e : List Char × Atom} (he : e ∈ symbolTable) {c : Char}
    {u y y' : List Char} (hy : Follows y y') (h : e.1 <+: c :: (u ++ y')) :
    e.1 <+: c :: (u ++ y) := by
  obtain ⟨t, ht⟩ := h
  rw [← List.cons_append] at ht ⊢
  rcases List.append_eq_append_iff.mp ht with ⟨z, hz, _⟩ | ⟨z, hz, rfl⟩
  · exact ⟨z ++ y, by rw [← List.append_assoc, hz]⟩
  · cases z with
    | nil => exact ⟨y, by rw [hz, List.append_nil]⟩
    | cons d z =>
      rcases hy with hbreak | ⟨d', w, w', hd', rfl, hw'⟩
      · have hd : d ∈ e.1.tail := by simp [hz]
        exact absurd (break_cons.mp hbreak) (symbolTable_breaks e he d hd)
      · obtain ⟨rfl, _⟩ := List.cons.inj hw'
        -- behind an opener no spelling goes on
        obtain rfl : z = [] := by
          refine List.eq_nil_iff_forall_not_mem.mpr fun x hx => ?_
          have hlast : d ∈ e.1.tail.dropLast := by
            rw [hz, List.cons_append, List.tail_cons, List.dropLast_append_of_ne_nil (by simp),
              List.dropLast_cons_of_ne_nil (List.ne_nil_of_mem hx)]
            simp
          exact symbolTable_openers e he d hlast hd'
        exact ⟨w, by rw [hz, List.append_assoc]; rfl⟩

/-- the spellings that fit are the same if the longest one ends within `u` -/
theorem symbol?_of_follows {c : Char} {u y y' : List Char} (hy : Follows y y')
    (hfound : ∀ e, symbol? (c :: (u ++ y)) = some e → e.1 <+: c :: u) :
    symbol? (c :: (u ++ y')) = symbol? (c :: (u ++ y)) := by
  have hlonger : ∀ z, c :: u <+: c :: (u ++ z) := fun z => ⟨z, rfl⟩
  refine List.find?_congr fun f hf => Bool.eq_iff_iff.mpr ?_
  rw [List.isPrefixOf_iff_prefix, List.isPrefixOf_iff_prefix]
  constructor
  · exact prefix_of_follows hf hy
  · intro h
    obtain ⟨e, he⟩ : ∃ e, symbol? (c :: (u ++ y)) = some e := by
      refine Option.isSome_iff_exists.mp (List.find?_isSome.mpr ⟨f, hf, ?_⟩)
      exact List.isPrefixOf_iff_prefix.mpr h
    have hfe : f.1 <+: e.1 := List.prefix_of_prefix_length_le h ((hfound e he).trans (hlonger y))
      (symbol?_longest he hf h)
    exact (hfe.trans (hfound e he)).trans (hlonger y')

theorem symbol_local (c : Char) : Local (symbol c) := by
  intro u x y y' h hy _
  have htakes := symbol_takes c (u ++ y)
  have hsame : symbol? (c :: (u ++ y')) = symbol? (c :: (u ++ y)) := by
    refine symbol?_of_follows hy fun e he => ?_
    unfold symbol at h htakes
    rw [he] at h htakes
    obtain ⟨htakes, _⟩ := htakes
    rw [Option.some.inj h] at htakes
    exact ⟨x, (append_eq_of_append (u := c :: u) htakes.symm).symm⟩
  unfold symbol at h htakes ⊢
  rw [hsame]
  cases he : symbol? (c :: (u ++ y)) with
  | none =>
    simp only [he] at h
    obtain rfl := List.append_cancel_right (Option.some.inj h)
    rfl
  | some e =>
    simp only [he] at h htakes ⊢
    rw [Option.some.inj h] at htakes
    have hu : c :: u = e.1 ++ x := append_eq_of_append htakes.1.symm
    rw [← List.cons_append, hu, List.append_assoc, List.drop_left]
    rfl

/-! ### numerals -/

theorem integer_rest {base : Base} {radix : Radix} {start : Position}
    {lexeme digits rest r : List Char}
    (h : (integer base radix start lexeme digits rest).rest? = some r) : rest = r := by
  unfold integer at h
  split at h
  · exact Option.some.inj h
  · cases h

theorem integer_withRest (base : Base) (radix : Radix) (start : Position)
    (lexeme digits rest rest' : List Char) :
    integer base radix start lexeme digits rest'
      = (integer base radix start lexeme digits rest).withRest rest' := by
  unfold integer
  split <;> rfl

theorem float_local (whole : List Char) : Local (float whole) := by
  intro u x y y' h hy _
  have hrest : (u ++ y).dropWhile isDecimalPart = x ++ y := Option.some.inj h
  obtain ⟨htake, hdrop⟩ := span_local hrest fun _ => hy.stops (by decide)
  simp only [float, htake, hdrop, Front.withRest]

theorem inBase_local (base : Base) (radix : Radix) (start : Position) (lead : List Char) :
    Local (inBase base radix start lead) := by
  intro u x y y' h hy _
  unfold inBase at h ⊢
  simp only at h ⊢
  split at h
  · cases h
  · rename_i hcount
    obtain ⟨htake, hdrop⟩ :=
      span_local (integer_rest h) fun _ => hy.stops (noEdge_isPart base)
    rw [htake, hdrop, if_neg hcount, if_neg hcount]
    exact integer_withRest _ _ _ _ _ _ _

theorem inBase_rest {base : Base} {radix : Radix} {start : Position} {lead cs r : List Char}
    (h : (inBase base radix start lead cs).rest? = some r) :
    r = cs.dropWhile base.isPart := by
  unfold inBase at h
  simp only at h
  split at h
  · cases h
  · exact (integer_rest h).symm

theorem decimal_of_point (start : Position) (c : Char) {cs rest : List Char}
    (h : cs.dropWhile isDecimalPart = '.' :: rest) :
    decimal start c cs = float (c :: cs.takeWhile isDecimalPart) rest := by
  simp only [decimal, h]

theorem decimal_of_ne (start : Position) (c : Char) {cs : List Char}
    (h : ∀ rest, cs.dropWhile isDecimalPart ≠ '.' :: rest) :
    decimal start c cs = integer .decimal .int start (c :: cs.takeWhile isDecimalPart)
      (c :: cs.takeWhile isDecimalPart) (cs.dropWhile isDecimalPart) := by
  unfold decimal
  split
  · rename_i rest hrest
    exact absurd hrest (h rest)
  · rfl

theorem decimal_local (start : Position) (c : Char) : Local (decimal start c) := by
  intro u x y y' h hy hline
  by_cases hpoint : ∃ rest, (u ++ y).dropWhile isDecimalPart = '.' :: rest
  · obtain ⟨rest, hdrop⟩ := hpoint
    rw [decimal_of_point start c hdrop] at h hline ⊢
    obtain ⟨w, rfl⟩ := exists_left_of_dropWhile (Option.some.inj h)
    obtain ⟨htake', hdrop'⟩ := span_local (x := '.' :: w) hdrop (z := y') fun h => nomatch h
    rw [decimal_of_point start c hdrop', htake']
    exact float_local _ h hy hline
  · have hne := not_exists.mp hpoint
    rw [decimal_of_ne start c hne] at h ⊢
    have hdrop := integer_rest h
    obtain ⟨htake', hdrop'⟩ := span_local hdrop (z := y') fun _ => hy.stops (by decide)
    -- a point would have to be the first character behind the digits, which is as before or an edge
    have hne' : ∀ rest, (u ++ y').dropWhile isDecimalPart ≠ '.' :: rest := by
      intro rest hrest
      rw [hdrop'] at hrest
      cases x with
      | nil =>
        subst hrest
        exact absurd (hy.edge '.' rfl) (by decide)
      | cons d x =>
        obtain ⟨rfl, _⟩ := List.cons.inj hrest
        exact hne _ hdrop
    rw [decimal_of_ne start c hne', htake', hdrop']
    exact integer_withRest _ _ _ _ _ _ _

theorem numeral_local (start : Position) (c : Char) : Local (numeral start c) := by
  refine Local.peek (decimal_local start c) (fun d => ?_) rfl ?_ (fun d => ?_)
  · exact .ite (inBase_local _ _ _ _) (.ite (inBase_local _ _ _ _) ((decimal_local start c).cons d))
  · intro d hd cs
    have hx : ¬(d = 'x' ∨ d = 'X') :=
      not_or.mpr ⟨ne_of_mem_breaks hd (by decide), ne_of_mem_breaks hd (by decide)⟩
    have hb : ¬(d = 'b' ∨ d = 'B') :=
      not_or.mpr ⟨ne_of_mem_breaks hd (by decide), ne_of_mem_breaks hd (by decide)⟩
    rw [numeral, if_neg fun h => hx h.2, if_neg fun h => hb h.2]
  · by_cases hx : c = '0' ∧ (d = 'x' ∨ d = 'X')
    · right
      intro cs r h
      rw [numeral, if_pos hx] at h
      rw [inBase_rest h]
      exact (List.dropWhile_suffix _).length_le
    by_cases hb : c = '0' ∧ (d = 'b' ∨ d = 'B')
    · right
      intro cs r h
      rw [numeral, if_neg hx, if_pos hb] at h
      rw [inBase_rest h]
      exact (List.dropWhile_suffix _).length_le
    · exact .inl fun cs => by rw [numeral, if_neg hx, if_neg hb]

theorem point_local (behind : Behind) : Local (point behind) := by
  refine Local.peek (symbol_local '.') (fun d => ?_) rfl ?_ (fun d => ?_)
  · exact .ite ((float_local []).cons d) ((symbol_local '.').cons d)
  · intro d hd cs
    have hdigit : d.isDigit = false :=
      NoEdge.eq_false (p := Char.isDigit) (by decide) (mem_edges_of_breaks hd)
    rw [point, if_neg (by simp [hdigit])]
  · by_cases hdigit : d.isDigit = true ∧ behind ≠ .float
    · right
      intro cs r h
      rw [point, if_pos hdigit] at h
      have hdrop : (d :: cs).dropWhile isDecimalPart = r := Option.some.inj h
      rw [← hdrop, List.dropWhile_cons_of_pos (by simp [isDecimalPart, hdigit.1])]
      exact (List.dropWhile_suffix _).length_le
    · exact .inl fun cs => by rw [point, if_neg hdigit]

/-! ### quotations -/

/-- only the text up to the closing quote decides where that is -/
theorem quotedBody_local {done z body rest : List Char}
    (h : quotedBody done z = .closed body rest) :
    ∃ w, z = w ++ rest ∧ ∀ rest', quotedBody done (w ++ rest') = .closed body rest' := by
  fun_induction quotedBody done z with
  | case1 => cases h
  | case2 done cs =>
    cases h
    exact ⟨['"'], rfl, fun _ => rfl⟩
  | case3 => cases h
  | case4 => cases h
  | case5 done c cs hc ih =>
    obtain ⟨w, rfl, hw⟩ := ih h
    refine ⟨'\\' :: c :: w, rfl, fun rest' => ?_⟩
    rw [← hw rest', List.cons_append, List.cons_append, quotedBody, if_neg hc]
  | case6 done c cs hquote hbreak hescape ih =>
    obtain ⟨w, rfl, hw⟩ := ih h
    refine ⟨c :: w, rfl, fun rest' => ?_⟩
    -- a backslash is followed by a character, or there would be no closing quote
    have hc : c ≠ '\\' := by
      rintro rfl
      cases hcs : w ++ rest with
      | nil =>
        rw [hcs] at h
        cases h
      | cons d cs => exact hescape d cs rfl hcs
    rw [← hw rest', List.cons_append, quotedBody]
    · exact hquote
    · exact hbreak
    · exact fun d cs h _ => hc h

theorem quoted_local (start : Position) : Local (quoted start) := by
  intro u x y y' h _ _
  unfold quoted at h ⊢
  cases hq : quotedBody [] (u ++ y) with
  | unterminated => simp [hq, Front.rest?] at h
  | lineBreak before => simp [hq, Front.rest?] at h
  | closed body rest =>
    obtain ⟨w, hw, hclosed⟩ := quotedBody_local hq
    simp only [hq] at h ⊢
    cases hdecode : decodeEscapes body with
    | error e => simp [hdecode, Front.rest?] at h
    | ok text =>
      simp only [hdecode] at h
      obtain rfl : rest = x ++ y := Option.some.inj h
      rw [append_eq_of_append hw, List.append_assoc, hclosed]
      simp only [hdecode, Front.withRest]

theorem raw_local (start : Position) (quote : Char) : Local (raw start quote) := by
  intro u x y y' h _ _
  unfold raw at h ⊢
  simp only at h ⊢
  cases hdrop : (u ++ y).dropWhile (· != quote) with
  | nil => simp [hdrop, Front.rest?] at h
  | cons q rest =>
    simp only [hdrop] at h
    obtain rfl : rest = x ++ y := Option.some.inj h
    obtain ⟨htake', hdrop'⟩ := span_local (x := q :: x) hdrop (z := y') fun h => nomatch h
    rw [htake', hdrop']
    rfl

theorem atSign_local (start : Position) : Local (atSign start) := by
  refine Local.peek (.blank '@') (fun q => ?_) rfl ?_ (fun q => ?_)
  · exact .ite (raw_local start q) ((Local.blank '@').cons q)
  · intro q hq cs
    rw [atSign, if_neg (not_or.mpr ⟨ne_of_mem_breaks hq (by decide),
      ne_of_mem_breaks hq (by decide)⟩)]
  · by_cases hquote : q = '"' ∨ q = '\''
    · right
      intro cs r h
      rw [atSign, if_pos hquote] at h
      unfold raw at h
      simp only at h
      have hle := (cs.dropWhile_suffix (· != q)).length_le
      split at h
      · rename_i hdrop
        cases h
        rw [hdrop, List.length_cons] at hle
        omega
      · cases h
    · exact .inl fun cs => by rw [atSign, if_neg hquote]

theorem dollar_local (start : Position) : Local (dollar start) := by
  refine Local.peek (.blank '$') (fun c => ?_) rfl ?_ (fun c => ?_)
  · exact .ite .template (.ite ((inBase_local _ _ _ _).cons c) ((Local.blank '$').cons c))
  · intro c hc cs
    have hhex : isHexPart c = false := (noEdge_isPart .hexadecimal).eq_false (mem_edges_of_breaks hc)
    rw [dollar, if_neg (ne_of_mem_breaks hc (by decide)), if_neg (by simp [hhex])]
  · by_cases hquote : c = '"'
    · right
      intro cs r h
      rw [dollar, if_pos hquote] at h
      cases h
      exact Nat.le_refl _
    by_cases hhex : isHexPart c = true
    · right
      intro cs r h
      rw [dollar, if_neg hquote, if_pos hhex] at h
      have hdrop : r = (c :: cs).dropWhile isHexPart := inBase_rest h
      rw [hdrop, List.dropWhile_cons_of_pos hhex]
      exact (List.dropWhile_suffix _).length_le
    · exact .inl fun cs => by rw [dollar, if_neg hquote, if_neg hhex]

/-! ### comments -/

theorem line_local : Local line := by
  intro u x y y' h _ hline
  have hrest : (u ++ y).dropWhile (· != '\n') = x ++ y := Option.some.inj h
  have hstop : x = [] → ∀ c ∈ y'.head?, (c != '\n') = false := by
    rintro rfl
    exact (hline rfl rfl (lineEnd_of_dropWhile hrest)).stops (by decide)
  obtain ⟨htake, hdrop⟩ := span_local hrest hstop
  simp only [line, htake, hdrop, Front.withRest]

/-- only the text up to the closing delimiter decides where that is -/
theorem blockBody_local {depth : Nat} {done z text rest : List Char}
    (h : blockBody depth done z = some (text, rest)) :
    ∃ w, z = w ++ rest ∧ w ≠ [] ∧
      ∀ rest', blockBody depth done (w ++ rest') = some (text, rest') := by
  fun_induction blockBody depth done z with
  | case1 => cases h
  | case2 depth done cs ih =>
    obtain ⟨w, rfl, _, hw⟩ := ih h
    exact ⟨'/' :: '*' :: w, rfl, by simp, fun rest' => hw rest'⟩
  | case3 done cs =>
    cases h
    exact ⟨['*', '/'], rfl, by simp, fun _ => rfl⟩
  | case4 done cs depth ih =>
    obtain ⟨w, rfl, _, hw⟩ := ih h
    exact ⟨'*' :: '/' :: w, rfl, by simp, fun rest' => hw rest'⟩
  | case5 depth done c cs hopen hclose ih =>
    obtain ⟨w, rfl, hne, hw⟩ := ih h
    refine ⟨c :: w, rfl, by simp, fun rest' => ?_⟩
    -- behind `c` the text begins as before, so `c` begins no delimiter now either
    obtain ⟨d, w, rfl⟩ := List.exists_cons_of_ne_nil hne
    rw [← hw rest', List.cons_append, blockBody]
    · rintro cs rfl ⟨⟩
      exact hopen _ rfl rfl
    · rintro cs rfl ⟨⟩
      exact hclose _ rfl rfl

theorem block_local (start : Position) : Local (block start) := by
  intro u x y y' h _ _
  unfold block at h ⊢
  cases hb : blockBody 0 [] (u ++ y) with
  | none => simp [hb, Front.rest?] at h
  | some found =>
    obtain ⟨text, rest⟩ := found
    obtain ⟨w, hw, _, hclosed⟩ := blockBody_local hb
    simp only [hb] at h ⊢
    obtain rfl : rest = x ++ y := Option.some.inj h
    rw [append_eq_of_append hw, List.append_assoc, hclosed]
    rfl

theorem slash_local (start : Position) : Local (slash start) := by
  refine Local.peek (symbol_local '/') (fun c => ?_) rfl ?_ (fun c => ?_)
  · exact .ite line_local (.ite (block_local start) ((symbol_local '/').cons c))
  · intro c hc cs
    rw [slash, if_neg (ne_of_mem_breaks hc (by decide)),
      if_neg (ne_of_mem_breaks hc (by decide))]
  · by_cases hline : c = '/'
    · right
      intro cs r h
      rw [slash, if_pos hline] at h
      cases h
      exact (List.dropWhile_suffix _).length_le
    by_cases hblock : c = '*'
    · right
      intro cs r h
      rw [slash, if_neg hline, if_pos hblock] at h
      unfold block at h
      split at h
      · rename_i text rest hb
        cases h
        have := congrArg List.length (blockBody_append 0 [] cs hb)
        simp only [List.length_append, List.length_cons, List.reverse_nil, List.nil_append] at this
        omega
      · cases h
    · exact .inl fun cs => by rw [slash, if_neg hline, if_neg hblock]

/-! ### directives -/

theorem region_local {atom : String → Atom} (hatom : ∀ text, (atom text).behind = .lineEnd)
    (lead : List Char) : Local (region atom lead) := by
  intro u x y y' h _ hline
  have hrest : ((u ++ y).dropWhile isBlank).dropWhile (· != '\n') = x ++ y := Option.some.inj h
  have hend : x = [] → LineEnd y' := by
    rintro rfl
    exact hline (hatom _) rfl (lineEnd_of_dropWhile hrest)
  obtain ⟨w, hw⟩ := exists_left_of_dropWhile hrest
  rw [hw] at hrest
  have hx : w = [] → x = [] := by
    rintro rfl
    exact eq_nil_of_suffix (hrest ▸ List.dropWhile_suffix _)
  obtain ⟨hblanks, hbehind⟩ := span_local hw fun h => (hend (hx h)).stops (by decide)
  obtain ⟨htext, hdrop⟩ := span_local hrest fun h => (hend h).stops (by decide)
  simp only [region, hblanks, hbehind, hw, htext, hdrop, Front.withRest]

theorem colour_rest {start : Position} {digits rest r : List Char}
    (h : (colour start digits rest).rest? = some r) : rest = r := by
  unfold colour at h
  simp only at h
  split at h
  · cases h
  split at h
  · cases h
  split at h
  · exact Option.some.inj h
  · cases h

theorem colour_withRest (start : Position) (digits rest rest' : List Char) :
    colour start digits rest' = (colour start digits rest).withRest rest' := by
  unfold colour
  simp only
  split
  · rfl
  split
  · rfl
  split <;> rfl

theorem macroName_local {p : Position} {u x y y' name : List Char}
    (h : macroName p (u ++ y) = .ok (name, x ++ y)) (hy : x = [] → Follows y y') :
    macroName p (u ++ y') = .ok (name, x ++ y') := by
  cases u with
  | nil =>
    have happ := congrArg List.length (macroName_append h)
    have hpos := List.length_pos_iff.mpr (macroName_word h).1
    simp only [List.length_append, List.length_nil] at happ
    omega
  | cons c u =>
    rw [List.cons_append, macroName] at h ⊢
    split at h
    · cases h
    rename_i hbreak
    split at h
    · rename_i hstart
      obtain ⟨rfl, hdrop⟩ := Prod.mk.inj (Except.ok.inj h)
      obtain ⟨htake', hdrop'⟩ := span_local hdrop fun hx => (hy hx).stops (by decide)
      rw [if_neg hbreak, if_pos hstart, htake', hdrop']
    · cases h

theorem macroHeader_of_colon {start p q : Position} {lead cs first rest name rest' : List Char}
    (hp : p = start.advance (lead ++ cs.takeWhile isBlank))
    (hq : q = p.advance (first ++ [':']))
    (hfirst : macroName p (cs.dropWhile isBlank) = .ok (first, ':' :: rest))
    (hname : macroName q rest = .ok (name, rest')) :
    macroHeader start lead cs =
      .macroDef ⟨String.ofList name, some (String.ofList first), lead ++ cs.takeWhile isBlank,
        first ++ ':' :: name, p, q.advance name⟩ rest' := by
  subst hp hq
  simp only [macroHeader, hfirst, hname]

theorem macroHeader_of_name {start p : Position} {lead cs name rest : List Char}
    (hp : p = start.advance (lead ++ cs.takeWhile isBlank))
    (hname : macroName p (cs.dropWhile isBlank) = .ok (name, rest))
    (hcolon : ∀ z, rest ≠ ':' :: z) :
    macroHeader start lead cs =
      .macroDef ⟨String.ofList name, none, lead ++ cs.takeWhile isBlank, name, p, p.advance name⟩
        rest := by
  subst hp
  unfold macroHeader
  simp only [hname]

theorem macroHeader_local (start : Position) (lead : List Char) :
    Local (macroHeader start lead) := by
  intro u x y y' h hy _
  set p := start.advance (lead ++ (u ++ y).takeWhile isBlank) with hp
  cases hfirst : macroName p ((u ++ y).dropWhile isBlank) with
  | error e => simp [macroHeader, ← hp, hfirst, Front.rest?] at h
  | ok found =>
    obtain ⟨first, after⟩ := found
    have hbehind := macroName_append hfirst
    by_cases hcolon : ∃ rest, after = ':' :: rest
    · obtain ⟨rest, rfl⟩ := hcolon
      cases hname : macroName (p.advance (first ++ [':'])) rest with
      | error e => simp [macroHeader, ← hp, hfirst, hname, Front.rest?] at h
      | ok found =>
        obtain ⟨name, rest'⟩ := found
        rw [macroHeader_of_colon hp rfl hfirst hname] at h ⊢
        obtain rfl : rest' = x ++ y := Option.some.inj h
        obtain rfl := macroName_append hname
        have hdrop : (u ++ y).dropWhile isBlank = first ++ ':' :: (name ++ x) ++ y := by
          rw [← hbehind]
          simp
        obtain ⟨hblanks, hdrop'⟩ := span_local hdrop (z := y') fun h => by simp at h
        have hfirst' : macroName p ((u ++ y').dropWhile isBlank)
            = .ok (first, ':' :: (name ++ x ++ y')) := by
          rw [hdrop']
          rw [hdrop] at hfirst
          refine macroName_local (x := ':' :: (name ++ x)) (hfirst.trans ?_) fun h => nomatch h
          simp
        rw [← List.append_assoc] at hname
        have hname' := macroName_local hname fun _ => hy
        rw [macroHeader_of_colon (hblanks ▸ hp) rfl hfirst' hname', hblanks]
        rfl
    · have hne := not_exists.mp hcolon
      rw [macroHeader_of_name hp hfirst hne] at h ⊢
      obtain rfl : after = x ++ y := Option.some.inj h
      have hdrop : (u ++ y).dropWhile isBlank = first ++ x ++ y := by
        rw [← hbehind, List.append_assoc]
      have hnonempty := (macroName_word hfirst).1
      obtain ⟨hblanks, hdrop'⟩ := span_local hdrop (z := y') fun h => by simp [hnonempty] at h
      have hfirst' : macroName p ((u ++ y').dropWhile isBlank) = .ok (first, x ++ y') := by
        rw [hdrop']
        rw [hdrop] at hfirst
        exact macroName_local hfirst fun _ => hy
      have hne' : ∀ z, x ++ y' ≠ ':' :: z := by
        intro z hz
        cases x with
        | nil =>
          rw [List.nil_append] at hz
          subst hz
          exact absurd (hy.edge ':' rfl) (by decide)
        | cons d x =>
          obtain ⟨rfl, _⟩ := List.cons.inj hz
          exact hne _ rfl
      rw [macroHeader_of_name (hblanks ▸ hp) hfirst' hne', hblanks]
      rfl

theorem macroHeader_suffix {start : Position} {lead cs r : List Char}
    (h : (macroHeader start lead cs).rest? = some r) : r <:+ cs := by
  unfold macroHeader at h
  simp only at h
  split at h
  · cases h
  · rename_i first rest hfirst
    split at h
    · cases h
    · rename_i name rest' hname
      cases h
      have hsuffix : ':' :: rest <:+ cs.dropWhile isBlank := ⟨_, macroName_append hfirst⟩
      exact (List.IsSuffix.trans ⟨_, macroName_append hname⟩ (List.suffix_cons ':' rest)).trans
        (hsuffix.trans (cs.dropWhile_suffix isBlank))
  · rename_i name rest _ hname
    cases h
    exact List.IsSuffix.trans ⟨_, macroName_append hname⟩ (cs.dropWhile_suffix isBlank)

/-- a directive whose word has been read -/
def directiveAfter (scope : Scope) (start : Position) (word rest : List Char) : Front :=
  if word = "region".toList then region .region ('#' :: word) rest
  else if word = "endregion".toList then region .endRegion ('#' :: word) rest
  else if word = "macro".toList then
    if scope.inMacro then .fail (.report .nestedMacro start scope.start)
    else macroHeader start ('#' :: word) rest
  else if word.all isHexPart then colour start word rest
  else .fail (.report (.unknownDirective (String.ofList word)) start start.offset)

theorem directive_eq (scope : Scope) (start : Position) (cs : List Char) :
    directive scope start cs
      = directiveAfter scope start (cs.takeWhile isWordPart) (cs.dropWhile isWordPart) := rfl

theorem directiveAfter_local (scope : Scope) (start : Position) (word : List Char) :
    Local (directiveAfter scope start word) := by
  have hcolour : Local (colour start word) := .of_withRest colour_rest (colour_withRest start word)
  exact .ite (region_local (fun _ => rfl) _) (.ite (region_local (fun _ => rfl) _)
    (.ite (.ite (.fail _) (macroHeader_local start _)) (.ite hcolour (.fail _))))

theorem directiveAfter_suffix {scope : Scope} {start : Position} {word rest r : List Char}
    (h : (directiveAfter scope start word rest).rest? = some r) : r <:+ rest := by
  have hregion : ∀ {atom : String → Atom} {lead : List Char},
      (region atom lead rest).rest? = some r → r <:+ rest := by
    intro atom lead h
    cases h
    exact (List.dropWhile_suffix _).trans (List.dropWhile_suffix _)
  unfold directiveAfter at h
  split at h
  · exact hregion h
  split at h
  · exact hregion h
  split at h
  · split at h
    · cases h
    · exact macroHeader_suffix h
  split at h
  · exact colour_rest h ▸ List.suffix_refl _
  · cases h

theorem directive_local (scope : Scope) (start : Position) : Local (directive scope start) := by
  intro u x y y' h hy hline
  rw [directive_eq] at h hline ⊢
  obtain ⟨w, hw⟩ := directiveAfter_suffix h
  rw [← List.append_assoc] at hw
  obtain ⟨htake', hdrop'⟩ := span_local hw.symm (z := y') fun _ => hy.stops (by decide)
  rw [directive_eq, htake', hdrop']
  rw [← hw] at h hline ⊢
  exact directiveAfter_local scope start _ h hy hline

end Lexeme

/-! ## the choice between them -/

theorem lexeme_local (behind : Behind) (start : Position) (c : Char) :
    Local (lexeme behind start c) := by
  exact .ite (.blank c) (.ite (Lexeme.word_local c) (.ite (Lexeme.numeral_local start c)
    (.ite (Lexeme.point_local behind) (.ite (Lexeme.quoted_local start)
      (.ite (Lexeme.atSign_local start) (.ite (Lexeme.dollar_local start)
        (.ite (Lexeme.slash_local start) (Lexeme.symbol_local c))))))))

theorem atNewline_local (scope : Scope) (behind : Behind) : Local (atNewline scope behind) := by
  exact .ite (fun _ _ _ _ h _ _ => nomatch h) (.ite (.blank '\n') (.atom _ _))

theorem atBackslash_local (scope : Scope) (start : Position) :
    Local (atBackslash scope start) := by
  intro u x y y' h _ _
  unfold atBackslash at h ⊢
  split at h
  · cases h
  · rename_i hmode
    split at h
    · rename_i rest hcs
      obtain rfl : rest = x ++ y := Option.some.inj h
      have hu : u = '\n' :: x := append_eq_of_append (w := ['\n']) hcs
      rw [if_neg hmode, hu]
      simp only [List.cons_append, if_neg hmode, Front.withRest]
    · cases h

/-- a decision that leaves `y` is the same in front of any break in place of `y` -/
theorem front_local (scope : Scope) (depth : Nat) (behind : Behind) (start : Position) (c : Char) :
    Local fun cs => front scope depth behind start (c :: cs) := by
  exact .ite (atNewline_local scope behind) (.ite (atBackslash_local scope start)
    (.ite (.fail _) (.ite (fun _ _ _ _ h _ _ => nomatch h)
      (.ite (Lexeme.directive_local scope start) (lexeme_local behind start c)))))

end ScriptLexer

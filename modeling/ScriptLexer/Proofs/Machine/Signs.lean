import ScriptLexer.Machine.Lexemes
import ScriptLexer.Proofs.Machine.State

/-!
# Signs by byte offsets

An operator is read character by character: behind its first one it is asked whether another one
follows.  The table of spellings gives the longest of them that fits.

`endings c` lists what may stand behind the character `c`, so that both can be compared for one first
character at a time; `sign_settles` is the comparison for all of them.
-/

namespace ScriptLexer

open Position (after)

/-! ## the table by first characters -/

/-- what may stand behind `c` in the spelling of a sign, the longer ones first -/
def endings (c : Char) : List (List Char × Atom) :=
  symbolTable.filterMap fun e =>
    match e.1 with
    | [] => none
    | d :: t => if d = c then some (t, e.2) else none

theorem find?_endings (c : Char) (cs : List Char) (l : List (List Char × Atom))
    (hl : ∀ e ∈ l, e.1 ≠ []) :
    l.find? (fun e => e.1.isPrefixOf (c :: cs)) =
      ((l.filterMap fun e =>
        match e.1 with
        | [] => none
        | d :: t => if d = c then some (t, e.2) else none).find?
          fun e => e.1.isPrefixOf cs).map fun e => (c :: e.1, e.2) := by
  induction l with
  | nil => rfl
  | cons e l ih =>
    obtain ⟨s, x⟩ := e
    have ih := ih fun e he => hl e (List.mem_cons_of_mem _ he)
    cases s with
    | nil => exact absurd rfl (hl _ List.mem_cons_self)
    | cons d t =>
      by_cases hd : d = c
      · subst hd
        have hfit : (d :: t).isPrefixOf (d :: cs) = t.isPrefixOf cs := by
          rw [List.isPrefixOf, beq_self_eq_true, Bool.true_and]
        rw [List.find?_cons, List.filterMap_cons]
        simp only [if_pos, hfit, List.find?_cons]
        cases t.isPrefixOf cs with
        | true => rfl
        | false => exact ih
      · have hfit : (d :: t).isPrefixOf (c :: cs) = false := by
          rw [List.isPrefixOf, beq_eq_false_iff_ne.mpr hd, Bool.false_and]
        rw [List.find?_cons, List.filterMap_cons]
        simp only [if_neg hd, hfit]
        exact ih

theorem symbol?_cons (c : Char) (cs : List Char) : symbol? (c :: cs)
    = ((endings c).find? fun e => e.1.isPrefixOf cs).map fun e => (c :: e.1, e.2) :=
  find?_endings c cs symbolTable symbolTable_ne_nil

/-- the sign with the first of the endings that fits -/
theorem symbol_eq {c : Char} {t rest : List Char} {x : Atom}
    (h : (endings c).find? (fun e => e.1.isPrefixOf (t ++ rest)) = some (t, x)) :
    Lexeme.symbol c (t ++ rest) = .atom x (c :: t) rest := by
  rw [Lexeme.symbol, symbol?_cons, h]
  simp

/-- a character that begins no sign -/
theorem symbol_blank {c : Char} (h : endings c = []) (cs : List Char) :
    Lexeme.symbol c cs = .blank c cs := by
  rw [Lexeme.symbol, symbol?_cons, h]
  rfl

theorem endings_ne_newline {c : Char} {t : List Char} {x : Atom} (h : (t, x) ∈ endings c) :
    x ≠ .newline := by
  obtain ⟨e, he, hx⟩ := List.mem_filterMap.mp h
  have hall : ∀ e ∈ symbolTable, e.2 ≠ .newline := by decide
  have hx : e.2 = x := by
    split at hx
    · cases hx
    · split at hx
      · cases hx
        rfl
      · cases hx
  exact hx ▸ hall e he

namespace Machine

/-! ## the comparison -/

variable {m : Machine} {ts : List Token} {a b : List Char}

/-- the sign that was read, `t` behind its first character -/
theorem push_settles {c : Char} {t : List Char} {x : Atom}
    (h : (endings c).find? (fun e => e.1.isPrefixOf (t ++ b)) = some (t, x))
    (hfit : byteLength (a ++ c :: (t ++ b)) ≤ countLimit) :
    m.Settles ts a (Lexeme.symbol c (t ++ b))
      ((m.stand ts (a ++ c :: t) b).push (.atom x) (after a)) := by
  have hfit' : byteLength (a ++ c :: t) ≤ countLimit := by
    simp only [byteLength_append, byteLength_cons] at hfit ⊢
    omega
  rw [symbol_eq h]
  exact settles_push (endings_ne_newline (List.mem_of_find?_eq_some h)) hfit'

theorem isPrefixOf_of_head? {d : Char} (h : b.head? ≠ some d) (t : List Char) :
    (d :: t).isPrefixOf b = false := by
  cases b with
  | nil => rfl
  | cons e b =>
    have he : (d == e) = false := beq_eq_false_iff_ne.mpr fun hde => h (by rw [hde]; rfl)
    rw [List.isPrefixOf, he, Bool.false_and]

/-- the last question about a sign, `t` behind its first character -/
theorem pushJoined_settles {c d : Char} {t : List Char} {x y : Atom} (hd : d ≠ '\n')
    (hx : ∀ rest, (endings c).find? (fun e => e.1.isPrefixOf (t ++ d :: rest)) = some (t ++ [d], x))
    (hy : b.head? ≠ some d → (endings c).find? (fun e => e.1.isPrefixOf (t ++ b)) = some (t, y))
    (hfit : byteLength (a ++ c :: (t ++ b)) ≤ countLimit) :
    m.Settles ts a (Lexeme.symbol c (t ++ b))
      (pushJoined (after a) d x y (m.stand ts (a ++ c :: t) b)) := by
  rw [pushJoined]
  rcases eatChar_stand hd m ts (a ++ c :: t) b with ⟨rest, rfl, htaken⟩ | ⟨hb, hleft⟩
  · have hsplit : t ++ d :: rest = t ++ [d] ++ rest := by simp
    rw [htaken, Run.ok_bind, List.append_assoc, List.cons_append]
    rw [hsplit] at hfit ⊢
    refine push_settles ?_ hfit
    rw [← hsplit]
    exact hx rest
  · rw [hleft, Run.ok_bind]
    exact push_settles (hy hb) hfit

/-- a sign that is the only one with its first character -/
theorem single_settles {c : Char} {x : Atom} (h : endings c = [([], x)])
    (hfit : byteLength (a ++ c :: b) ≤ countLimit) :
    m.Settles ts a (Lexeme.symbol c b) ((m.stand ts (a ++ [c]) b).push (.atom x) (after a)) := by
  refine push_settles (t := []) ?_ hfit
  rw [h]
  rfl

/-- a sign and a longer one -/
theorem joined_settles {c d : Char} {x y : Atom} (h : endings c = [([d], x), ([], y)])
    (hd : d ≠ '\n') (hfit : byteLength (a ++ c :: b) ≤ countLimit) :
    m.Settles ts a (Lexeme.symbol c b)
      (pushJoined (after a) d x y (m.stand ts (a ++ [c]) b)) := by
  refine pushJoined_settles (t := []) hd (fun rest => ?_) (fun hb => ?_) hfit
  · rw [h]
    simp [List.isPrefixOf]
  · rw [h]
    simp [isPrefixOf_of_head? hb]

theorem doubled_settles {c : Char} {x y : Atom} {op : InPlaceOp}
    (h : endings c = [([c], x), (['='], .inPlace op), ([], y)]) (hc : c ≠ '=' ∧ c ≠ '\n')
    (hfit : byteLength (a ++ c :: b) ≤ countLimit) :
    m.Settles ts a (Lexeme.symbol c b)
      (doubled (after a) c x op y (m.stand ts (a ++ [c]) b)) := by
  rw [doubled]
  rcases eatChar_stand hc.2 m ts (a ++ [c]) b with ⟨rest, rfl, htaken⟩ | ⟨hb, hleft⟩
  · rw [htaken, Run.ok_bind, List.append_assoc]
    refine push_settles (t := [c]) ?_ hfit
    rw [h]
    simp [List.isPrefixOf]
  · rw [hleft, Run.ok_bind]
    refine pushJoined_settles (t := []) (by decide) (fun rest => ?_) (fun hb' => ?_) hfit
    · rw [h]
      simp [List.isPrefixOf, hc.1]
    · rw [h]
      simp [isPrefixOf_of_head? hb, isPrefixOf_of_head? hb']

theorem less_settles (hfit : byteLength (a ++ '<' :: b) ≤ countLimit) :
    m.Settles ts a (Lexeme.symbol '<' b) (less (after a) (m.stand ts (a ++ ['<']) b)) := by
  have h : endings '<' = [(['<', '='], .inPlace .shiftLeft), (['>'], .sign .unequal),
      (['<'], .sign .shiftLeft), (['='], .sign .lessEqual), ([], .sign .less)] := by decide
  rw [less]
  rcases eatChar_stand (c := '<') (by decide) m ts (a ++ ['<']) b with
    ⟨rest, rfl, htaken⟩ | ⟨hless, hleft⟩
  · rw [htaken, Run.ok_bind, List.append_assoc]
    refine pushJoined_settles (t := ['<']) (by decide) (fun rest => ?_) (fun hb => ?_) hfit
    · rw [h]
      simp [List.isPrefixOf]
    · rw [h]
      simp [List.isPrefixOf_cons_cons, isPrefixOf_of_head? hb]
  rw [hleft, Run.ok_bind]
  rcases eatChar_stand (c := '=') (by decide) m ts (a ++ ['<']) b with
    ⟨rest, rfl, htaken⟩ | ⟨hequal, hleft'⟩
  · simp only [Bool.false_eq_true, if_false]
    rw [htaken, Run.ok_bind, List.append_assoc]
    refine push_settles (t := ['=']) ?_ hfit
    rw [h]
    simp [List.isPrefixOf]
  simp only [Bool.false_eq_true, if_false]
  rw [hleft', Run.ok_bind]
  refine pushJoined_settles (t := []) (by decide) (fun rest => ?_) (fun hb => ?_) hfit
  · rw [h]
    simp [List.isPrefixOf]
  · rw [h]
    simp [isPrefixOf_of_head? hless, isPrefixOf_of_head? hequal, isPrefixOf_of_head? hb]

theorem greater_settles (hfit : byteLength (a ++ '>' :: b) ≤ countLimit) :
    m.Settles ts a (Lexeme.symbol '>' b) (greater (after a) (m.stand ts (a ++ ['>']) b)) := by
  have h : endings '>' = [(['>', '='], .inPlace .shiftRight), (['>'], .sign .shiftRight),
      (['='], .sign .greaterEqual), ([], .sign .greater)] := by decide
  rw [greater]
  rcases eatChar_stand (c := '>') (by decide) m ts (a ++ ['>']) b with
    ⟨rest, rfl, htaken⟩ | ⟨hb, hleft⟩
  · rw [htaken, Run.ok_bind, List.append_assoc]
    refine pushJoined_settles (t := ['>']) (by decide) (fun rest => ?_) (fun hb => ?_) hfit
    · rw [h]
      simp [List.isPrefixOf]
    · rw [h]
      simp [isPrefixOf_of_head? hb]
  · rw [hleft, Run.ok_bind]
    refine pushJoined_settles (t := []) (by decide) (fun rest => ?_) (fun hb' => ?_) hfit
    · rw [h]
      simp [List.isPrefixOf]
    · rw [h]
      simp [isPrefixOf_of_head? hb, isPrefixOf_of_head? hb']

theorem question_settles (hfit : byteLength (a ++ '?' :: b) ≤ countLimit) :
    m.Settles ts a (Lexeme.symbol '?' b) (question (after a) (m.stand ts (a ++ ['?']) b)) := by
  have h : endings '?' = [(['?', '='], .inPlace .nullish), (['?'], .sign .nullish),
      ([], .sign .question)] := by decide
  rw [question]
  rcases eatChar_stand (c := '?') (by decide) m ts (a ++ ['?']) b with
    ⟨rest, rfl, htaken⟩ | ⟨hb, hleft⟩
  · rw [htaken, Run.ok_bind, List.append_assoc]
    refine pushJoined_settles (t := ['?']) (by decide) (fun rest => ?_) (fun hb => ?_) hfit
    · rw [h]
      simp [List.isPrefixOf]
    · rw [h]
      simp [isPrefixOf_of_head? hb]
  · rw [hleft, Run.ok_bind]
    refine push_settles (t := []) ?_ hfit
    rw [h]
    simp [isPrefixOf_of_head? hb]

/-! ## accessors -/

/-- the accessors of a list as endings of a bracket -/
def markers (xs : List Accessor) : List (List Char × Atom) :=
  xs.map fun x => (x.marker.toList, .accessor x)

theorem eatMarker_settles (xs : List Accessor)
    (h : (endings '[').find? (fun e => e.1.isPrefixOf b)
      = (markers xs ++ [([], Atom.sign .leftBracket)]).find? fun e => e.1.isPrefixOf b)
    (hfit : byteLength (a ++ '[' :: b) ≤ countLimit) :
    m.Settles ts a (Lexeme.symbol '[' b) (do
      let (x, m) ← eatMarker xs (m.stand ts (a ++ ['[']) b)
      match x with
      | some x => m.push (.atom (.accessor x)) (after a)
      | none => m.push (.atom (.sign .leftBracket)) (after a)) := by
  induction xs with
  | nil =>
    refine push_settles (t := []) ?_ hfit
    rw [List.nil_append, h]
    rfl
  | cons x xs ih =>
    have hbreak : '\n' ∉ x.marker.toList := by cases x <;> decide
    have htext : ((m.stand ts (a ++ ['[']) b).reading (Reader.eatText x.marker.toList) :
        Run LexError (Bool × Machine)) =
        if x.marker.toList.isPrefixOf b then
          .ok (true, m.stand ts (a ++ ['['] ++ x.marker.toList) (b.drop x.marker.toList.length))
        else .ok (false, m.stand ts (a ++ ['[']) b) := eatText_stand hbreak b
    rw [eatMarker, htext]
    by_cases hfits : x.marker.toList.isPrefixOf b = true
    · obtain ⟨rest, rfl⟩ := List.isPrefixOf_iff_prefix.mp hfits
      rw [if_pos hfits, List.drop_left, List.append_assoc]
      refine push_settles ?_ hfit
      rw [h, markers, List.map_cons, List.cons_append, List.find?_cons]
      simp only [hfits]
    · rw [if_neg hfits]
      refine ih ?_
      rw [h, markers, List.map_cons, List.cons_append, List.find?_cons]
      simp only [Bool.eq_false_iff.mpr hfits]
      rfl

theorem bracket_settles (hfit : byteLength (a ++ '[' :: b) ≤ countLimit) :
    m.Settles ts a (Lexeme.symbol '[' b) (bracket (after a) (m.stand ts (a ++ ['[']) b)) := by
  have h : endings '[' = markers Accessor.all ++ [([], .sign .leftBracket)] := by decide
  exact eatMarker_settles Accessor.all (by rw [h]) hfit

/-! ## all signs -/

/-- the characters that a sign can begin with -/
def signs : List Char :=
  [',', ';', ':', '(', ')', '[', ']', '~', '?', '&', '|', '^', '+', '-', '*', '%', '=', '!', '<',
    '>', '\x7b', '\x7d', '.', '/']

theorem endings_of_notMem {c : Char} (h : c ∉ signs) : endings c = [] := by
  have hall : ∀ e ∈ symbolTable, ∀ d t, e.1 = d :: t → d ∈ signs := by
    intro e he d t hd
    have hheads : (symbolTable.all fun e => e.1.head?.all signs.contains) := by decide
    have hmem := List.all_eq_true.mp hheads e he
    rw [hd] at hmem
    exact List.contains_iff_mem.mp hmem
  refine List.filterMap_eq_nil_iff.mpr fun e he => ?_
  cases hs : e.1 with
  | nil => rfl
  | cons d t =>
    have hd : d ≠ c := by
      rintro rfl
      exact h (hall e he d t hs)
    exact if_neg hd

theorem sign_settles {c : Char} (hbrace : c ≠ '{' ∧ c ≠ '}') (hmore : c ≠ '.' ∧ c ≠ '/')
    (hfit : byteLength (a ++ c :: b) ≤ countLimit) :
    m.Settles ts a (Lexeme.symbol c b) (sign (after a) c (m.stand ts (a ++ [c]) b)) := by
  unfold sign
  split
  · exact single_settles (by decide) hfit
  · exact single_settles (by decide) hfit
  · exact single_settles (by decide) hfit
  · exact single_settles (by decide) hfit
  · exact single_settles (by decide) hfit
  · exact bracket_settles hfit
  · exact single_settles (by decide) hfit
  · exact single_settles (by decide) hfit
  · exact question_settles hfit
  · exact doubled_settles (by decide) (by decide) hfit
  · exact doubled_settles (by decide) (by decide) hfit
  · exact doubled_settles (by decide) (by decide) hfit
  · exact doubled_settles (by decide) (by decide) hfit
  · exact doubled_settles (by decide) (by decide) hfit
  · exact joined_settles (by decide) (by decide) hfit
  · exact joined_settles (by decide) (by decide) hfit
  · exact joined_settles (by decide) (by decide) hfit
  · exact joined_settles (by decide) (by decide) hfit
  · exact less_settles hfit
  · exact greater_settles hfit
  · rw [symbol_blank (endings_of_notMem ?_)]
    · rfl
    · simp_all [signs]

end Machine

end ScriptLexer

import Mathlib.Data.List.Induction
import ScriptLexer.Proofs.Separators

/-!
# Block comments are balanced

The text behind the opening of a block comment is a row of parts: openings, closings and other
characters, taken from the left, so that the parts do not overlap and `/*/` closes nothing.  The comment
ends at the first closing at which there are more closings than openings (`FirstClosing`), which is the
one behind a balanced text (`firstClosing_iff_balanced`).

`blockBody_eq_some_iff` says so of the text of a comment, at any depth; `scan_blockComment` of a source
that begins with a comment.  `BeginsWith` says what it means to begin with a token: the first decision
makes it, and the rest is scanned as it is alone.
-/

namespace ScriptLexer

open Position (after)

/-! ## the parts of a comment -/

/-- a part of the text of a block comment -/
inductive CommentPart where
  | opening
  | closing
  | other (c : Char)
deriving DecidableEq

def CommentPart.text : CommentPart → List Char
  | .opening => ['/', '*']
  | .closing => ['*', '/']
  | .other c => [c]

/-- the parts of a text from the left: a delimiter where there is one, or else a character -/
def commentParts : List Char → List CommentPart
  | [] => []
  | '/' :: '*' :: cs => .opening :: commentParts cs
  | '*' :: '/' :: cs => .closing :: commentParts cs
  | c :: cs => .other c :: commentParts cs

/-- the text of a row of parts -/
def partsText (ps : List CommentPart) : List Char := ps.flatMap CommentPart.text

theorem partsText_cons (p : CommentPart) (ps : List CommentPart) :
    partsText (p :: ps) = p.text ++ partsText ps := List.flatMap_cons

theorem partsText_commentParts (cs : List Char) : partsText (commentParts cs) = cs := by
  fun_induction commentParts cs with
  | case1 => rfl
  | case2 cs ih => rw [partsText_cons, ih]; rfl
  | case3 cs ih => rw [partsText_cons, ih]; rfl
  | case4 c cs _ _ ih => rw [partsText_cons, ih]; rfl

/-! ## the first closing that is one too many -/

/-- the parts close more than they open and than the `depth` comments that were open before -/
def Outnumbered (depth : Nat) (ps : List CommentPart) : Prop :=
  depth + ps.count .opening < ps.count .closing

instance (depth : Nat) (ps : List CommentPart) : Decidable (Outnumbered depth ps) :=
  inferInstanceAs (Decidable (_ < _))

/-- the closing between `before` and `behind` is the first one that closes more than was opened -/
structure FirstClosing (depth : Nat) (ps before behind : List CommentPart) : Prop where
  split : ps = before ++ .closing :: behind
  outnumbered : Outnumbered depth (before ++ [.closing])
  first : ∀ u v, before = u ++ .closing :: v → ¬Outnumbered depth (u ++ [.closing])

theorem outnumbered_opening (depth : Nat) (ps : List CommentPart) :
    Outnumbered depth (.opening :: ps) ↔ Outnumbered (depth + 1) ps := by
  simp only [Outnumbered, List.count_cons_self, List.count_cons_of_ne, ne_eq, reduceCtorEq,
    not_false_eq_true]
  omega

theorem outnumbered_closing (depth : Nat) (ps : List CommentPart) :
    Outnumbered (depth + 1) (.closing :: ps) ↔ Outnumbered depth ps := by
  simp only [Outnumbered, List.count_cons_self, List.count_cons_of_ne, ne_eq, reduceCtorEq,
    not_false_eq_true]
  omega

theorem outnumbered_other (depth : Nat) (c : Char) (ps : List CommentPart) :
    Outnumbered depth (.other c :: ps) ↔ Outnumbered depth ps := by
  simp [Outnumbered]

theorem outnumbered_concat (depth : Nat) (ps : List CommentPart) :
    Outnumbered depth (ps ++ [.closing]) ↔ depth + ps.count .opening < ps.count .closing + 1 := by
  simp [Outnumbered]

theorem outnumbered_singleton (depth : Nat) : Outnumbered depth [.closing] ↔ depth = 0 := by
  simp [Outnumbered]

theorem not_firstClosing_nil (depth : Nat) (before behind : List CommentPart) :
    ¬FirstClosing depth [] before behind := fun h => by simpa using h.split

theorem firstClosing_closing {ps before behind : List CommentPart} :
    FirstClosing 0 (.closing :: ps) before behind ↔ before = [] ∧ behind = ps := by
  constructor
  · intro h
    have hsplit := h.split
    cases before with
    | nil => exact ⟨rfl, (List.cons.inj hsplit).2.symm⟩
    | cons p before =>
      obtain ⟨rfl, _⟩ := List.cons.inj hsplit
      exact absurd ((outnumbered_singleton 0).mpr rfl) (h.first [] before rfl)
  · rintro ⟨rfl, rfl⟩
    refine ⟨rfl, (outnumbered_singleton 0).mpr rfl, fun u v h => ?_⟩
    simp at h

/-- over a part that is not the one, the search goes on at another depth -/
theorem firstClosing_cons {depth depth' : Nat} {p : CommentPart} {ps before behind : List CommentPart}
    (hp : ∀ qs, Outnumbered depth (p :: qs) ↔ Outnumbered depth' qs)
    (hopen : p = .closing → depth ≠ 0) :
    FirstClosing depth (p :: ps) before behind ↔
      ∃ before', before = p :: before' ∧ FirstClosing depth' ps before' behind := by
  have hne : p = .closing → ¬Outnumbered depth [.closing] :=
    fun h hout => hopen h ((outnumbered_singleton depth).mp hout)
  constructor
  · intro h
    have hsplit := h.split
    cases before with
    | nil => exact absurd h.outnumbered (hne (List.cons.inj hsplit).1)
    | cons q before =>
      obtain ⟨rfl, htail⟩ := List.cons.inj hsplit
      refine ⟨before, rfl, htail, (hp _).mp h.outnumbered, fun u v hu hout => ?_⟩
      exact h.first (p :: u) v (by rw [hu, List.cons_append]) ((hp _).mpr hout)
  · rintro ⟨before, rfl, h⟩
    refine ⟨by rw [h.split, List.cons_append], (hp _).mpr h.outnumbered, fun u v hu => ?_⟩
    cases u with
    | nil => exact hne (List.cons.inj hu).1
    | cons q u =>
      obtain ⟨rfl, htail⟩ := List.cons.inj hu
      exact fun hout => h.first u v htail ((hp _).mp hout)

/-- every closing has its opening, and every opening its closing -/
structure Balanced (ps : List CommentPart) : Prop where
  nested : ∀ u, u <+: ps → u.count .closing ≤ u.count .opening
  settled : ps.count .closing = ps.count .opening

/-- up to the closing nothing is closed that was not opened -/
theorem FirstClosing.nested {ps before behind : List CommentPart}
    (h : FirstClosing 0 ps before behind) (u : List CommentPart) :
    u <+: before → u.count .closing ≤ u.count .opening := by
  induction u using List.reverseRecOn with
  | nil => exact fun _ => Nat.le_refl 0
  | append_singleton u p ih =>
    rintro ⟨v, hv⟩
    rw [List.append_assoc, List.singleton_append] at hv
    have hu := ih ⟨p :: v, hv⟩
    -- only a closing can make it worse
    cases p with
    | closing =>
      have hfirst := h.first u v hv.symm
      rw [Outnumbered] at hfirst
      omega
    | opening =>
      have hsame : (u ++ [CommentPart.opening]).count .closing = u.count .closing := by simp
      have hmore : (u ++ [CommentPart.opening]).count .opening = u.count .opening + 1 := by simp
      omega
    | other c => simpa using hu

/-- the first closing that is one too many is the one behind a balanced text -/
theorem firstClosing_iff_balanced {ps before behind : List CommentPart} :
    FirstClosing 0 ps before behind ↔ ps = before ++ .closing :: behind ∧ Balanced before := by
  constructor
  · intro h
    have hle := h.nested before List.prefix_rfl
    have hlt := (outnumbered_concat 0 before).mp h.outnumbered
    exact ⟨h.split, h.nested, by omega⟩
  · rintro ⟨hsplit, h⟩
    refine ⟨hsplit, ?_, fun u v hu hout => ?_⟩
    · have hsettled := h.settled
      rw [outnumbered_concat]
      omega
    · have hnested := h.nested (u ++ [.closing]) ⟨v, by rw [hu]; simp⟩
      rw [Outnumbered] at hout
      omega

/-! ## the text of a comment -/

/-- the text in front of the first closing that is one too many, with `done` before it, and the text
behind it -/
def SplitsAt (depth : Nat) (done : List Char) (ps : List CommentPart) (text rest : List Char) : Prop :=
  ∃ before behind, FirstClosing depth ps before behind ∧
    text = done.reverse ++ partsText before ∧ rest = partsText behind

theorem splitsAt_cons {depth depth' : Nat} {p : CommentPart} {ps : List CommentPart}
    {done text rest : List Char} (hp : ∀ qs, Outnumbered depth (p :: qs) ↔ Outnumbered depth' qs)
    (hopen : p = .closing → depth ≠ 0) :
    SplitsAt depth done (p :: ps) text rest ↔
      SplitsAt depth' (p.text.reverse ++ done) ps text rest := by
  have htext : ∀ before, (p.text.reverse ++ done).reverse ++ partsText before
      = done.reverse ++ partsText (p :: before) := by
    intro before
    rw [partsText_cons, List.reverse_append, List.reverse_reverse, List.append_assoc]
  constructor
  · rintro ⟨before, behind, h, rfl, rfl⟩
    obtain ⟨before, rfl, hfirst⟩ := (firstClosing_cons hp hopen).mp h
    exact ⟨before, behind, hfirst, (htext before).symm, rfl⟩
  · rintro ⟨before, behind, h, rfl, rfl⟩
    exact ⟨p :: before, behind, (firstClosing_cons hp hopen).mpr ⟨before, rfl, h⟩, htext before, rfl⟩

namespace Lexeme

/-- the text of a comment ends at the first closing that is one too many -/
theorem blockBody_eq_some_iff (depth : Nat) (done cs text rest : List Char) :
    blockBody depth done cs = some (text, rest) ↔
      SplitsAt depth done (commentParts cs) text rest := by
  fun_induction blockBody depth done cs with
  | case1 depth done =>
    constructor
    · intro h
      cases h
    · rintro ⟨before, behind, h, _⟩
      exact (not_firstClosing_nil depth before behind h).elim
  | case2 depth done cs ih =>
    rw [ih, commentParts]
    exact (splitsAt_cons (outnumbered_opening depth) fun h => by cases h).symm
  | case3 done cs =>
    rw [commentParts]
    constructor
    · intro h
      obtain ⟨rfl, rfl⟩ := Prod.mk.inj (Option.some.inj h)
      exact ⟨[], commentParts cs, firstClosing_closing.mpr ⟨rfl, rfl⟩, (List.append_nil _).symm,
        (partsText_commentParts cs).symm⟩
    · rintro ⟨before, behind, h, rfl, rfl⟩
      obtain ⟨rfl, rfl⟩ := firstClosing_closing.mp h
      rw [partsText_commentParts]
      exact congrArg (fun x => some (x, cs)) (List.append_nil _).symm
  | case4 done cs depth ih =>
    rw [ih, commentParts]
    exact (splitsAt_cons (outnumbered_closing depth) fun _ => Nat.succ_ne_zero depth).symm
  | case5 depth done c cs hopening hclosing ih =>
    rw [ih, commentParts]
    · exact (splitsAt_cons (outnumbered_other depth c) fun h => by cases h).symm
    · exact hopening
    · exact hclosing

theorem block_of_firstClosing (start : Position) {cs : List Char} {before behind : List CommentPart}
    (h : FirstClosing 0 (commentParts cs) before behind) :
    block start cs = .atom (.comment .block (String.ofList (partsText before)))
      ('/' :: '*' :: partsText before ++ ['*', '/']) (partsText behind) := by
  have hbody := (blockBody_eq_some_iff 0 [] cs _ _).mpr ⟨before, behind, h, rfl, rfl⟩
  rw [block, hbody]
  rfl

theorem block_of_not_firstClosing (start : Position) {cs : List Char}
    (h : ∀ before behind, ¬FirstClosing 0 (commentParts cs) before behind) :
    block start cs
      = .fail (.report .unterminatedBlockComment (start.advance ('/' :: '*' :: cs)) start.offset) := by
  have hbody : blockBody 0 [] cs = none := by
    refine Option.eq_none_iff_forall_ne_some.mpr fun ⟨text, rest⟩ hsome => ?_
    obtain ⟨before, behind, hfirst, _⟩ := (blockBody_eq_some_iff 0 [] cs text rest).mp hsome
    exact h before behind hfirst
  rw [block, hbody]

end Lexeme

/-! ## sources that begin with a token -/

/-- a scan of the source begins with the atom, which has the text, and goes on with the rest -/
structure BeginsWith (mode : Mode) (source : String) (a : Atom) (text rest : String) : Prop where
  /-- the first decision makes the atom -/
  front : front (.initial mode) 0 .nothing .start source.toList = .atom a text.toList rest.toList
  /-- its token comes first, and then those of the rest, which begins where the text ends -/
  tokens : ∀ ts, scan source mode = .ok ts ↔ ∃ us, scan rest mode = .ok us ∧
    ts = ⟨.atom a, .start, after text.toList⟩ :: embedTokens (after text.toList) us
  /-- in a plain scan, errors of the rest are moved there as well -/
  plain : mode = .plain → scan source = resultBehind
    [⟨.atom a, .start, after text.toList⟩] (after text.toList) (scan rest)

/-- an atom that means nothing to what follows it -/
structure Atom.IsInert (a : Atom) : Prop where
  behind : a.behind = .nothing
  depth : braceDepth 0 (.atom a) = 0
  ne_newline : Kind.atom a ≠ .atom .newline

theorem beginsWith_of_front {mode : Mode} {source text rest : String} {a : Atom} (ha : a.IsInert)
    (hsize : source.utf8ByteSize ≤ countLimit)
    (h : front (.initial mode) 0 .nothing .start source.toList = .atom a text.toList rest.toList) :
    BeginsWith mode source a text rest := by
  have htakes := front_takes (.initial mode) 0 .nothing .start source.toList
  rw [h] at htakes
  rw [← byteLength_toList] at hsize
  have hrest : byteLength rest.toList ≤ countLimit := by
    rw [← htakes.1, byteLength_append] at hsize
    omega
  have hstep : scanTokens (.initial mode) (.start .start) source.toList
      = scanTokens (.initial mode) ((State.start .start).push (.atom a) text.toList) rest.toList :=
    scanTokens_atom h
  have htokens : ((State.start .start).push (.atom a) text.toList).tokens.reverse
      = [⟨.atom a, .start, after text.toList⟩] := by
    simp only [State.push, State.start, stopOf_of_ne ha.ne_newline, Position.start_advance]
    rfl
  have hposition : ((State.start .start).push (.atom a) text.toList).position = after text.toList :=
    Position.start_advance _
  refine ⟨h, fun ts => ?_, ?_⟩
  · rw [scan_ok_iff hsize, hstep, scanTokens_goesOn_iff ha.behind ha.depth, htokens, hposition]
    simp only [scan_ok_iff hrest]
    constructor
    · rintro ⟨s, hs, rfl⟩
      exact ⟨s.tokens, ⟨s, hs, rfl⟩, rfl⟩
    · rintro ⟨us, ⟨s, hs, rfl⟩, rfl⟩
      exact ⟨s, hs, rfl⟩
  · rintro rfl
    rw [scan_eq hsize, scan_eq hrest, hstep, scanTokens_goesOn ha.behind, htokens, hposition]

/-! ## sources that begin with a comment -/

/-- Block comments are exactly the balanced ones.  A source that begins with the opening of a comment
begins with a comment, up to the first closing that is one too many, and goes on behind it; without
such a closing it cannot be scanned. -/
theorem scan_blockComment {r : String} (hsize : ("/*" ++ r).utf8ByteSize ≤ countLimit) (mode : Mode) :
    (∀ before behind, FirstClosing 0 (commentParts r.toList) before behind →
      ∃ w rest : String, w.toList = partsText before ∧ rest.toList = partsText behind ∧
        BeginsWith mode ("/*" ++ r) (.comment .block w) ("/*" ++ w ++ "*/") rest ∧
        (after ("/*" ++ w ++ "*/").toList).offset = 4 + w.utf8ByteSize ∧
        (after ("/*" ++ w ++ "*/").toList).line = w.toList.count '\n') ∧
    ((∀ before behind, ¬FirstClosing 0 (commentParts r.toList) before behind) →
      scan ("/*" ++ r) mode
        = .error (.report .unterminatedBlockComment (after ("/*" ++ r).toList) 0)) := by
  have hsource : ("/*" ++ r).toList = '/' :: '*' :: r.toList := by simp
  have hfront : front (.initial mode) 0 .nothing .start ("/*" ++ r).toList
      = Lexeme.block .start r.toList := by
    rw [hsource]
    rfl
  constructor
  · intro before behind h
    have htext : ∀ w : String, ("/*" ++ w ++ "*/").toList = '/' :: '*' :: (w.toList ++ ['*', '/']) := by
      simp
    refine ⟨String.ofList (partsText before), String.ofList (partsText behind),
      String.toList_ofList, String.toList_ofList, beginsWith_of_front ⟨rfl, rfl, ?_⟩ hsize ?_, ?_, ?_⟩
    · intro h
      cases h
    · rw [hfront, Lexeme.block_of_firstClosing _ h, htext, String.toList_ofList, String.toList_ofList]
      rfl
    · have hopen : "/*".utf8ByteSize = 2 := rfl
      have hclose : "*/".utf8ByteSize = 2 := rfl
      show byteLength _ = _
      rw [byteLength_toList, String.utf8ByteSize_append, String.utf8ByteSize_append]
      omega
    · show List.count _ _ = _
      rw [htext]
      simp
  · intro h
    rw [← byteLength_toList] at hsize
    refine scan_of_fail hsize ?_
    rw [hfront, Lexeme.block_of_not_firstClosing _ h, ← hsource, Position.start_advance]
    rfl

/-- a comment with another one over two lines in it, and an opening whose star closes nothing -/
theorem scan_blockComment_nested :
    (∃ w rest, w.toList = "/ /*\n*/".toList ∧ rest.toList = "x".toList ∧
      BeginsWith .plain "/*/ /*\n*/*/x" (.comment .block w) ("/*" ++ w ++ "*/") rest ∧
      (after ("/*" ++ w ++ "*/").toList).offset = 4 + w.utf8ByteSize ∧
      (after ("/*" ++ w ++ "*/").toList).line = w.toList.count '\n') ∧
    scan "/*/" .macroBody = .error (.report .unterminatedBlockComment ⟨3, 0, 0⟩ 0) := by
  refine ⟨(scan_blockComment (r := "/ /*\n*/*/x") (by decide) .plain).1
      [.other '/', .other ' ', .opening, .other '\n', .closing] [.other 'x'] ⟨rfl, by decide, ?_⟩,
    (scan_blockComment (r := "/") (by decide) .macroBody).2 ?_⟩
  · intro u v h
    simp [List.cons_eq_append_iff] at h
    rw [h.1]
    decide
  · intro before behind h
    have hsplit : [CommentPart.other '/'] = before ++ .closing :: behind := h.split
    simp [List.cons_eq_append_iff] at hsplit

end ScriptLexer

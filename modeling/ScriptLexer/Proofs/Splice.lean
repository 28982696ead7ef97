import ScriptLexer.Proofs.Slices
import ScriptLexer.Text.Splice

/-!
# Spans of a text replaced

`replaceBackward?_of_fill?` says that replacing the spans of a text one after another, the last one
first, gives what one pass from left to right gives, although the texts that are put in may be longer
or shorter than what was there.

`fill?_append_text` and `fill?_append_span` say how the pass goes on when the text grows.
-/

namespace ScriptLexer

variable {write : Nat → List Char}

/-! ## one pass -/

theorem fillFrom?_cons {text : List Char} {index start : Nat} {s : Span} {spans : List Span}
    {out : List Char} :
    fillFrom? write text index start (s :: spans) = some out ↔
      ∃ gap t rest, slice? text start s.start = some gap ∧ slice? text s.start s.stop = some t ∧
        fillFrom? write text (index + 1) s.stop spans = some rest ∧
        out = gap ++ write index ++ rest := by
  simp only [fillFrom?, bind, pure, Option.bind_eq_some_iff, Option.some.injEq]
  constructor
  · rintro ⟨gap, hgap, t, ht, rest, hrest, rfl⟩
    exact ⟨gap, t, rest, hgap, ht, hrest, rfl⟩
  · rintro ⟨gap, t, rest, hgap, ht, hrest, rfl⟩
    exact ⟨gap, hgap, t, ht, rest, hrest, rfl⟩

/-- more text behind the last span is copied -/
theorem fillFrom?_append_text {text out : List Char} {index start : Nat} {spans : List Span}
    (h : fillFrom? write text index start spans = some out) (w : List Char) :
    fillFrom? write (text ++ w) index start spans = some (out ++ w) := by
  induction spans generalizing index start out with
  | nil => exact slice?_append_end h w
  | cons s spans ih =>
    obtain ⟨gap, t, rest, hgap, ht, hrest, rfl⟩ := fillFrom?_cons.mp h
    refine fillFrom?_cons.mpr ⟨gap, t, rest ++ w, slice?_append_right hgap w,
      slice?_append_right ht w, ih hrest, ?_⟩
    rw [List.append_assoc _ rest w]

/-- a span that takes up what is added to the text is replaced -/
theorem fillFrom?_append_span {text out : List Char} {index start : Nat} {spans : List Span}
    (h : fillFrom? write text index start spans = some out) (w : List Char) :
    fillFrom? write (text ++ w) index start
        (spans ++ [⟨byteLength text, byteLength text + byteLength w⟩])
      = some (out ++ write (index + spans.length)) := by
  induction spans generalizing index start out with
  | nil =>
    have hgap : slice? (text ++ w) start (byteLength text) = some out := slice?_append_right h w
    have ht : slice? (text ++ w) (byteLength text) (byteLength text + byteLength w) = some w :=
      slice?_eq_some_iff.mpr ⟨text, [], by simp, rfl, rfl⟩
    have hrest : slice? (text ++ w) (byteLength text + byteLength w) (byteLength (text ++ w))
        = some [] := by
      refine slice?_eq_some_iff.mpr ⟨text ++ w, [], by simp, byteLength_append text w, ?_⟩
      rw [byteLength_nil, Nat.add_zero]
    exact fillFrom?_cons.mpr ⟨out, w, [], hgap, ht, hrest, by simp⟩
  | cons s spans ih =>
    obtain ⟨gap, t, rest, hgap, ht, hrest, rfl⟩ := fillFrom?_cons.mp h
    refine fillFrom?_cons.mpr ⟨gap, t, _, slice?_append_right hgap w, slice?_append_right ht w,
      ih hrest, ?_⟩
    rw [List.length_cons, List.append_assoc _ rest, Nat.add_assoc index 1, Nat.add_comm 1]

theorem fill?_append_text {text out : List Char} {spans : List Span}
    (h : fill? write text spans = some out) (w : List Char) :
    fill? write (text ++ w) spans = some (out ++ w) := fillFrom?_append_text h w

theorem fill?_append_span {text out : List Char} {spans : List Span}
    (h : fill? write text spans = some out) (w : List Char) :
    fill? write (text ++ w) (spans ++ [⟨byteLength text, byteLength text + byteLength w⟩])
      = some (out ++ write spans.length) := by
  have hspan := fillFrom?_append_span h w
  rw [Nat.zero_add] at hspan
  exact hspan

/-- the spans of a pass lie behind `start`, one behind the other -/
theorem fillFrom?_ordered {text out : List Char} {index start : Nat} {spans : List Span}
    (h : fillFrom? write text index start spans = some out) :
    spans.Pairwise (fun a b => a.stop ≤ b.start) ∧
      ∀ s ∈ spans, start ≤ s.start ∧ s.start ≤ s.stop ∧ s.stop ≤ byteLength text := by
  induction spans generalizing index start out with
  | nil => exact ⟨List.Pairwise.nil, fun _ h => absurd h List.not_mem_nil⟩
  | cons s spans ih =>
    obtain ⟨gap, t, rest, hgap, ht, hrest, rfl⟩ := fillFrom?_cons.mp h
    obtain ⟨hordered, hbehind⟩ := ih hrest
    have hstart := slice?_le hgap
    have hs := slice?_le ht
    refine ⟨List.pairwise_cons.mpr ⟨fun r hr => (hbehind r hr).1, hordered⟩, fun r hr => ?_⟩
    rcases List.mem_cons.mp hr with rfl | hr
    · omega
    · have hr := hbehind r hr
      omega

theorem fill?_ordered {text out : List Char} {spans : List Span}
    (h : fill? write text spans = some out) : spans.Pairwise fun a b => a.stop ≤ b.start :=
  (fillFrom?_ordered h).1

/-! ## one replacement after another -/

theorem replaceRange?_eq {front t back : List Char} (new : List Char) :
    replaceRange? (front ++ t ++ back) ⟨byteLength front, byteLength front + byteLength t⟩ new
      = some (front ++ new ++ back) := by
  have hfront : slice? (front ++ t ++ back) 0 (byteLength front) = some front :=
    slice?_eq_some_iff.mpr ⟨[], t ++ back, by simp, rfl, Nat.zero_add _⟩
  have ht : slice? (front ++ t ++ back) (byteLength front) (byteLength front + byteLength t)
      = some t := slice?_append front t back
  have hback : slice? (front ++ t ++ back) (byteLength front + byteLength t)
      (byteLength (front ++ t ++ back)) = some back := by
    refine slice?_eq_some_iff.mpr ⟨front ++ t, [], by simp, byteLength_append front t, ?_⟩
    simp only [byteLength_append]
  simp only [replaceRange?, hfront, ht, hback]
  rfl

/-- what was replaced from `start` on, with the text in front of it as it was -/
theorem foldr_replaceRange? {text front out : List Char} {index start : Nat} {spans : List Span}
    (h : fillFrom? write text index start spans = some out)
    (hfront : slice? text 0 start = some front) :
    (spans.zipIdx index).foldr (fun s done => done.bind fun t => replaceRange? t s.1 (write s.2))
      (some text) = some (front ++ out) := by
  induction spans generalizing index start front out with
  | nil =>
    obtain ⟨u, hu, hlen⟩ := slice?_end_iff.mp (slice?_adjacent hfront h)
    obtain rfl := eq_nil_of_byteLength hlen
    rw [← List.nil_append (front ++ out), ← hu]
    rfl
  | cons s spans ih =>
    obtain ⟨gap, t, rest, hgap, ht, hrest, rfl⟩ := fillFrom?_cons.mp h
    have hstart := slice?_adjacent hfront hgap
    obtain ⟨u, v, htext, hu, hlen⟩ := slice?_eq_some_iff.mp hstart
    obtain rfl := eq_nil_of_byteLength hu
    obtain ⟨u', v', htext', hu', hlen'⟩ := slice?_eq_some_iff.mp ht
    have hs : s = ⟨byteLength (front ++ gap), byteLength (front ++ gap) + byteLength t⟩ := by
      cases s
      simp only [Span.mk.injEq, byteLength_nil] at *
      omega
    -- the spans behind this one are replaced, and it still stands where it stood
    rw [List.zipIdx_cons, List.foldr_cons, ih hrest (slice?_adjacent hstart ht), Option.bind_some,
      hs]
    rw [replaceRange?_eq]
    simp

/-- replacing from the last span to the first gives what one pass gives -/
theorem replaceBackward?_of_fill? {text out : List Char} {spans : List Span}
    (h : fill? write text spans = some out) : replaceBackward? write text spans = some out := by
  have hfront : slice? text 0 0 = some [] := slice?_eq_some_iff.mpr ⟨[], text, rfl, rfl, rfl⟩
  exact foldr_replaceRange? h hfront

end ScriptLexer

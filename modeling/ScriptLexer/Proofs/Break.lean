import Mathlib.Data.List.TakeWhile
import ScriptLexer.Scan.Front

/-!
# Breaks

What follows a lexeme has a say in it only by not belonging to it.  A break belongs to no lexeme that
does not take in other lines anyway: the end of the text, a blank, a line break or a closing brace.
So a text is decided upon in front of any break as it is in front of what really follows it.  Some
characters open a lexeme and are looked for by few others; where one of them follows, what stands behind it
has no say either.

* `Break y`, `LineEnd y`   the text `y` begins with a break, or with the end of a line;
* `Follows y y'`           `y'` may stand where `y` stood: it begins with a break, or both begin with the
                           same opener;
* `Front.rest?`            the text that a decision leaves, `Front.withRest` replaces it;
* `Local g`                if `g` leaves `y` it decides the same with another such text in place of `y`;
* `span_local`             a run of a class is local, `Local.peek` a look at the next character.

Comments to the end of the line and region markers go on over blanks and braces, so they need the
end of a line where they had one.
-/

namespace ScriptLexer

/-! ## breaks -/

/-- the characters that end a lexeme -/
def breaks : List Char := [' ', '\t', '\x0b', '\x0c', '\n', '}']

/-- the text is empty or begins with a break -/
def Break (y : List Char) : Prop := ∀ c ∈ y.head?, c ∈ breaks

/-- the text is empty or begins with a line break -/
def LineEnd (y : List Char) : Prop := ∀ c ∈ y.head?, c = '\n'

/-- characters that begin a lexeme, and that a lexeme in front of them takes only if it looks for them -/
def openers : List Char := ['"', '$', '#']

/-- the characters that may be the first ones behind a lexeme that is moved -/
def edges : List Char := openers ++ breaks

/-- `y'` may stand where `y` stood: it begins with a break, or both begin with the same opener -/
def Follows (y y' : List Char) : Prop :=
  Break y' ∨ ∃ c z z', c ∈ openers ∧ y = c :: z ∧ y' = c :: z'

theorem break_nil : Break [] := fun _ h => nomatch h

theorem lineEnd_nil : LineEnd [] := fun _ h => nomatch h

theorem break_cons {c : Char} {y : List Char} : Break (c :: y) ↔ c ∈ breaks := by
  simp [Break]

theorem lineEnd_cons {c : Char} {y : List Char} : LineEnd (c :: y) ↔ c = '\n' := by
  simp [LineEnd]

theorem LineEnd.toBreak {y : List Char} (h : LineEnd y) : Break y := by
  intro c hc
  rw [h c hc]
  decide

theorem mem_edges_of_breaks {c : Char} (h : c ∈ breaks) : c ∈ edges := List.mem_append_right _ h

theorem ne_of_mem_breaks {c d : Char} (hc : c ∈ breaks) (hd : d ∉ breaks) : c ≠ d := by
  rintro rfl
  exact hd hc

theorem Follows.edge {y y' : List Char} (h : Follows y y') : ∀ c ∈ y'.head?, c ∈ edges := by
  rcases h with hbreak | ⟨c, z, z', hc, rfl, rfl⟩
  · exact fun c hc => mem_edges_of_breaks (hbreak c hc)
  · intro d hd
    obtain rfl : c = d := Option.some.inj hd
    exact List.mem_append_left _ hc

/-- neither a break nor an opener belongs to the class -/
def NoEdge (p : Char → Bool) : Prop := edges.all (!p ·) = true

instance (p : Char → Bool) : Decidable (NoEdge p) := inferInstanceAs (Decidable (_ = true))

theorem NoEdge.eq_false {p : Char → Bool} (h : NoEdge p) {c : Char} (hc : c ∈ edges) :
    p c = false := by
  have hall := List.all_eq_true.mp h c hc
  simpa using hall

theorem noEdge_isPart (base : Base) : NoEdge base.isPart := by
  cases base <;> decide

theorem Follows.stops {y y' : List Char} (h : Follows y y') {p : Char → Bool} (hp : NoEdge p) :
    ∀ c ∈ y'.head?, p c = false :=
  fun c hc => hp.eq_false (h.edge c hc)

theorem LineEnd.stops {y : List Char} (h : LineEnd y) {p : Char → Bool} (hp : p '\n' = false) :
    ∀ c ∈ y.head?, p c = false := by
  intro c hc
  rw [h c hc, hp]

/-! ## the text that is left -/

namespace Front

/-- the text that a decision leaves, if the scan goes on -/
def rest? : Front → Option (List Char)
  | .blank _ rest => some rest
  | .atom _ _ rest => some rest
  | .template rest => some rest
  | .macroDef _ rest => some rest
  | .exit _ => none
  | .fail _ => none

/-- the same decision with another text left -/
def withRest (rest : List Char) : Front → Front
  | .blank c _ => .blank c rest
  | .atom a lexeme _ => .atom a lexeme rest
  | .template _ => .template rest
  | .macroDef header _ => .macroDef header rest
  | f => f

/-- the lexeme takes the rest of its line -/
def TakesLine : Front → Prop
  | .atom a _ _ => a.behind = .lineEnd
  | _ => False

end Front

/-- as far as `g` leaves `y` alone, it decides the same in front of a text that may follow in its place -/
def Local (g : List Char → Front) : Prop :=
  ∀ ⦃u x y y' : List Char⦄, (g (u ++ y)).rest? = some (x ++ y) → Follows y y' →
    ((g (u ++ y)).TakesLine → x = [] → LineEnd y → LineEnd y') →
    g (u ++ y') = (g (u ++ y)).withRest (x ++ y')

/-! ## runs of a class -/

section
variable {u w x y z : List Char}

theorem append_eq_of_append (h : u ++ y = w ++ (x ++ y)) : u = w ++ x := by
  rw [← List.append_assoc] at h
  exact List.append_cancel_right h

theorem span_exact {p : Char → Bool} (hw : ∀ c ∈ w, p c = true)
    (hy : ∀ c ∈ y.head?, p c = false) :
    (w ++ y).takeWhile p = w ∧ (w ++ y).dropWhile p = y := by
  rw [List.takeWhile_append_of_pos hw, List.dropWhile_append_of_pos hw]
  cases y with
  | nil => simp
  | cons c y => simp [hy c rfl]

/-- a run of a class stops in front of no other member -/
theorem dropWhile_stops (p : Char → Bool) (z : List Char) :
    ∀ c ∈ (z.dropWhile p).head?, p c = false := by
  intro c hc
  have hhead := List.head?_dropWhile_not p z
  rw [hc] at hhead
  simpa using hhead

/-- a run of a class that ends within `u`, or with it, does not depend on what follows `u` -/
theorem span_local {p : Char → Bool} (h : (u ++ y).dropWhile p = x ++ y)
    (hstop : x = [] → ∀ c ∈ z.head?, p c = false) :
    (u ++ z).takeWhile p = (u ++ y).takeWhile p ∧ (u ++ z).dropWhile p = x ++ z := by
  have hu : u = (u ++ y).takeWhile p ++ x := by
    apply append_eq_of_append (y := y)
    rw [← h, List.takeWhile_append_dropWhile]
  have hx : ∀ c ∈ (x ++ z).head?, p c = false := by
    cases x with
    | nil => exact hstop rfl
    | cons c x =>
      intro d hd
      obtain rfl : c = d := by simpa using hd
      exact dropWhile_stops p (u ++ y) c (by rw [h]; rfl)
  have hw : ∀ c ∈ (u ++ y).takeWhile p, p c = true := fun c hc => List.mem_takeWhile_imp hc
  have hspan := span_exact hw hx
  rw [← List.append_assoc, ← hu] at hspan
  exact hspan

/-- what a second run leaves is left by the first one -/
theorem exists_left_of_dropWhile {p : Char → Bool}
    (h : z.dropWhile p = x ++ y) : ∃ w, z = w ++ y := by
  refine ⟨z.takeWhile p ++ x, ?_⟩
  rw [List.append_assoc, ← h, List.takeWhile_append_dropWhile]

theorem lineEnd_of_dropWhile (h : z.dropWhile (· != '\n') = y) : LineEnd y := by
  subst h
  intro c hc
  simpa using dropWhile_stops (· != '\n') z c hc

theorem eq_nil_of_suffix (h : x ++ y <:+ y) : x = [] := by
  have hle := h.length_le
  rw [List.length_append] at hle
  exact List.length_eq_zero_iff.mp (by omega)

end

namespace Local

/-- one character more may be looked at in front of what is left -/
theorem cons {g : List Char → Front} (hg : Local g) (c : Char) : Local fun cs => g (c :: cs) :=
  fun u _ _ _ h hy hline => hg (u := c :: u) h hy hline

theorem ite {p : Prop} [Decidable p] {f g : List Char → Front} (hf : Local f) (hg : Local g) :
    Local fun cs => if p then f cs else g cs := by
  by_cases h : p
  · simpa only [if_pos h] using hf
  · simpa only [if_neg h] using hg

/-- a decision that leaves all that is left -/
theorem of_withRest {g : List Char → Front} (hrest : ∀ {r s}, (g r).rest? = some s → r = s)
    (hg : ∀ r r', g r' = (g r).withRest r') : Local g := by
  intro u x y y' h _ _
  obtain rfl := List.append_cancel_right (hrest h)
  exact hg _ _

theorem blank (c : Char) : Local (.blank c) := .of_withRest Option.some.inj fun _ _ => rfl

theorem template : Local .template := .of_withRest Option.some.inj fun _ _ => rfl

theorem atom (a : Atom) (lexeme : List Char) : Local (.atom a lexeme) :=
  .of_withRest Option.some.inj fun _ _ => rfl

theorem fail (e : LexError) : Local fun _ => .fail e :=
  fun _ _ _ _ h _ _ => nomatch h

/-- `g` looks at the next character and either takes it or is `k` -/
theorem peek {g k : List Char → Front} (hk : Local k) (hcons : ∀ c, Local fun cs => g (c :: cs))
    (hnil : g [] = k []) (hbreak : ∀ c ∈ breaks, ∀ cs, g (c :: cs) = k (c :: cs))
    (htakes : ∀ c, (∀ cs, g (c :: cs) = k (c :: cs)) ∨
      ∀ cs r, (g (c :: cs)).rest? = some r → r.length ≤ cs.length) : Local g := by
  intro u x y y' h hy hline
  cases u with
  | cons c u => exact hcons c h hy hline
  | nil =>
    simp only [List.nil_append] at h hline ⊢
    -- the character at the front of `y` is left, so `g` does not take it, whatever is behind it
    have hleft : ∀ c z, y = c :: z → ∀ cs, g (c :: cs) = k (c :: cs) := by
      rintro c z rfl
      rcases htakes c with hsame | htakes
      · exact hsame
      · have hle := htakes z _ h
        simp only [List.length_append, List.length_cons] at hle
        omega
    have hsame : g y = k y := by
      cases y with
      | nil => exact hnil
      | cons c y => exact hleft c y rfl y
    have hsame' : g y' = k y' := by
      rcases hy with hbreak' | ⟨c, z, z', -, hz, rfl⟩
      · cases y' with
        | nil => exact hnil
        | cons c y' => exact hbreak c (break_cons.mp hbreak') y'
      · exact hleft c z hz z'
    rw [hsame, hsame']
    rw [hsame] at h hline
    exact hk (u := []) h hy hline

end Local

end ScriptLexer

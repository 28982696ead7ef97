import ScriptLexer.Token.Basic

/-!
# Tokens at any depth

A token holds token lists of its own: the body of a macro definition, the sections of a template.
This module names what "anywhere in the tree" means.

* `Occurs t ts`      the token `t` stands in the list `ts`, or in a list inside one of its tokens;
* `IsListOf l ts`    `l` is `ts` itself, or a list directly inside a token that occurs in `ts`.

`occurs_iff_mem_preorder` says that the listing `preorder` shows the occurring tokens and no others.
-/

namespace ScriptLexer

/-- the token `t` stands in the list, or in a list inside one of its tokens -/
inductive Occurs (t : Token) : List Token → Prop where
  | here {ts : List Token} (hmem : t ∈ ts) : Occurs t ts
  | inside {u : Token} {l ts : List Token} (hu : u ∈ ts) (hl : l ∈ u.kind.inner)
      (hin : Occurs t l) : Occurs t ts

/-- `l` is one of the token lists of the tree over `ts`: the list at the top, a body or a section -/
def IsListOf (l ts : List Token) : Prop := l = ts ∨ ∃ u, Occurs u ts ∧ l ∈ u.kind.inner

/-! ## where a token may occur -/

theorem Occurs.mono {t : Token} {a b : List Token} (h : Occurs t a) (hab : ∀ u ∈ a, u ∈ b) :
    Occurs t b := by
  cases h with
  | here hmem => exact .here (hab t hmem)
  | inside hu hl hin => exact .inside (hab _ hu) hl hin

/-- what occurs in a list inside an occurring token occurs -/
theorem Occurs.trans {t u : Token} {l ts : List Token} (hu : Occurs u ts) (hl : l ∈ u.kind.inner)
    (ht : Occurs t l) : Occurs t ts := by
  induction hu with
  | here hmem => exact .inside hmem hl ht
  | inside hv hl' _ ih => exact .inside hv hl' ih

theorem not_occurs_nil (t : Token) : ¬ Occurs t [] := by
  intro h
  cases h with
  | here hmem => cases hmem
  | inside hu _ _ => cases hu

theorem occurs_cons {t u : Token} {ts : List Token} :
    Occurs t (u :: ts) ↔ t = u ∨ (∃ l ∈ u.kind.inner, Occurs t l) ∨ Occurs t ts := by
  constructor
  · intro h
    cases h with
    | here hmem =>
      rcases List.mem_cons.mp hmem with rfl | hmem
      · exact .inl rfl
      · exact .inr (.inr (.here hmem))
    | inside hu hl hin =>
      rcases List.mem_cons.mp hu with rfl | hu
      · exact .inr (.inl ⟨_, hl, hin⟩)
      · exact .inr (.inr (.inside hu hl hin))
  · rintro (rfl | ⟨l, hl, hin⟩ | hin)
    · exact .here List.mem_cons_self
    · exact .inside List.mem_cons_self hl hin
    · exact hin.mono fun v hv => List.mem_cons_of_mem u hv

/-- the order of the list does not matter -/
theorem occurs_reverse {t : Token} {ts : List Token} : Occurs t ts.reverse ↔ Occurs t ts :=
  ⟨fun h => h.mono fun _ hu => List.mem_reverse.mp hu,
    fun h => h.mono fun _ hu => List.mem_reverse.mpr hu⟩

/-! ## the listing -/

theorem preorder_append (depth : Nat) (a b : List Token) :
    preorder depth (a ++ b) = preorder depth a ++ preorder depth b := by
  induction a with
  | nil => rfl
  | cons u a ih =>
    rw [List.cons_append, preorder_cons, preorder_cons, ih, List.cons_append, List.append_assoc]

theorem preorderSections_eq (depth : Nat) (ss : List (Section Token)) :
    preorderSections depth ss = (ss.map Section.tokens).flatMap (preorder depth) := by
  induction ss with
  | nil => rfl
  | cons s ss ih => rw [List.map_cons, List.flatMap_cons, ← ih]; rfl

/-- below a kind the listing shows its lists, one after the other -/
theorem Kind.preorder_eq (depth : Nat) (k : Kind) :
    k.preorder depth = k.inner.flatMap (ScriptLexer.preorder depth) := by
  cases k with
  | atom a => rfl
  | template t => exact preorderSections_eq depth t.sections
  | macroDef m => exact (List.append_nil _).symm

theorem Occurs.mem_preorder {t : Token} {ts : List Token} (h : Occurs t ts) (depth : Nat) :
    ∃ d, (d, t) ∈ preorder depth ts := by
  induction h generalizing depth with
  | here hmem =>
    obtain ⟨a, b, rfl⟩ := List.append_of_mem hmem
    refine ⟨depth, ?_⟩
    rw [preorder_append, preorder_cons]
    exact List.mem_append_right _ List.mem_cons_self
  | inside hu hl _ ih =>
    obtain ⟨a, b, rfl⟩ := List.append_of_mem hu
    obtain ⟨d, hd⟩ := ih (depth + 1)
    refine ⟨d, ?_⟩
    rw [preorder_append, preorder_cons, Kind.preorder_eq]
    refine List.mem_append_right _ (List.mem_cons_of_mem _ (List.mem_append_left _ ?_))
    exact List.mem_flatMap.mpr ⟨_, hl, hd⟩

mutual

theorem occurs_of_mem_kindPreorder {t : Token} {d : Nat} (depth : Nat) :
    (k : Kind) → (d, t) ∈ k.preorder depth → ∃ l ∈ k.inner, Occurs t l
  | .atom _, h => by cases h
  | .template ⟨_, _, ss⟩, h => occurs_of_mem_preorderSections depth ss h
  | .macroDef ⟨_, _, _, _, _, body⟩, h =>
    ⟨body, List.mem_cons_self, occurs_of_mem_preorder depth body h⟩

theorem occurs_of_mem_preorderSections {t : Token} {d : Nat} (depth : Nat) :
    (ss : List (Section Token)) → (d, t) ∈ preorderSections depth ss →
      ∃ l ∈ ss.map Section.tokens, Occurs t l
  | [], h => by cases h
  | ⟨_, _, ts⟩ :: ss, h => by
    rcases List.mem_append.mp h with h | h
    · exact ⟨ts, List.mem_cons_self, occurs_of_mem_preorder depth ts h⟩
    · obtain ⟨l, hl, hin⟩ := occurs_of_mem_preorderSections depth ss h
      exact ⟨l, List.mem_cons_of_mem _ hl, hin⟩

theorem occurs_of_mem_preorder {t : Token} {d : Nat} (depth : Nat) :
    (ts : List Token) → (d, t) ∈ preorder depth ts → Occurs t ts
  | [], h => by cases h
  | ⟨k, p, q⟩ :: ts, h => by
    rcases List.mem_cons.mp h with h | h
    · exact occurs_cons.mpr (.inl (Prod.mk.inj h).2)
    · rcases List.mem_append.mp h with h | h
      · exact occurs_cons.mpr (.inr (.inl (occurs_of_mem_kindPreorder (depth + 1) k h)))
      · exact occurs_cons.mpr (.inr (.inr (occurs_of_mem_preorder depth ts h)))

end

/-- the listing shows the tokens that occur, and no others -/
theorem occurs_iff_mem_preorder {t : Token} {ts : List Token} (depth : Nat) :
    Occurs t ts ↔ ∃ d, (d, t) ∈ preorder depth ts :=
  ⟨fun h => h.mem_preorder depth, fun ⟨_, h⟩ => occurs_of_mem_preorder depth ts h⟩

end ScriptLexer

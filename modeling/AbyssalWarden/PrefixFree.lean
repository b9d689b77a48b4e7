import Mathlib

/-! The outermost of a list of sequences: those that no other one is a prefix of. One pass over the sorted list is
enough to find them, as a prefix sorts before what it is a prefix of. -/
namespace AbyssalWarden

variable {α σ : Type*} [BEq σ] {key : α → List σ} {kept l : List α} {a b k : α} {x : List σ}

/-- The entries that are kept, with what was kept before: one is left out when it lies under a kept one. -/
def keepOutermost (key : α → List σ) : List α → List α → List α
  | kept, [] => kept
  | kept, a :: l =>
    if kept.any fun k => (key k).isPrefixOf (key a) then keepOutermost key kept l
    else keepOutermost key (kept ++ [a]) l

/-- Neither lies under the other. -/
def Apart (key : α → List σ) (a b : α) : Prop := ¬ key a <+: key b ∧ ¬ key b <+: key a

theorem mem_keepOutermost (h : a ∈ keepOutermost key kept l) : a ∈ kept ∨ a ∈ l := by
  induction l generalizing kept with
  | nil => exact Or.inl h
  | cons b l ih =>
    rw [keepOutermost] at h
    split at h
    · rcases ih h with hkept | hl
      · exact Or.inl hkept
      · exact Or.inr (List.mem_cons_of_mem b hl)
    · rcases ih h with hkept | hl
      · rcases List.mem_append.mp hkept with hkept | hb
        · exact Or.inl hkept
        · exact Or.inr (List.mem_cons.mpr (Or.inl (List.mem_singleton.mp hb)))
      · exact Or.inr (List.mem_cons_of_mem b hl)

theorem kept_subset_keepOutermost : kept ⊆ keepOutermost key kept l := by
  induction l generalizing kept with
  | nil => exact List.Subset.refl kept
  | cons b l ih =>
    rw [keepOutermost]
    split
    · exact ih
    · apply List.Subset.trans _ ih
      exact List.subset_append_left kept [b]

variable [LawfulBEq σ]

/-- What is left out lies under something that is kept. -/
theorem keepOutermost_covers (h : a ∈ l) : ∃ k ∈ keepOutermost key kept l, key k <+: key a := by
  induction l generalizing kept with
  | nil => cases h
  | cons b l ih =>
    rw [keepOutermost]
    split
    · rename_i hany
      rcases List.mem_cons.mp h with rfl | hl
      · obtain ⟨k, hk, hunder⟩ := List.any_eq_true.mp hany
        exact ⟨k, kept_subset_keepOutermost hk, List.isPrefixOf_iff_prefix.mp hunder⟩
      · exact ih hl
    · rcases List.mem_cons.mp h with rfl | hl
      · have hmem : a ∈ kept ++ [a] := List.mem_append_right kept List.mem_cons_self
        exact ⟨a, kept_subset_keepOutermost hmem, List.prefix_refl (key a)⟩
      · exact ih hl

/-- Of entries that are apart, at most one is a prefix of a sequence, as its prefixes are ordered among themselves. -/
theorem countP_of_apart (hkept : kept.Pairwise (Apart key)) (hk : k ∈ kept) (hx : key k <+: x) :
    kept.countP (fun k => (key k).isPrefixOf x) = 1 := by
  induction kept with
  | nil => cases hk
  | cons a kept ih =>
    obtain ⟨hhead, htail⟩ := List.pairwise_cons.mp hkept
    have honly : ∀ b ∈ kept, key a <+: x → ¬ key b <+: x := by
      intro b hb ha hbx
      rcases List.prefix_or_prefix_of_prefix ha hbx with hab | hba
      · exact (hhead b hb).1 hab
      · exact (hhead b hb).2 hba
    by_cases ha : key a <+: x
    · have hnone : kept.countP (fun k => (key k).isPrefixOf x) = 0 := by
        rw [List.countP_eq_zero]
        intro b hb hbx
        exact honly b hb ha (List.isPrefixOf_iff_prefix.mp hbx)
      rw [List.countP_cons, hnone, if_pos (List.isPrefixOf_iff_prefix.mpr ha)]
    · rcases List.mem_cons.mp hk with rfl | hmem
      · exact absurd hx ha
      · rw [List.countP_cons, ih htail hmem, if_neg fun h => ha (List.isPrefixOf_iff_prefix.mp h)]

variable [LinearOrder σ]

omit [BEq σ] [LawfulBEq σ] in
theorem prefix_le {a b : List σ} (h : a <+: b) : a ≤ b := by
  induction a generalizing b with
  | nil =>
    cases b with
    | nil => exact le_refl _
    | cons y b => exact le_of_lt List.Lex.nil
  | cons y a ih =>
    cases b with
    | nil => exact absurd (List.prefix_nil.mp h) (List.cons_ne_nil y a)
    | cons z b =>
      obtain ⟨rfl, htail⟩ := List.cons_prefix_cons.mp h
      exact List.cons_le_cons y (ih htail)

/-- Of a sorted list, no kept entry lies under another. The entries kept so far sort before the ones to come, so that
none of them can lie under one of those. -/
theorem keepOutermost_apart (hkept : kept.Pairwise (Apart key)) (hsorted : l.Pairwise fun a b => key a ≤ key b)
    (hbefore : ∀ k ∈ kept, ∀ a ∈ l, key k ≤ key a) : (keepOutermost key kept l).Pairwise (Apart key) := by
  induction l generalizing kept with
  | nil => exact hkept
  | cons a l ih =>
    obtain ⟨hhead, htail⟩ := List.pairwise_cons.mp hsorted
    have hrest : ∀ k ∈ kept, ∀ b ∈ l, key k ≤ key b := fun k hk b hb => hbefore k hk b (List.mem_cons_of_mem a hb)
    rw [keepOutermost]
    split
    · exact ih hkept htail hrest
    · rename_i hany
      have hnot : ∀ k ∈ kept, ¬ key k <+: key a := by
        intro k hk hunder
        exact hany (List.any_eq_true.mpr ⟨k, hk, List.isPrefixOf_iff_prefix.mpr hunder⟩)
      apply ih _ htail
      · intro k hk b hb
        rcases List.mem_append.mp hk with hk | hk
        · exact hrest k hk b hb
        · rw [List.mem_singleton.mp hk]
          exact hhead b hb
      · rw [List.pairwise_append]
        refine ⟨hkept, List.pairwise_singleton _ a, ?_⟩
        intro k hk b hb
        rw [List.mem_singleton.mp hb]
        refine ⟨hnot k hk, fun hover => ?_⟩
        -- the new one would sort before the kept one, so they have the same key
        have heq : key a = key k := le_antisymm (prefix_le hover) (hbefore k hk a List.mem_cons_self)
        exact hnot k hk (heq ▸ List.prefix_refl (key k))

end AbyssalWarden

import Mathlib

/-! Stable sorting by a key. A sorted list is determined by what it holds at each key, in its order, and that is
what a stable sort keeps. So lists are sorted alike just when they agree key by key; lists that are put together
from blocks do, whatever the order of the blocks, when no key is in two of them. -/
namespace AbyssalWarden

variable {α β κ : Type*} [LinearOrder κ] {key : α → κ} {k : κ} {l l' : List α}

/-- `sort_by` with this key: entries with equal keys stay in their order. -/
def stableSort (key : α → κ) (l : List α) : List α := l.insertionSort fun a b => key a ≤ key b

/-- What the list holds at the key. -/
def atKey (key : α → κ) (k : κ) (l : List α) : List α := l.filter fun a => key a = k

@[simp] theorem atKey_nil : atKey key k [] = [] := rfl

theorem atKey_cons_of_eq {a : α} (h : key a = k) : atKey key k (a :: l) = a :: atKey key k l := by
  rw [atKey, List.filter_cons_of_pos (by simpa using h)]
  rfl

theorem atKey_cons_of_ne {a : α} (h : key a ≠ k) : atKey key k (a :: l) = atKey key k l := by
  rw [atKey, List.filter_cons_of_neg (by simpa using h)]
  rfl

theorem atKey_append : atKey key k (l ++ l') = atKey key k l ++ atKey key k l' := List.filter_append _ _

theorem mem_atKey {a : α} : a ∈ atKey key k l ↔ a ∈ l ∧ key a = k := by
  simp [atKey]

theorem atKey_eq_nil (h : ∀ a ∈ l, key a ≠ k) : atKey key k l = [] :=
  List.filter_eq_nil_iff.mpr fun a ha => by simpa using h a ha

/-- What is at a key is at the key in any part of the list that has all of it. -/
theorem atKey_filter {p : α → Bool} (h : ∀ a ∈ l, key a = k → p a = true) :
    atKey key k (l.filter p) = atKey key k l := by
  rw [atKey, List.filter_filter]
  refine List.filter_congr fun a ha => ?_
  by_cases hkey : key a = k
  · simp [hkey, h a ha hkey]
  · simp [hkey]

/-! ### Sorting -/

theorem atKey_orderedInsert (a : α) (l : List α) :
    atKey key k (l.orderedInsert (fun a b => key a ≤ key b) a) = atKey key k (a :: l) := by
  induction l with
  | nil => rfl
  | cons b l ih =>
    rw [List.orderedInsert_cons]
    split
    · rfl
    · rename_i hlt
      by_cases hb : key b = k
      · have ha : key a ≠ k := by
          intro hak
          exact hlt (hak.trans hb.symm).le
        rw [atKey_cons_of_eq hb, ih, atKey_cons_of_ne ha, atKey_cons_of_ne ha, atKey_cons_of_eq hb]
      · rw [atKey_cons_of_ne hb, ih]
        by_cases ha : key a = k
        · rw [atKey_cons_of_eq ha, atKey_cons_of_eq ha, atKey_cons_of_ne hb]
        · rw [atKey_cons_of_ne ha, atKey_cons_of_ne ha, atKey_cons_of_ne hb]

/-- The sort is stable. -/
theorem atKey_stableSort (key : α → κ) (k : κ) (l : List α) : atKey key k (stableSort key l) = atKey key k l := by
  induction l with
  | nil => rfl
  | cons a l ih =>
    have hinsert : stableSort key (a :: l) = (stableSort key l).orderedInsert (fun a b => key a ≤ key b) a := rfl
    rw [hinsert, atKey_orderedInsert]
    by_cases ha : key a = k
    · rw [atKey_cons_of_eq ha, atKey_cons_of_eq ha, ih]
    · rw [atKey_cons_of_ne ha, atKey_cons_of_ne ha, ih]

theorem stableSort_perm (key : α → κ) (l : List α) : (stableSort key l).Perm l := List.perm_insertionSort _ l

@[simp] theorem stableSort_length (key : α → κ) (l : List α) : (stableSort key l).length = l.length :=
  (stableSort_perm key l).length_eq

theorem stableSort_sorted (key : α → κ) (l : List α) : (stableSort key l).Pairwise fun a b => key a ≤ key b := by
  have htotal : Std.Total fun a b : α => key a ≤ key b := ⟨fun a b => le_total (key a) (key b)⟩
  have htrans : IsTrans α fun a b => key a ≤ key b := ⟨fun _ _ _ => le_trans⟩
  exact List.pairwise_insertionSort _ l

/-- Sorted lists that agree at every key are equal. -/
theorem eq_of_atKey (hl : l.Pairwise fun a b => key a ≤ key b) (hl' : l'.Pairwise fun a b => key a ≤ key b)
    (h : ∀ k, atKey key k l = atKey key k l') : l = l' := by
  have hmem (l l' : List α) (h : ∀ k, atKey key k l = atKey key k l') (a : α) (ha : a ∈ l) : a ∈ l' := by
    have hat : a ∈ atKey key (key a) l := mem_atKey.mpr ⟨ha, rfl⟩
    rw [h] at hat
    exact (mem_atKey.mp hat).1
  induction l generalizing l' with
  | nil =>
    cases l' with
    | nil => rfl
    | cons b l' => exact absurd (hmem _ _ (fun k => (h k).symm) b List.mem_cons_self) List.not_mem_nil
  | cons a l ih =>
    cases l' with
    | nil => exact absurd (hmem _ _ h a List.mem_cons_self) List.not_mem_nil
    | cons b l' =>
      obtain ⟨hale, hsorted⟩ := List.pairwise_cons.mp hl
      obtain ⟨hble, hsorted'⟩ := List.pairwise_cons.mp hl'
      -- both heads have the least key of all
      have hab : key a ≤ key b := by
        cases List.mem_cons.mp (hmem _ _ (fun k => (h k).symm) b List.mem_cons_self) with
        | inl heq => exact (congrArg key heq).ge
        | inr hb => exact hale b hb
      have hba : key b ≤ key a := by
        cases List.mem_cons.mp (hmem _ _ h a List.mem_cons_self) with
        | inl heq => exact (congrArg key heq).ge
        | inr ha => exact hble a ha
      have hkey : key b = key a := le_antisymm hba hab
      have hhead := h (key a)
      rw [atKey_cons_of_eq rfl, atKey_cons_of_eq hkey] at hhead
      obtain ⟨rfl, -⟩ := List.cons.inj hhead
      refine congrArg (a :: ·) (ih hsorted hsorted' fun k => ?_)
      have hk := h k
      by_cases ha : key a = k
      · rw [atKey_cons_of_eq ha, atKey_cons_of_eq ha] at hk
        exact (List.cons.inj hk).2
      · rw [atKey_cons_of_ne ha, atKey_cons_of_ne ha] at hk
        exact hk

theorem stableSort_eq_iff : stableSort key l = stableSort key l' ↔ ∀ k, atKey key k l = atKey key k l' := by
  constructor
  · intro h k
    rw [← atKey_stableSort, h, atKey_stableSort]
  · intro h
    refine eq_of_atKey (stableSort_sorted key l) (stableSort_sorted key l') fun k => ?_
    rw [atKey_stableSort, atKey_stableSort, h]

/-! ### Blocks -/

variable {blocks blocks' : List β} {entries : β → List α}

theorem atKey_flatMap : atKey key k (blocks.flatMap entries) = blocks.flatMap fun b => atKey key k (entries b) := by
  induction blocks with
  | nil => rfl
  | cons b blocks ih => rw [List.flatMap_cons, List.flatMap_cons, atKey_append, ih]

/-- The order of the blocks does not matter at a key that only one of them has. -/
theorem atKey_flatMap_perm (hperm : blocks.Perm blocks')
    (hone : blocks.Pairwise fun b b' => atKey key k (entries b) = [] ∨ atKey key k (entries b') = []) :
    atKey key k (blocks.flatMap entries) = atKey key k (blocks'.flatMap entries) := by
  rw [atKey_flatMap, atKey_flatMap]
  induction hperm with
  | nil => rfl
  | cons b hrest ih => rw [List.flatMap_cons, List.flatMap_cons, ih (List.pairwise_cons.mp hone).2]
  | swap b b' rest =>
    have hhead := (List.pairwise_cons.mp hone).1 b List.mem_cons_self
    rw [List.flatMap_cons, List.flatMap_cons, List.flatMap_cons, List.flatMap_cons, ← List.append_assoc,
      ← List.append_assoc]
    cases hhead with
    | inl hnil => rw [hnil, List.nil_append, List.append_nil]
    | inr hnil => rw [hnil, List.nil_append, List.append_nil]
  | trans h₁ _ ih₁ ih₂ =>
    have hsymm : ∀ {b b' : β}, (atKey key k (entries b) = [] ∨ atKey key k (entries b') = []) →
        (atKey key k (entries b') = [] ∨ atKey key k (entries b) = []) := Or.symm
    rw [ih₁ hone, ih₂ ((h₁.pairwise_iff hsymm).mp hone)]

end AbyssalWarden

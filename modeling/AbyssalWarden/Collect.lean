import Mathlib

/-! Lists that are built by pushing what they do not hold yet: they have no repeats, and up to their order they do
not depend on the order in which the elements came. -/
namespace AbyssalWarden

variable {α β : Type} [DecidableEq β] {f : α → Option β} {as as' : List α} {a : α} {b c : β} {out : List β}

/-- `if !out.contains(&b) { out.push(b) }` -/
def pushNew (out : List β) (b : β) : List β := if b ∈ out then out else out ++ [b]

/-- What `f` makes of the elements, each pushed if it is new. -/
def collectNew (f : α → Option β) (as : List α) : List β :=
  as.foldl (fun out a => (f a).elim out (pushNew out)) []

theorem mem_pushNew : c ∈ pushNew out b ↔ c ∈ out ∨ c = b := by
  unfold pushNew
  by_cases h : b ∈ out
  · rw [if_pos h]
    constructor
    · exact fun hc => Or.inl hc
    · intro hc
      rcases hc with hc | rfl
      · exact hc
      · exact h
  · rw [if_neg h, List.mem_append, List.mem_singleton]

theorem nodup_pushNew (h : out.Nodup) : (pushNew out b).Nodup := by
  unfold pushNew
  by_cases hb : b ∈ out
  · rw [if_pos hb]
    exact h
  · rw [if_neg hb]
    apply List.nodup_append.mpr
    refine ⟨h, List.nodup_singleton b, ?_⟩
    intro c hc d hd heq
    rw [List.mem_singleton.mp hd] at heq
    exact hb (heq ▸ hc)

theorem length_pushNew_of_mem (h : b ∈ out) : (pushNew out b).length = out.length := by
  rw [pushNew, if_pos h]

theorem length_pushNew_of_notMem (h : b ∉ out) : (pushNew out b).length = out.length + 1 := by
  rw [pushNew, if_neg h, List.length_append, List.length_singleton]

theorem collectNew_concat : collectNew f (as ++ [a]) = (f a).elim (collectNew f as) (pushNew (collectNew f as)) := by
  rw [collectNew, List.foldl_append]
  rfl

theorem collectNew_concat_some (h : f a = some b) : collectNew f (as ++ [a]) = pushNew (collectNew f as) b := by
  rw [collectNew_concat, h]
  rfl

theorem collectNew_concat_none (h : f a = none) : collectNew f (as ++ [a]) = collectNew f as := by
  rw [collectNew_concat, h]
  rfl

/-- What is collected is what some element makes. -/
theorem mem_collectNew : b ∈ collectNew f as ↔ ∃ a ∈ as, f a = some b := by
  induction as using List.reverseRecOn with
  | nil => simp [collectNew]
  | append_singleton as a ih =>
    have hsplit : (∃ a' ∈ as ++ [a], f a' = some b) ↔ (∃ a' ∈ as, f a' = some b) ∨ f a = some b := by
      simp [or_and_right, exists_or]
    rw [hsplit, ← ih]
    cases hfa : f a with
    | none =>
      rw [collectNew_concat_none hfa]
      simp
    | some c =>
      rw [collectNew_concat_some hfa, mem_pushNew, Option.some.injEq, eq_comm]

theorem nodup_collectNew : (collectNew f as).Nodup := by
  induction as using List.reverseRecOn with
  | nil => exact List.nodup_nil
  | append_singleton as a ih =>
    cases hfa : f a with
    | none =>
      rw [collectNew_concat_none hfa]
      exact ih
    | some c =>
      rw [collectNew_concat_some hfa]
      exact nodup_pushNew ih

/-- In another order the same is collected. -/
theorem collectNew_perm (h : as.Perm as') : (collectNew f as).Perm (collectNew f as') := by
  apply (List.perm_ext_iff_of_nodup nodup_collectNew nodup_collectNew).mpr
  intro b
  rw [mem_collectNew, mem_collectNew]
  simp only [h.mem_iff]

/-- What is collected are as many as any list without repeats of the same elements holds. -/
theorem collectNew_length {bs : List β} (hbs : bs.Nodup) (hmem : ∀ b, b ∈ bs ↔ ∃ a ∈ as, f a = some b) :
    (collectNew f as).length = bs.length := by
  have hperm : (collectNew f as).Perm bs := by
    apply (List.perm_ext_iff_of_nodup nodup_collectNew hbs).mpr
    intro b
    rw [mem_collectNew, hmem]
  exact hperm.length_eq

variable [BEq β] [LawfulBEq β]

omit [DecidableEq β] in
/-- In a list of pairs without repeated keys, what a key leads to is what stands beside it. -/
theorem lookup_eq_some_iff_mem {γ : Type} {pairs : List (β × γ)} (hkeys : (pairs.map Prod.fst).Nodup) {c : γ} :
    pairs.lookup b = some c ↔ (b, c) ∈ pairs := by
  constructor
  · intro h
    obtain ⟨before, after, heq, -⟩ := List.lookup_eq_some_iff.mp h
    rw [heq]
    simp
  · intro h
    obtain ⟨before, after, heq⟩ := List.append_of_mem h
    apply List.lookup_eq_some_iff.mpr
    refine ⟨before, after, heq, ?_⟩
    intro p hp
    rw [heq, List.map_append, List.map_cons, List.nodup_append] at hkeys
    have hne : p.1 ≠ b := hkeys.2.2 p.1 (List.mem_map_of_mem hp) b List.mem_cons_self
    simpa using hne.symm

/-! ### The first element for each -/

/-- `if pairs.len() < max { if let Some(b) = f(a) { pairs.entry(b).or_insert(a) } }` -/
def addFirst (max : ℕ) (f : α → Option β) (pairs : List (β × α)) (a : α) : List (β × α) :=
  if pairs.length ≥ max then pairs
  else
    match f a with
    | none => pairs
    | some b => if (pairs.lookup b).isSome then pairs else pairs ++ [(b, a)]

def collectFirst (max : ℕ) (f : α → Option β) (as : List α) : List (β × α) := as.foldl (addFirst max f) []

variable {max : ℕ} {pairs : List (β × α)}

omit [DecidableEq β] [LawfulBEq β] in
theorem collectFirst_concat : collectFirst max f (as ++ [a]) = addFirst max f (collectFirst max f as) a := by
  rw [collectFirst, List.foldl_append]
  rfl

omit [DecidableEq β] in
theorem isSome_lookup {γ : Type} {pairs : List (β × γ)} :
    (pairs.lookup b).isSome = true ↔ b ∈ pairs.map Prod.fst := by
  rw [List.lookup_isSome_iff, List.mem_map]
  apply exists_congr
  intro p
  rw [beq_iff_eq, eq_comm]

theorem take_pushNew (h : max ≤ out.length) : (pushNew out b).take max = out.take max := by
  by_cases hb : b ∈ out
  · rw [pushNew, if_pos hb]
  · rw [pushNew, if_neg hb, List.take_append_of_le_length h]

theorem addFirst_keys (h : pairs.map Prod.fst = out.take max) :
    (addFirst max f pairs a).map Prod.fst = ((f a).elim out (pushNew out)).take max := by
  have hlength : pairs.length = min max out.length := by
    rw [← List.length_map, h, List.length_take]
  by_cases hfull : pairs.length ≥ max
  · -- the map is full, and so is what is kept of the list
    have hmax : max ≤ out.length := by omega
    rw [addFirst, if_pos hfull, h]
    cases f a with
    | none => rfl
    | some b => exact (take_pushNew hmax).symm
  · have hall : out.take max = out := List.take_of_length_le (by omega)
    rw [addFirst, if_neg hfull]
    cases f a with
    | none => exact h
    | some b =>
      rw [hall] at h
      -- there is room for one more
      have hkept : (pushNew out b).take max = pushNew out b := by
        apply List.take_of_length_le
        by_cases hb : b ∈ out
        · rw [length_pushNew_of_mem hb]
          omega
        · rw [length_pushNew_of_notMem hb]
          omega
      simp only [Option.elim_some, isSome_lookup, h]
      rw [hkept]
      by_cases hb : b ∈ out
      · rw [if_pos hb, pushNew, if_pos hb, h]
      · rw [if_neg hb, pushNew, if_neg hb, List.map_append, h, List.map_singleton]

/-- The keys are the first of what is collected. -/
theorem collectFirst_keys : (collectFirst max f as).map Prod.fst = (collectNew f as).take max := by
  induction as using List.reverseRecOn with
  | nil => simp [collectFirst, collectNew]
  | append_singleton as a ih => rw [collectFirst_concat, collectNew_concat, addFirst_keys ih]

omit [DecidableEq β] [LawfulBEq β] in
/-- Beside a key stands an element it was made of. -/
theorem mem_collectFirst (h : (b, a) ∈ collectFirst max f as) : a ∈ as ∧ f a = some b := by
  induction as using List.reverseRecOn with
  | nil => cases h
  | append_singleton as a' ih =>
    rw [List.mem_append]
    rw [collectFirst_concat, addFirst] at h
    by_cases hfull : (collectFirst max f as).length ≥ max
    · rw [if_pos hfull] at h
      exact ⟨Or.inl (ih h).1, (ih h).2⟩
    · rw [if_neg hfull] at h
      cases hfa : f a' with
      | none =>
        rw [hfa] at h
        exact ⟨Or.inl (ih h).1, (ih h).2⟩
      | some c =>
        simp only [hfa] at h
        by_cases hknown : ((collectFirst max f as).lookup c).isSome
        · rw [if_pos hknown] at h
          exact ⟨Or.inl (ih h).1, (ih h).2⟩
        · rw [if_neg hknown, List.mem_append, List.mem_singleton, Prod.mk.injEq] at h
          obtain hmem | ⟨rfl, rfl⟩ := h
          · exact ⟨Or.inl (ih hmem).1, (ih hmem).2⟩
          · exact ⟨Or.inr (List.mem_singleton.mpr rfl), hfa⟩

theorem nodup_collectFirst_keys : ((collectFirst max f as).map Prod.fst).Nodup := by
  rw [collectFirst_keys]
  exact nodup_collectNew.sublist (List.take_sublist _ _)

end AbyssalWarden

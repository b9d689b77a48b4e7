import Mathlib

/-! Maps whose entries only move up. `MapLE r` says that nothing is dropped from a map and that
every value is replaced only by a value `r`-above it. -/
namespace AbyssalWarden

abbrev BTreeMap (α β : Type) [Ord α] : Type := Std.ExtTreeMap α β compare

variable {α β : Type} [Ord α] [Std.TransOrd α] {r : β → β → Prop} {m m₁ m₂ m₃ : BTreeMap α β}
  {k : α} {w : β}

def MapLE (r : β → β → Prop) (m m' : BTreeMap α β) : Prop :=
  ∀ (k : α) (v : β), m[k]? = some v → ∃ w, m'[k]? = some w ∧ r v w

theorem mapLE_refl (hr : ∀ v, r v v) (m : BTreeMap α β) : MapLE r m m :=
  fun _ v h => ⟨v, h, hr v⟩

theorem MapLE.trans (hr : ∀ u v w, r u v → r v w → r u w) (h₁ : MapLE r m₁ m₂)
    (h₂ : MapLE r m₂ m₃) : MapLE r m₁ m₃ := by
  intro k u hu
  obtain ⟨v, hv, huv⟩ := h₁ k u hu
  obtain ⟨w, hw, hvw⟩ := h₂ k v hv
  exact ⟨w, hw, hr u v w huv hvw⟩

theorem MapLE.mem (h : MapLE r m₁ m₂) (hk : k ∈ m₁) : k ∈ m₂ := by
  obtain ⟨v, hv⟩ := Option.isSome_iff_exists.mp (Std.ExtTreeMap.mem_iff_isSome_getElem?.mp hk)
  obtain ⟨w, hw, _⟩ := h k v hv
  exact Std.ExtTreeMap.mem_iff_isSome_getElem?.mpr (by rw [hw]; rfl)

variable [Std.LawfulEqOrd α] [DecidableEq α]

theorem get_insert (m : BTreeMap α β) (k a : α) (v : β) :
    (m.insert k v)[a]? = if k = a then some v else m[a]? := by
  simp [Std.ExtTreeMap.getElem?_insert]

theorem get_erase (m : BTreeMap α β) (k a : α) :
    (m.erase k)[a]? = if k = a then none else m[a]? := by
  simp [Std.ExtTreeMap.getElem?_erase]

/-- A value may be put where none was, or above the one that is there. -/
theorem mapLE_insert (hr : ∀ v, r v v) (h : ∀ v, m[k]? = some v → r v w) :
    MapLE r m (m.insert k w) := by
  intro a v hv
  rw [get_insert]
  by_cases hka : k = a
  · subst hka
    exact ⟨w, by rw [if_pos rfl], h v hv⟩
  · exact ⟨v, by rwa [if_neg hka], hr v⟩

end AbyssalWarden

import AbyssalWarden.TextFields

/-! Text that is printed from words with white space between them, and the words that it splits into again. -/
namespace AbyssalWarden

section

variable {s rest gap : List Char} {c : Char}

theorem splitWhitespace_cons_append (hc : isWhitespace c = true) :
    splitWhitespace (s ++ c :: rest) = splitWhitespace s ++ splitWhitespace rest := by
  rw [splitWhitespace, List.splitOnP_append_cons _ _ hc, List.filter_append]
  rfl

theorem splitWhitespace_nil : splitWhitespace [] = [] := rfl

theorem splitWhitespace_blank (h : Blank gap) : splitWhitespace gap = [] := by
  induction gap with
  | nil => rfl
  | cons c gap ih =>
    have hc := h c List.mem_cons_self
    have hsplit : splitWhitespace ([] ++ c :: gap) = splitWhitespace [] ++ splitWhitespace gap := splitWhitespace_cons_append hc
    rw [List.nil_append] at hsplit
    rw [hsplit, ih fun d hd => h d (List.mem_cons_of_mem _ hd)]
    rfl

theorem splitWhitespace_blank_append (h : Blank gap) : splitWhitespace (gap ++ s) = splitWhitespace s := by
  induction gap with
  | nil => rfl
  | cons c gap ih =>
    have hc := h c List.mem_cons_self
    have hsplit : splitWhitespace ([] ++ c :: (gap ++ s)) = splitWhitespace [] ++ splitWhitespace (gap ++ s) :=
      splitWhitespace_cons_append hc
    rw [List.nil_append] at hsplit
    rw [List.cons_append, hsplit, ih fun d hd => h d (List.mem_cons_of_mem _ hd)]
    rfl

/-- White space parts the words before it from those after it. -/
theorem splitWhitespace_gap (hne : gap ≠ []) (h : Blank gap) :
    splitWhitespace (s ++ gap ++ rest) = splitWhitespace s ++ splitWhitespace rest := by
  obtain ⟨c, gap, rfl⟩ := List.exists_cons_of_ne_nil hne
  have hc := h c List.mem_cons_self
  have hgap : Blank gap := fun d hd => h d (List.mem_cons_of_mem _ hd)
  rw [List.append_assoc, List.cons_append, splitWhitespace_cons_append hc, splitWhitespace_blank_append hgap]

theorem splitWhitespace_append_blank (h : Blank gap) : splitWhitespace (s ++ gap) = splitWhitespace s := by
  by_cases hne : gap = []
  · rw [hne, List.append_nil]
  · have hsplit : splitWhitespace (s ++ gap ++ []) = splitWhitespace s ++ splitWhitespace [] := splitWhitespace_gap hne h
    rw [List.append_nil] at hsplit
    rw [hsplit, splitWhitespace_nil, List.append_nil]

/-- No word holds white space. -/
theorem mem_splitWhitespace {w : List Char} (h : w ∈ splitWhitespace s) : ∀ c ∈ w, isWhitespace c = false := by
  induction hs : s.length using Nat.strong_induction_on generalizing s w with
  | _ n ih =>
    by_cases hplain : ∀ c ∈ s, isWhitespace c = false
    · rw [splitWhitespace, List.splitOnP_eq_singleton hplain] at h
      have hw := (List.mem_filter.mp h).1
      rw [List.mem_singleton.mp hw]
      exact hplain
    · push Not at hplain
      obtain ⟨c, hc, hblank⟩ := hplain
      obtain ⟨a, b, rfl⟩ := List.append_of_mem hc
      rw [splitWhitespace_cons_append (by simpa using hblank), List.mem_append] at h
      rw [List.length_append, List.length_cons] at hs
      rcases h with h | h
      · exact ih a.length (by omega) h rfl
      · exact ih b.length (by omega) h rfl

/-- Text without words is white space. -/
theorem blank_of_splitWhitespace (h : splitWhitespace s = []) : Blank s := by
  induction hs : s.length using Nat.strong_induction_on generalizing s with
  | _ n ih =>
    by_cases hplain : ∀ c ∈ s, isWhitespace c = false
    · by_cases hne : s = []
      · rw [hne]
        exact List.forall_mem_nil _
      · rw [splitWhitespace_single hne hplain] at h
        cases h
    · push Not at hplain
      obtain ⟨c, hc, hblank⟩ := hplain
      obtain ⟨a, b, rfl⟩ := List.append_of_mem hc
      have hspace : isWhitespace c = true := by simpa using hblank
      rw [splitWhitespace_cons_append hspace, List.append_eq_nil_iff] at h
      rw [List.length_append, List.length_cons] at hs
      have ha := ih a.length (by omega) h.1 rfl
      have hb := ih b.length (by omega) h.2 rfl
      intro d hd
      rcases List.mem_append.mp hd with hd | hd
      · exact ha d hd
      · rcases List.mem_cons.mp hd with rfl | hd
        · exact hspace
        · exact hb d hd

end

/-! ### Case -/

theorem toLower_cases (c : Char) : c.toLower = c ∨ isWhitespace c = false ∧ isWhitespace c.toLower = false := by
  by_cases h : 'A'.val ≤ c.val ∧ c.val ≤ 'Z'.val
  · have hletters : ∀ i : Fin 26, isWhitespace (Char.ofNat (65 + i)) = false ∧
        isWhitespace (Char.ofNat (65 + i)).toLower = false := by
      decide
    have hlow : 65 ≤ c.toNat := UInt32.le_iff_toNat_le.mp h.1
    have hhigh : c.toNat ≤ 90 := UInt32.le_iff_toNat_le.mp h.2
    have hc := hletters ⟨c.toNat - 65, by omega⟩
    rw [Nat.add_sub_of_le hlow, Char.ofNat_toNat] at hc
    exact Or.inr hc
  · left
    unfold Char.toLower
    exact dif_neg h

theorem isWhitespace_toLower (c : Char) : isWhitespace c.toLower = isWhitespace c := by
  rcases toLower_cases c with h | ⟨h, h'⟩
  · rw [h]
  · rw [h, h']

/-! ### Printing -/

/-- A word after white space. -/
structure SpacedWord where
  gap : List Char
  text : List Char
  apart : gap ≠ [] ∧ Blank gap
  named : text ≠ []
  word : ∀ c ∈ text, isWhitespace c = false

def SpacedWord.print (w : SpacedWord) : List Char := w.gap ++ w.text

/-- The text is over, or goes on with white space. -/
def EndsWord (s : List Char) : Prop := ∀ c ∈ s.head?, isWhitespace c = true

theorem endsWord_nil : EndsWord [] := nofun

theorem endsWord_gap {gap rest : List Char} (h : gap ≠ [] ∧ Blank gap) : EndsWord (gap ++ rest) := by
  obtain ⟨c, gap, rfl⟩ := List.exists_cons_of_ne_nil h.1
  intro d hd
  obtain rfl := Option.some.inj hd
  exact h.2 c List.mem_cons_self

theorem endsWord_print {ws : List SpacedWord} {rest : List Char} (hrest : EndsWord rest) :
    EndsWord (ws.flatMap SpacedWord.print ++ rest) := by
  cases ws with
  | nil => exact hrest
  | cons w ws =>
    rw [List.flatMap_cons, SpacedWord.print, List.append_assoc, List.append_assoc]
    exact endsWord_gap w.apart

/-- Printed words are the words that are read back. -/
theorem splitWhitespace_print (ws : List SpacedWord) {rest : List Char} (hrest : EndsWord rest) :
    splitWhitespace (ws.flatMap SpacedWord.print ++ rest) = ws.map (·.text) ++ splitWhitespace rest := by
  induction ws with
  | nil => rfl
  | cons w ws ih =>
    have hnext : EndsWord (ws.flatMap SpacedWord.print ++ rest) := endsWord_print hrest
    rw [List.flatMap_cons, SpacedWord.print, List.append_assoc, List.append_assoc, splitWhitespace_blank_append w.apart.2,
      List.map_cons, List.cons_append, ← ih]
    cases hafter : ws.flatMap SpacedWord.print ++ rest with
    | nil =>
      rw [List.append_nil, splitWhitespace_single w.named w.word]
      rfl
    | cons c tail =>
      have hc : isWhitespace c = true := hnext c (by rw [hafter]; rfl)
      have hgap : Blank [c] := List.forall_mem_singleton.mpr hc
      have hblank := splitWhitespace_blank_append (s := tail) hgap
      rw [splitWhitespace_append w.named w.word hc]
      rw [List.singleton_append] at hblank
      rw [hblank]

end AbyssalWarden

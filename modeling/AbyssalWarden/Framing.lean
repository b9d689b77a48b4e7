import Mathlib

/-! Lines in a stream: each is ended by a separator that does not stand in it, and a reader takes
them off again up to a longest length. -/
namespace AbyssalWarden

variable {α : Type} [DecidableEq α] {sep : α} {l line rest bytes : List α} {ls ms : List (List α)}
  {limit : ℕ}

/-- The lines one after the other, each with its separator. -/
def unlines (sep : α) (ls : List (List α)) : List α := ls.flatMap (· ++ [sep])

/-- `take(limit).read_until(sep)`: what is read, and what is left. -/
def readUntil (sep : α) : ℕ → List α → List α × List α
  | 0, bytes => ([], bytes)
  | _ + 1, [] => ([], [])
  | n + 1, b :: bytes =>
    if b = sep then ([b], bytes)
    else
      let (line, rest) := readUntil sep n bytes
      (b :: line, rest)

omit [DecidableEq α] in
theorem unlines_cons : unlines sep (l :: ls) = l ++ sep :: unlines sep ls := by
  simp [unlines]

omit [DecidableEq α] in
theorem unlines_append : unlines sep (ls ++ ms) = unlines sep ls ++ unlines sep ms := by
  simp [unlines]

theorem readUntil_append : (readUntil sep limit bytes).1 ++ (readUntil sep limit bytes).2 = bytes := by
  induction limit generalizing bytes with
  | zero => rfl
  | succ n ih =>
    cases bytes with
    | nil => rfl
    | cons b bytes =>
      rw [readUntil]
      split
      · rfl
      · simp [ih]

/-- A whole line is read with its separator. -/
theorem readUntil_line (hl : sep ∉ l) (hlen : l.length < limit) :
    readUntil sep limit (l ++ sep :: rest) = (l ++ [sep], rest) := by
  induction l generalizing limit with
  | nil =>
    obtain ⟨n, rfl⟩ := Nat.exists_eq_succ_of_ne_zero (Nat.pos_iff_ne_zero.mp hlen)
    simp [readUntil]
  | cons b l ih =>
    obtain ⟨n, rfl⟩ := Nat.exists_eq_succ_of_ne_zero (Nat.pos_iff_ne_zero.mp (Nat.zero_lt_of_lt hlen))
    rw [List.mem_cons, not_or] at hl
    rw [List.cons_append, readUntil, if_neg (Ne.symm hl.1), ih hl.2 (by simpa using hlen)]
    rfl

/-- What ends with the separator is a line without it, short enough. -/
theorem readUntil_getLast (h : readUntil sep limit bytes = (line, rest))
    (hlast : line.getLast? = some sep) :
    ∃ l, line = l ++ [sep] ∧ sep ∉ l ∧ l.length < limit ∧ bytes = l ++ sep :: rest := by
  induction limit generalizing bytes line with
  | zero =>
    cases h
    cases hlast
  | succ n ih =>
    cases bytes with
    | nil =>
      cases h
      cases hlast
    | cons b bytes =>
      rw [readUntil] at h
      split at h
      · rename_i hb
        cases h
        exact ⟨[], by simp [hb], by simp, by simp, by simp [hb]⟩
      · rename_i hb
        cases hread : readUntil sep n bytes with
        | mk line' rest' =>
          rw [hread] at h
          cases h
          -- the first byte is not the separator, so the last one is in the rest
          have hlast' : line'.getLast? = some sep := by
            cases line' with
            | nil => exact absurd (by simpa using hlast) hb
            | cons x line' => simpa using hlast
          obtain ⟨l, rfl, hl, hlen, rfl⟩ := ih hread hlast'
          refine ⟨b :: l, rfl, ?_, by simpa using hlen, rfl⟩
          rw [List.mem_cons, not_or]
          exact ⟨Ne.symm hb, hl⟩

theorem readUntil_nil (h : (readUntil sep (limit + 1) bytes).1 = []) : bytes = [] := by
  cases bytes with
  | nil => rfl
  | cons b bytes =>
    rw [readUntil] at h
    split at h <;> cases h

/-- Lines can be told apart again. -/
theorem unlines_injective (hls : ∀ l ∈ ls, sep ∉ l) (hms : ∀ m ∈ ms, sep ∉ m)
    (h : unlines sep ls = unlines sep ms) : ls = ms := by
  induction ls generalizing ms with
  | nil =>
    cases ms with
    | nil => rfl
    | cons m ms => simp [unlines] at h
  | cons l ls ih =>
    cases ms with
    | nil => simp [unlines] at h
    | cons m ms =>
      rw [List.forall_mem_cons] at hls hms
      rw [unlines_cons, unlines_cons] at h
      have hl : readUntil sep (max l.length m.length + 1) (l ++ sep :: unlines sep ls) = _ :=
        readUntil_line hls.1 (by omega)
      have hm : readUntil sep (max l.length m.length + 1) (m ++ sep :: unlines sep ms) = _ :=
        readUntil_line hms.1 (by omega)
      rw [h, hm, Prod.mk.injEq] at hl
      rw [List.append_cancel_right hl.1.symm, ih hls.2 hms.2 hl.2.symm]

end AbyssalWarden

import Mathlib

/-! Words in which some letters stand for nothing, and in which one letter takes back a name right before it: two words
are equal up to these steps exactly when they reduce to the same word. -/
namespace AbyssalWarden.WordReduction

/-- The letters that stand for nothing, the letter that takes back, and the names it takes back. -/
structure Rules (α : Type*) where
  skip : α → Bool
  up : α
  name : α → Bool
  up_kept : skip up = false
  name_kept : ∀ a, name a = true → skip a = false
  name_ne_up : ∀ a, name a = true → a ≠ up

namespace Rules

variable {α : Type*} (R : Rules α)

inductive Step : List α → List α → Prop
  | skip (pre post : List α) (a : α) (h : R.skip a = true) : Step (pre ++ a :: post) (pre ++ post)
  | pair (pre post : List α) (n : α) (h : R.name n = true) : Step (pre ++ n :: R.up :: post) (pre ++ post)

/-- Equal up to steps, in both directions. -/
def Same : List α → List α → Prop := Relation.EqvGen R.Step

variable {R} {xs ys zs pre post : List α} {a n : α}

theorem Same.refl : R.Same xs xs := Relation.EqvGen.refl xs

theorem Same.symm (h : R.Same xs ys) : R.Same ys xs := Relation.EqvGen.symm xs ys h

theorem Same.trans (h : R.Same xs ys) (h' : R.Same ys zs) : R.Same xs zs := Relation.EqvGen.trans xs ys zs h h'

theorem Step.same (h : R.Step xs ys) : R.Same xs ys := Relation.EqvGen.rel xs ys h

theorem Step.append (h : R.Step xs ys) : R.Step (xs ++ zs) (ys ++ zs) := by
  cases h with
  | skip pre post a h =>
    rw [List.append_assoc, List.append_assoc]
    exact Step.skip pre (post ++ zs) a h
  | pair pre post n h =>
    rw [List.append_assoc, List.append_assoc]
    exact Step.pair pre (post ++ zs) n h

theorem Same.append (h : R.Same xs ys) : R.Same (xs ++ zs) (ys ++ zs) := by
  induction h with
  | rel xs ys h => exact h.append.same
  | refl xs => exact Same.refl
  | symm xs ys _ ih => exact ih.symm
  | trans xs ys zs _ _ ih ih' => exact ih.trans ih'

/-! ### Reduced words -/

section

variable [DecidableEq α]

variable (R) in
/-- The letter that takes back comes after a reduced word, which is given in reverse. -/
def back : List α → List α
  | [] => [R.up]
  | n :: st => if R.name n = true then st else R.up :: n :: st

variable (R) in
/-- A letter comes after a reduced word. -/
def push (st : List α) (a : α) : List α :=
  if R.skip a = true then st else if a = R.up then R.back st else a :: st

variable (R) in
def reduce (xs : List α) : List α := (xs.foldl R.push []).reverse

variable {st : List α}

theorem push_skip (h : R.skip a = true) : R.push st a = st := by rw [push, if_pos h]

theorem push_pair (h : R.name n = true) : R.push (R.push st n) R.up = st := by
  have hname : R.push st n = n :: st := by
    rw [push, if_neg (by rw [R.name_kept n h]; exact Bool.false_ne_true), if_neg (R.name_ne_up n h)]
  rw [hname, push, if_neg (by rw [R.up_kept]; exact Bool.false_ne_true), if_pos rfl]
  exact if_pos h

theorem reduce_step (h : R.Step xs ys) : R.reduce xs = R.reduce ys := by
  cases h with
  | skip pre post a h => rw [reduce, reduce, List.foldl_append, List.foldl_cons, push_skip h, ← List.foldl_append]
  | pair pre post n h =>
    rw [reduce, reduce, List.foldl_append, List.foldl_cons, List.foldl_cons, push_pair h, ← List.foldl_append]

theorem reduce_same (h : R.Same xs ys) : R.reduce xs = R.reduce ys := by
  induction h with
  | rel xs ys h => exact reduce_step h
  | refl xs => rfl
  | symm xs ys _ ih => exact ih.symm
  | trans xs ys zs _ _ ih ih' => exact ih.trans ih'

theorem reduce_concat : R.reduce (xs ++ [a]) = (R.push (R.reduce xs).reverse a).reverse := by
  rw [reduce, reduce, List.foldl_append, List.reverse_reverse]
  rfl

/-- What a letter after a word leaves is equal to the word with the letter. -/
theorem same_push : R.Same (xs ++ [a]) (R.push xs.reverse a).reverse := by
  rw [push]
  split
  case isTrue h =>
    have hstep := Step.skip (R := R) xs [] a h
    rw [List.append_nil] at hstep
    rw [List.reverse_reverse]
    exact hstep.same
  case isFalse =>
    -- the step back undoes the letter before it, where there is one that can be undone
    split
    case isTrue hup =>
      subst hup
      rcases List.eq_nil_or_concat xs with rfl | ⟨ys, n, rfl⟩
      · exact Same.refl
      · rw [List.concat_eq_append, List.reverse_concat, back]
        split
        case isTrue h =>
          have hstep := Step.pair (R := R) ys [] n h
          rw [List.append_nil] at hstep
          rw [List.append_assoc, List.reverse_reverse]
          exact hstep.same
        case isFalse =>
          rw [List.reverse_cons, List.reverse_cons, List.reverse_reverse]
          exact Same.refl
    case isFalse =>
      rw [List.reverse_cons, List.reverse_reverse]
      exact Same.refl

/-- A word is equal to its reduced word. -/
theorem same_reduce : R.Same xs (R.reduce xs) := by
  induction xs using List.reverseRecOn with
  | nil => exact Same.refl
  | append_singleton xs a ih =>
    rw [reduce_concat]
    exact ih.append.trans same_push

/-- Words are equal exactly when they reduce to one word. -/
theorem same_iff_reduce_eq : R.Same xs ys ↔ R.reduce xs = R.reduce ys := by
  constructor
  · exact reduce_same
  · intro h
    exact same_reduce.trans (h ▸ same_reduce.symm)

/-! ### The letters of a reduced word -/

theorem push_sublist : (R.push st a).Sublist (a :: st) := by
  rw [push]
  split
  · exact List.sublist_cons_self a st
  · split
    case isTrue hup =>
      subst hup
      cases st with
      | nil => exact List.Sublist.refl _
      | cons n st =>
        rw [back]
        split
        · exact (List.sublist_cons_self _ _).trans (List.sublist_cons_self _ _)
        · exact List.Sublist.refl _
    case isFalse => exact List.Sublist.refl _

/-- The letters of a reduced word stand in the word, in their order. -/
theorem reduce_sublist : (R.reduce xs).Sublist xs := by
  induction xs using List.reverseRecOn with
  | nil => exact List.Sublist.refl _
  | append_singleton xs a ih =>
    have hpush : ((R.push (R.reduce xs).reverse a).reverse).Sublist (R.reduce xs ++ [a]) := by
      have hsublist : ((R.push (R.reduce xs).reverse a).reverse).Sublist (a :: (R.reduce xs).reverse).reverse :=
        push_sublist.reverse
      rwa [List.reverse_cons, List.reverse_reverse] at hsublist
    rw [reduce_concat]
    exact hpush.trans (ih.append_right [a])

theorem push_kept (hst : ∀ b ∈ st, R.skip b = false) : ∀ b ∈ R.push st a, R.skip b = false := by
  intro b hb
  by_cases h : R.skip a = true
  · rw [push_skip h] at hb
    exact hst b hb
  · rcases List.mem_cons.mp (push_sublist.subset hb) with rfl | hb
    · exact Bool.eq_false_iff.mpr h
    · exact hst b hb

theorem reduce_kept : ∀ b ∈ R.reduce xs, R.skip b = false := by
  induction xs using List.reverseRecOn with
  | nil => exact List.forall_mem_nil _
  | append_singleton xs a ih =>
    intro b hb
    rw [reduce_concat, List.mem_reverse] at hb
    exact push_kept (fun b hb => ih b (List.mem_reverse.mp hb)) b hb

/-- Where nothing is taken back, the letters that stand for nothing are left out. -/
theorem reduce_eq_filter (hname : ∀ a, R.name a = false) : R.reduce xs = xs.filter (!R.skip ·) := by
  have hpush : ∀ (st : List α) (a : α), R.push st a = if R.skip a = true then st else a :: st := by
    intro st a
    rw [push]
    split
    · rfl
    · split
      case isTrue hup =>
        subst hup
        cases st with
        | nil => rfl
        | cons n st => exact if_neg (by rw [hname n]; exact Bool.false_ne_true)
      case isFalse => rfl
  induction xs using List.reverseRecOn with
  | nil => rfl
  | append_singleton xs a ih =>
    rw [reduce_concat, hpush, ih, List.filter_append]
    cases hskip : R.skip a with
    | true => simp [hskip]
    | false => simp [hskip]

end

end Rules

end AbyssalWarden.WordReduction

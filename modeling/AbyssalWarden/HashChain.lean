import Mathlib

/-! Hash chains. Each line holds its number and the hash of the line before it; the first holds
`genesis` instead. The last hash then fixes all lines, up to collisions of the hash. -/
namespace AbyssalWarden

/-- How the lines of a chain are read. -/
structure ChainFormat (Line Hash : Type) where
  hash : Line → Hash
  seq : Line → ℕ
  prev : Line → Hash
  genesis : Hash

namespace ChainFormat

variable {Line Hash : Type} (c : ChainFormat Line Hash)

/-- The head of a chain with head `h` after the lines `ls`. -/
def headFrom (h : Hash) (ls : List Line) : Hash := (ls.getLast?.map c.hash).getD h

/-- The lines `ls` continue a chain of `n` lines with head `h`. -/
def Linked : ℕ → Hash → List Line → Prop
  | _, _, [] => True
  | n, h, l :: ls => c.seq l = n + 1 ∧ c.prev l = h ∧ Linked (n + 1) (c.hash l) ls

/-- Two different lines, one of each chain, with one hash. -/
def Collision (as bs : List Line) : Prop := ∃ a ∈ as, ∃ b ∈ bs, a ≠ b ∧ c.hash a = c.hash b

variable {c} {n : ℕ} {h : Hash} {as bs ls : List Line} {l : Line}

@[simp] theorem headFrom_nil : c.headFrom h [] = h := rfl

@[simp] theorem headFrom_concat : c.headFrom h (ls ++ [l]) = c.hash l := by
  simp [headFrom]

theorem headFrom_cons : c.headFrom h (l :: ls) = c.headFrom (c.hash l) ls := by
  cases ls using List.reverseRecOn with
  | nil => rfl
  | append_singleton ls m => rw [← List.cons_append, headFrom_concat, headFrom_concat]

theorem linked_concat : c.Linked n h (ls ++ [l]) ↔
    c.Linked n h ls ∧ c.seq l = n + ls.length + 1 ∧ c.prev l = c.headFrom h ls := by
  induction ls generalizing n h with
  | nil => simp [Linked]
  | cons m ls ih =>
    rw [List.cons_append, Linked, ih, Linked, headFrom_cons, List.length_cons]
    rw [show n + 1 + ls.length + 1 = n + (ls.length + 1) + 1 by omega]
    tauto

theorem Collision.concat (h : c.Collision as bs) (a b : Line) :
    c.Collision (as ++ [a]) (bs ++ [b]) := by
  obtain ⟨x, hx, y, hy, hne, heq⟩ := h
  exact ⟨x, List.mem_append_left _ hx, y, List.mem_append_left _ hy, hne, heq⟩

/-- Chains of one length and one head. -/
theorem eq_or_collision_of_length (ha : c.Linked 0 c.genesis as) (hb : c.Linked 0 c.genesis bs)
    (hlen : as.length = bs.length) (hhead : c.headFrom c.genesis as = c.headFrom c.genesis bs) :
    as = bs ∨ c.Collision as bs := by
  induction as using List.reverseRecOn generalizing bs with
  | nil =>
    left
    exact (List.eq_nil_of_length_eq_zero hlen.symm).symm
  | append_singleton as a ih =>
    cases bs using List.reverseRecOn with
    | nil => simp at hlen
    | append_singleton bs b =>
      rw [headFrom_concat, headFrom_concat] at hhead
      by_cases hab : a = b
      · subst hab
        obtain ⟨ha, _, haprev⟩ := linked_concat.mp ha
        obtain ⟨hb, _, hbprev⟩ := linked_concat.mp hb
        have hlen' : as.length = bs.length := by simpa using hlen
        rcases ih ha hb hlen' (haprev.symm.trans hbprev) with heq | hcol
        · exact .inl (by rw [heq])
        · exact .inr (hcol.concat a a)
      · exact .inr ⟨a, by simp, b, by simp, hab, hhead⟩

/-- The numbers keep chains with one last line at one length. -/
theorem length_eq_of_getLast (ha : c.Linked 0 c.genesis (as ++ [l]))
    (hb : c.Linked 0 c.genesis (bs ++ [l])) : as.length = bs.length := by
  have hseqa := (linked_concat.mp ha).2.1
  have hseqb := (linked_concat.mp hb).2.1
  omega

/-- Chains with one head are equal, or there is a collision. A chain without lines has the head
`genesis`, which a line could hash to as well. -/
theorem eq_or_collision (ha : c.Linked 0 c.genesis as) (hb : c.Linked 0 c.genesis bs)
    (hempty : as = [] ↔ bs = [])
    (hhead : c.headFrom c.genesis as = c.headFrom c.genesis bs) :
    as = bs ∨ c.Collision as bs := by
  cases as using List.reverseRecOn with
  | nil => exact .inl (hempty.mp rfl).symm
  | append_singleton as a =>
    cases bs using List.reverseRecOn with
    | nil => simp at hempty
    | append_singleton bs b =>
      by_cases hab : a = b
      · subst hab
        have hlen := length_eq_of_getLast ha hb
        exact eq_or_collision_of_length ha hb (by simpa using hlen) hhead
      · rw [headFrom_concat, headFrom_concat] at hhead
        exact .inr ⟨a, by simp, b, by simp, hab, hhead⟩

end ChainFormat

end AbyssalWarden

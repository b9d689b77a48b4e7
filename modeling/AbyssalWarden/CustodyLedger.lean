import Mathlib

/-! Custody. Content is given to a keeper, who takes it into store, gives it back somewhere, or deletes it
when told to. The ledger says where each deposit is; only requests move it. -/
namespace AbyssalWarden

variable {Key Id Content : Type} [DecidableEq Key] [DecidableEq Id]

inductive Place (Key Id : Type) where
  | outside (key : Key)
  | stored (id : Id)
  | deleted (id : Id)
  deriving DecidableEq

/-- Some content that was given, and where it was then and is now. -/
structure Deposit (Key Id Content : Type) where
  content : Content
  original : Key
  place : Place Key Id

abbrev Ledger (Key Id Content : Type) := List (Deposit Key Id Content)

inductive CustodyRequest (Key Id Content : Type) where
  | quarantine (key : Key) (content : Content) (id : Id)
  | restore (id : Id) (target : Key)
  | delete (id : Id)

namespace Ledger

def give (L : Ledger Key Id Content) (key : Key) (content : Content) : Ledger Key Id Content :=
  L ++ [⟨content, key, .outside key⟩]

/-- Everything at one place is now at another. -/
def move (L : Ledger Key Id Content) (source target : Place Key Id) : Ledger Key Id Content :=
  L.map fun d => if d.place = source then { d with place := target } else d

def take (L : Ledger Key Id Content) (key : Key) (id : Id) : Ledger Key Id Content :=
  L.move (.outside key) (.stored id)

def giveBack (L : Ledger Key Id Content) (id : Id) (target : Key) : Ledger Key Id Content :=
  L.move (.stored id) (.outside target)

def discard (L : Ledger Key Id Content) (id : Id) : Ledger Key Id Content :=
  L.move (.stored id) (.deleted id)

variable {L : Ledger Key Id Content} {source target : Place Key Id} {d : Deposit Key Id Content}

theorem mem_move : d ∈ L.move source target ↔
    (d ∈ L ∧ d.place ≠ source) ∨ ∃ b ∈ L, b.place = source ∧ d = { b with place := target } := by
  simp only [move, List.mem_map]
  constructor
  · rintro ⟨b, hb, rfl⟩
    by_cases h : b.place = source
    · exact .inr ⟨b, hb, h, by rw [if_pos h]⟩
    · exact .inl (by rw [if_neg h]; exact ⟨hb, h⟩)
  · rintro (⟨hd, h⟩ | ⟨b, hb, h, rfl⟩)
    · exact ⟨d, hd, if_neg h⟩
    · exact ⟨b, hb, if_pos h⟩

/-- Nothing is at a place that was emptied. -/
theorem place_ne_of_mem_move (hd : d ∈ L.move source target) (hne : source ≠ target) :
    d.place ≠ source := by
  rcases mem_move.mp hd with ⟨-, h⟩ | ⟨b, -, -, rfl⟩
  · exact h
  · exact hne.symm

end Ledger

/-- How a request may change the ledger. What is given is a deposit even if it is not taken. -/
inductive Serves : CustodyRequest Key Id Content → Ledger Key Id Content → Ledger Key Id Content → Prop
  | given (key content id L) : Serves (.quarantine key content id) L (Ledger.give L key content)
  | taken (key content id L) :
      Serves (.quarantine key content id) L ((Ledger.give L key content).take key id)
  | notRestored (id target L) : Serves (.restore id target) L L
  | restored (id target L) : Serves (.restore id target) L (Ledger.giveBack L id target)
  | notDeleted (id L) : Serves (.delete id) L L
  | deleted (id L) : Serves (.delete id) L (Ledger.discard L id)

/-- The ledgers that a history of requests can lead to. -/
inductive Custody : List (CustodyRequest Key Id Content) → Ledger Key Id Content → Prop
  | start : Custody [] []
  | serve {rs L r L'} : Custody rs L → Serves r L L' → Custody (rs ++ [r]) L'

variable {rs : List (CustodyRequest Key Id Content)} {L : Ledger Key Id Content}

/-- What a request gives. -/
def CustodyRequest.given? : CustodyRequest Key Id Content → Option (Content × Key)
  | .quarantine key content _ => some (content, key)
  | _ => none

/-- Every content that was given has its deposit, and nothing else has. -/
theorem custody_given (h : Custody rs L) :
    L.map (fun d => (d.content, d.original)) = rs.filterMap CustodyRequest.given? := by
  have hmove (L : Ledger Key Id Content) (source target : Place Key Id) :
      (L.move source target).map (fun d => (d.content, d.original)) =
        L.map fun d => (d.content, d.original) := by
    rw [Ledger.move, List.map_map]
    congr 1
    funext d
    simp only [Function.comp]
    split <;> rfl
  induction h with
  | start => rfl
  | serve _ hs ih =>
    rw [List.filterMap_append, ← ih]
    cases hs with
    | given => simp [Ledger.give, CustodyRequest.given?]
    | taken => rw [Ledger.take, hmove]; simp [Ledger.give, CustodyRequest.given?]
    | restored => rw [Ledger.giveBack, hmove]; simp [CustodyRequest.given?]
    | deleted => rw [Ledger.discard, hmove]; simp [CustodyRequest.given?]
    | notRestored | notDeleted => simp [CustodyRequest.given?]

/-- Where a deposit can be: outside only where it was given from or restored to, and deleted only if that
was requested. -/
def Deposit.Placed (rs : List (CustodyRequest Key Id Content)) (d : Deposit Key Id Content) : Prop :=
  match d.place with
  | .outside key => key = d.original ∨ ∃ id, .restore id key ∈ rs
  | .stored _ => True
  | .deleted id => .delete id ∈ rs

omit [DecidableEq Key] [DecidableEq Id] in
theorem Deposit.Placed.mono {d : Deposit Key Id Content} {r : CustodyRequest Key Id Content}
    (h : d.Placed rs) : d.Placed (rs ++ [r]) := by
  unfold Deposit.Placed at h ⊢
  split
  · rename_i key hplace
    rw [hplace] at h
    rcases h with h | ⟨id, hid⟩
    · exact .inl h
    · exact .inr ⟨id, List.mem_append_left _ hid⟩
  · trivial
  · rename_i id hplace
    rw [hplace] at h
    exact List.mem_append_left _ h

theorem custody_placed (h : Custody rs L) : ∀ d ∈ L, d.Placed rs := by
  induction h with
  | start => simp
  | @serve rs L r L' _ hs ih =>
    intro d hd
    have hkeep : ∀ d ∈ L, d.Placed (rs ++ [r]) := fun d hd => (ih d hd).mono
    have hgive (key : Key) (content : Content) :
        ∀ d ∈ Ledger.give L key content, d.Placed (rs ++ [r]) := by
      intro d hd
      rcases List.mem_append.mp hd with hd | hd
      · exact hkeep d hd
      · rw [List.mem_singleton.mp hd]
        exact .inl rfl
    cases hs with
    | given key content id => exact hgive key content d hd
    | taken key content id =>
      rcases Ledger.mem_move.mp hd with ⟨hd, -⟩ | ⟨b, -, -, rfl⟩
      · exact hgive key content d hd
      · trivial
    | notRestored | notDeleted => exact hkeep d hd
    | restored id target =>
      rcases Ledger.mem_move.mp hd with ⟨hd, -⟩ | ⟨b, -, -, rfl⟩
      · exact hkeep d hd
      · exact .inr ⟨id, by simp⟩
    | deleted id =>
      rcases Ledger.mem_move.mp hd with ⟨hd, -⟩ | ⟨b, -, -, rfl⟩
      · exact hkeep d hd
      · exact List.mem_append_right _ (by simp)

end AbyssalWarden

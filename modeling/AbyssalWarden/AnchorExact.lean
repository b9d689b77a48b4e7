import AbyssalWarden.Anchors
import AbyssalWarden.AuditTamper

/-! What the comparison of a chain with its anchors counts. Every count is of distinct entries or numbers, so it does
not depend on the order of the anchors; a number with a matching and a contradicting anchor is counted twice. -/
namespace AbyssalWarden

namespace Chain

/-- The entries are numbered from 1 on. -/
def Numbered (chain : List (ℕ × String)) : Prop := chain.map Prod.fst = List.range' 1 chain.length

/-- An anchor of this very chain. -/
def IsOwn (chain : List (ℕ × String)) (a : Anchor) : Prop := a.chain ≠ none ∧ a.chain = id chain

/-- Some anchor of the chain has the number and the hash of a local entry. -/
def Matches (chain : List (ℕ × String)) (anchors : List Anchor) (seq : ℕ) : Prop :=
  ∃ a ∈ anchors, IsOwn chain a ∧ a.seq = seq ∧ (seq, a.hash) ∈ chain

/-- Some anchor of the chain has the number of a local entry and another hash. -/
def Contradicts (chain : List (ℕ × String)) (anchors : List Anchor) (seq : ℕ) : Prop :=
  ∃ a ∈ anchors, IsOwn chain a ∧ a.seq = seq ∧ ∃ e ∈ chain, e.1 = seq ∧ e.2 ≠ a.hash

/-- Some anchor of the chain is for a number beyond the last local entry. -/
def Beyond (chain : List (ℕ × String)) (anchors : List Anchor) (seq : ℕ) : Prop :=
  ∃ a ∈ anchors, IsOwn chain a ∧ a.seq = seq ∧ chain.length < seq

instance (chain : List (ℕ × String)) (a : Anchor) : Decidable (IsOwn chain a) :=
  inferInstanceAs (Decidable (_ ∧ _))

instance (chain : List (ℕ × String)) (anchors : List Anchor) (seq : ℕ) : Decidable (Matches chain anchors seq) :=
  inferInstanceAs (Decidable (∃ a ∈ anchors, _))

instance (chain : List (ℕ × String)) (anchors : List Anchor) (seq : ℕ) : Decidable (Contradicts chain anchors seq) :=
  inferInstanceAs (Decidable (∃ a ∈ anchors, _))

/-- How many local entries have a property of their number. -/
def count (chain : List (ℕ × String)) (p : ℕ → Prop) [DecidablePred p] : ℕ := chain.countP (p ·.1)

/-- The comparison is exact. -/
structure ExactlyCompared (chain : List (ℕ × String)) (anchors : List Anchor) : Prop where
  /-- Neither subtraction underflows. -/
  fits : (compareAnchors chain anchors).matched + (compareAnchors chain anchors).mismatched.length ≤ chain.length
  /-- Every local entry is matched, unanchored, or contradicted and not matched. -/
  total : (compareAnchors chain anchors).entries = (compareAnchors chain anchors).matched +
    (compareAnchors chain anchors).unanchored +
      count chain fun seq => Contradicts chain anchors seq ∧ ¬ Matches chain anchors seq
  /-- Every anchored entry is counted once. -/
  once : count chain (fun seq => Matches chain anchors seq ∨ Contradicts chain anchors seq) =
    (compareAnchors chain anchors).matched + (compareAnchors chain anchors).mismatched.length
  /-- In another order of the anchors the lists are the same up to their order, and the counts are the same. -/
  order : ∀ anchors', anchors.Perm anchors' → ∃ mismatched missing,
    mismatched.Perm (compareAnchors chain anchors).mismatched ∧
    missing.Perm (compareAnchors chain anchors).missingLocally ∧
    compareAnchors chain anchors' =
      { compareAnchors chain anchors with mismatched := mismatched, missingLocally := missing }
  /-- There is evidence of tampering when an anchor contradicts a local entry or lies beyond the head. -/
  evidence : (compareAnchors chain anchors).consistent = false ↔
    ∃ seq, Contradicts chain anchors seq ∨ Beyond chain anchors seq

variable {chain : List (ℕ × String)} {anchors anchors' : List Anchor} {a : Anchor} {seq : ℕ} {h : String}

/-! ### Looking an entry up -/

theorem Numbered.nodup (hnum : Numbered chain) : (chain.map Prod.fst).Nodup := by
  rw [hnum]
  exact List.nodup_range'

theorem Numbered.mem_iff (hnum : Numbered chain) : (∃ h, (seq, h) ∈ chain) ↔ 1 ≤ seq ∧ seq ≤ chain.length := by
  have hmem : seq ∈ chain.map Prod.fst ↔ ∃ h, (seq, h) ∈ chain := by simp
  rw [← hmem, hnum, List.mem_range'_1]
  omega

theorem Numbered.localHash_eq_some (hnum : Numbered chain) : localHash chain seq = some h ↔ (seq, h) ∈ chain := by
  have hkeys : (chain.reverse.map Prod.fst).Nodup := by
    rw [List.map_reverse]
    exact List.nodup_reverse.mpr hnum.nodup
  rw [localHash, lookup_eq_some_iff_mem hkeys, List.mem_reverse]

theorem Numbered.localHash_eq_none (hnum : Numbered chain) :
    localHash chain seq = none ↔ ¬ (1 ≤ seq ∧ seq ≤ chain.length) := by
  rw [← hnum.mem_iff, Option.eq_none_iff_forall_ne_some, not_exists]
  exact forall_congr' fun h => not_congr hnum.localHash_eq_some

theorem Numbered.head_eq (hnum : Numbered chain) : head chain = chain.length := by
  have hlast : chain.getLast?.map Prod.fst = (List.range' 1 chain.length).getLast? := by
    rw [← hnum, List.getLast?_map]
  rw [head, hlast]
  cases hlen : chain.length with
  | zero => rfl
  | succ n =>
    rw [List.range'_concat, List.getLast?_append]
    simp
    omega

/-! ### What the loop collects -/

/-- The number that an anchor adds to the matched ones. -/
def matchedSeq (chain : List (ℕ × String)) (a : Anchor) : Option ℕ :=
  if IsOwn chain a ∧ localHash chain a.seq = some a.hash then some a.seq else none

/-- The number that an anchor adds to the mismatched ones. -/
def contradictedSeq (chain : List (ℕ × String)) (a : Anchor) : Option ℕ :=
  if IsOwn chain a ∧ (localHash chain a.seq).any (· ≠ a.hash) then some a.seq else none

/-- The number that an anchor adds to the ones missing locally. -/
def beyondSeq (chain : List (ℕ × String)) (a : Anchor) : Option ℕ :=
  if IsOwn chain a ∧ localHash chain a.seq = none ∧ head chain < a.seq then some a.seq else none

/-- The loop after some anchors. -/
def compared (chain : List (ℕ × String)) (anchors : List Anchor) : List ℕ × AnchorComparison :=
  (collectNew (matchedSeq chain) anchors,
    { entries := chain.length
      matched := (collectNew (matchedSeq chain) anchors).length
      mismatched := collectNew (contradictedSeq chain) anchors
      missingLocally := collectNew (beyondSeq chain) anchors
      unanchored := 0
      otherChains := anchors.countP fun a => ¬ IsOwn chain a })

/-- One round of the loop collects what its anchor adds. -/
theorem compareAnchor_compared : compareAnchor chain (compared chain anchors) a = compared chain (anchors ++ [a]) := by
  -- an anchor of this chain falls into one of the sums by its entry's hash; others are counted
  by_cases hown : IsOwn chain a
  · have hsame : ¬ (a.chain = none ∨ a.chain ≠ id chain) := not_or.mpr ⟨hown.1, not_not.mpr hown.2⟩
    have hcount : (anchors ++ [a]).countP (fun a => ¬ IsOwn chain a) = anchors.countP fun a => ¬ IsOwn chain a := by
      simp [List.countP_append, hown]
    cases hlocal : localHash chain a.seq with
    | none =>
      have hmatched : matchedSeq chain a = none := by simp [matchedSeq, hlocal]
      have hcontradicted : contradictedSeq chain a = none := by simp [contradictedSeq, hlocal]
      by_cases hhead : head chain < a.seq
      · have hbeyond : beyondSeq chain a = some a.seq := if_pos ⟨hown, hlocal, hhead⟩
        simp only [compareAnchor, compared, if_neg hsame, hlocal, if_pos hhead, hcount, collectNew_concat_none hmatched,
          collectNew_concat_none hcontradicted, collectNew_concat_some hbeyond]
      · have hbeyond : beyondSeq chain a = none := if_neg fun h => hhead h.2.2
        simp only [compareAnchor, compared, if_neg hsame, hlocal, if_neg hhead, hcount, collectNew_concat_none hmatched,
          collectNew_concat_none hcontradicted, collectNew_concat_none hbeyond]
    | some h =>
      have hbeyond : beyondSeq chain a = none := by simp [beyondSeq, hlocal]
      by_cases hhash : h = a.hash
      · have hmatched : matchedSeq chain a = some a.seq := if_pos ⟨hown, hlocal.trans (congrArg some hhash)⟩
        have hcontradicted : contradictedSeq chain a = none := by simp [contradictedSeq, hlocal, hhash]
        by_cases hmem : a.seq ∈ collectNew (matchedSeq chain) anchors
        · have hsaved : pushNew (collectNew (matchedSeq chain) anchors) a.seq = collectNew (matchedSeq chain) anchors :=
            if_pos hmem
          simp only [compareAnchor, compared, if_neg hsame, hlocal, if_pos hhash, if_pos hmem, hcount,
            collectNew_concat_some hmatched, collectNew_concat_none hcontradicted, collectNew_concat_none hbeyond, hsaved]
        · simp only [compareAnchor, compared, if_neg hsame, hlocal, if_pos hhash, hcount,
            collectNew_concat_some hmatched, collectNew_concat_none hcontradicted, collectNew_concat_none hbeyond,
            length_pushNew_of_notMem hmem]
          exact if_neg hmem
      · have hmatched : matchedSeq chain a = none := by simp [matchedSeq, hlocal, hhash]
        have hcontradicted : contradictedSeq chain a = some a.seq := if_pos ⟨hown, by simp [hlocal, hhash]⟩
        simp only [compareAnchor, compared, if_neg hsame, hlocal, if_neg hhash, hcount, collectNew_concat_none hmatched,
          collectNew_concat_some hcontradicted, collectNew_concat_none hbeyond]
  · have hother : a.chain = none ∨ a.chain ≠ id chain := by
      by_contra h
      rw [not_or, not_not] at h
      exact hown h
    have hmatched : matchedSeq chain a = none := if_neg fun h => hown h.1
    have hcontradicted : contradictedSeq chain a = none := if_neg fun h => hown h.1
    have hbeyond : beyondSeq chain a = none := if_neg fun h => hown h.1
    have hcount : (anchors ++ [a]).countP (fun a => ¬ IsOwn chain a) =
        (anchors.countP fun a => ¬ IsOwn chain a) + 1 := by
      simp [List.countP_append, hown]
    simp only [compareAnchor, compared, if_pos hother, hcount, collectNew_concat_none hmatched,
      collectNew_concat_none hcontradicted, collectNew_concat_none hbeyond]

theorem compareAnchors_foldl :
    anchors.foldl (compareAnchor chain) ([], ⟨chain.length, 0, [], [], 0, 0⟩) = compared chain anchors := by
  induction anchors using List.reverseRecOn with
  | nil => rfl
  | append_singleton anchors a ih =>
    rw [List.foldl_append, ih]
    exact compareAnchor_compared

theorem compareAnchors_eq : compareAnchors chain anchors =
    { (compared chain anchors).2 with
      unanchored := subU64 (subU64 chain.length (compared chain anchors).2.matched)
        (compared chain anchors).2.mismatched.length } := by
  rw [compareAnchors, compareAnchors_foldl]
  rfl

/-! ### What is collected -/

theorem mem_matched (hnum : Numbered chain) :
    seq ∈ collectNew (matchedSeq chain) anchors ↔ Matches chain anchors seq := by
  rw [mem_collectNew]
  constructor
  · intro h
    obtain ⟨a, ha, hseq⟩ := h
    obtain ⟨⟨hown, hlocal⟩, heq⟩ := Option.ite_none_right_eq_some.mp hseq
    obtain rfl : a.seq = seq := Option.some.inj heq
    exact ⟨a, ha, hown, rfl, hnum.localHash_eq_some.mp hlocal⟩
  · intro h
    obtain ⟨a, ha, hown, rfl, hmem⟩ := h
    exact ⟨a, ha, if_pos ⟨hown, hnum.localHash_eq_some.mpr hmem⟩⟩

theorem mem_mismatched (hnum : Numbered chain) :
    seq ∈ collectNew (contradictedSeq chain) anchors ↔ Contradicts chain anchors seq := by
  rw [mem_collectNew]
  constructor
  · intro h
    obtain ⟨a, ha, hseq⟩ := h
    obtain ⟨⟨hown, hother⟩, heq⟩ := Option.ite_none_right_eq_some.mp hseq
    obtain rfl : a.seq = seq := Option.some.inj heq
    obtain ⟨h, hlocal, hne⟩ := (Option.any_eq_true _ _).mp hother
    exact ⟨a, ha, hown, rfl, (a.seq, h), hnum.localHash_eq_some.mp hlocal, rfl, by simpa using hne⟩
  · intro h
    obtain ⟨a, ha, hown, rfl, e, he, heq, hne⟩ := h
    have hlocal : localHash chain a.seq = some e.2 := by
      rw [hnum.localHash_eq_some, ← heq]
      exact he
    exact ⟨a, ha, if_pos ⟨hown, by simpa [hlocal] using hne⟩⟩

theorem mem_missing (hnum : Numbered chain) :
    seq ∈ collectNew (beyondSeq chain) anchors ↔ Beyond chain anchors seq := by
  rw [mem_collectNew]
  constructor
  · intro h
    obtain ⟨a, ha, hseq⟩ := h
    obtain ⟨⟨hown, -, hhead⟩, heq⟩ := Option.ite_none_right_eq_some.mp hseq
    obtain rfl : a.seq = seq := Option.some.inj heq
    rw [hnum.head_eq] at hhead
    exact ⟨a, ha, hown, rfl, hhead⟩
  · intro h
    obtain ⟨a, ha, hown, rfl, hhead⟩ := h
    have hlocal : localHash chain a.seq = none := by
      rw [hnum.localHash_eq_none]
      omega
    exact ⟨a, ha, if_pos ⟨hown, hlocal, hnum.head_eq.symm ▸ hhead⟩⟩

/-! ### Counting entries -/

/-- Numbers of local entries, each collected once, are as many as the entries. -/
theorem collected_length {f : Anchor → Option ℕ} {p : ℕ → Prop} [DecidablePred p] (hnum : Numbered chain)
    (hmem : ∀ seq, seq ∈ collectNew f anchors ↔ p seq) (hlocal : ∀ seq, p seq → ∃ h, (seq, h) ∈ chain) :
    (collectNew f anchors).length = count chain p := by
  have hnodup : ((chain.filter (p ·.1)).map Prod.fst).Nodup := by
    apply List.Nodup.sublist _ hnum.nodup
    exact List.Sublist.map _ List.filter_sublist
  have hlength : (collectNew f anchors).length = ((chain.filter (p ·.1)).map Prod.fst).length := by
    apply collectNew_length hnodup
    intro seq
    rw [← mem_collectNew, hmem, List.mem_map]
    constructor
    · intro h
      obtain ⟨e, he, rfl⟩ := h
      exact of_decide_eq_true (List.mem_filter.mp he).2
    · intro h
      obtain ⟨hash, hmem⟩ := hlocal seq h
      exact ⟨(seq, hash), List.mem_filter.mpr ⟨hmem, decide_eq_true h⟩, rfl⟩
  rw [hlength, List.length_map, count, List.countP_eq_length_filter]

theorem count_matched (hnum : Numbered chain) :
    (collectNew (matchedSeq chain) anchors).length = count chain (Matches chain anchors) := by
  apply collected_length hnum (fun seq => mem_matched hnum)
  intro seq h
  obtain ⟨a, -, -, -, hmem⟩ := h
  exact ⟨a.hash, hmem⟩

theorem count_mismatched (hnum : Numbered chain) :
    (collectNew (contradictedSeq chain) anchors).length = count chain (Contradicts chain anchors) := by
  apply collected_length hnum (fun seq => mem_mismatched hnum)
  intro seq h
  obtain ⟨a, -, -, -, e, he, rfl, -⟩ := h
  exact ⟨e.2, he⟩

theorem count_cons (e : ℕ × String) (p : ℕ → Prop) [DecidablePred p] :
    count (e :: chain) p = count chain p + if p e.1 then 1 else 0 := by
  simp [count, List.countP_cons]

/-- Entries with either property: those with the one, and those with the other and not with the one. -/
theorem count_or (p q : ℕ → Prop) [DecidablePred p] [DecidablePred q] :
    count chain (fun seq => p seq ∨ q seq) = count chain p + count chain fun seq => q seq ∧ ¬ p seq := by
  induction chain with
  | nil => rfl
  | cons e chain ih =>
    rw [count_cons, count_cons, count_cons, ih]
    by_cases hp : p e.1
    · simp only [hp, true_or, not_true_eq_false, and_false, if_true, if_false]
      omega
    · simp only [hp, false_or, not_false_eq_true, and_true, if_false]
      omega

/-- Entries with a property: those that have another one besides, and those that do not. -/
theorem count_and_add (p q : ℕ → Prop) [DecidablePred p] [DecidablePred q] :
    count chain q = (count chain fun seq => p seq ∧ q seq) + count chain fun seq => q seq ∧ ¬ p seq := by
  induction chain with
  | nil => rfl
  | cons e chain ih =>
    rw [count_cons, count_cons, count_cons, ih]
    by_cases hp : p e.1
    · simp only [hp, true_and, not_true_eq_false, and_false, if_false]
      omega
    · simp only [hp, false_and, not_false_eq_true, and_true, if_false]
      omega

theorem count_le (p : ℕ → Prop) [DecidablePred p] : count chain p ≤ chain.length := List.countP_le_length

theorem count_eq_zero {p : ℕ → Prop} [DecidablePred p] : count chain p = 0 ↔ ∀ e ∈ chain, ¬ p e.1 := by
  rw [count, List.countP_eq_zero]
  simp

/-! ### The claim -/

theorem compareAnchors_matched (hnum : Numbered chain) :
    (compareAnchors chain anchors).matched = count chain (Matches chain anchors) := by
  rw [compareAnchors_eq, ← count_matched hnum]
  rfl

theorem compareAnchors_mismatched (hnum : Numbered chain) :
    (compareAnchors chain anchors).mismatched.length = count chain (Contradicts chain anchors) := by
  rw [compareAnchors_eq, ← count_mismatched hnum]
  rfl

/-- In another order the anchors are counted the same. -/
theorem compareAnchors_perm (hperm : anchors.Perm anchors') : ∃ mismatched missing,
    mismatched.Perm (compareAnchors chain anchors).mismatched ∧
    missing.Perm (compareAnchors chain anchors).missingLocally ∧
    compareAnchors chain anchors' =
      { compareAnchors chain anchors with mismatched := mismatched, missingLocally := missing } := by
  refine ⟨(compareAnchors chain anchors').mismatched, (compareAnchors chain anchors').missingLocally, ?_, ?_, ?_⟩
  · rw [compareAnchors_eq, compareAnchors_eq]
    exact (collectNew_perm hperm).symm
  · rw [compareAnchors_eq, compareAnchors_eq]
    exact (collectNew_perm hperm).symm
  · have hmatched : (collectNew (matchedSeq chain) anchors').length = (collectNew (matchedSeq chain) anchors).length :=
      (collectNew_perm hperm).length_eq.symm
    have hmismatched : (collectNew (contradictedSeq chain) anchors').length =
        (collectNew (contradictedSeq chain) anchors).length := (collectNew_perm hperm).length_eq.symm
    have hothers : (anchors'.countP fun a => ¬ IsOwn chain a) = anchors.countP fun a => ¬ IsOwn chain a :=
      (hperm.countP_eq _).symm
    simp only [compareAnchors_eq, compared, hmatched, hmismatched, hothers]

/-- The comparison finds evidence just where there is some. -/
theorem consistent_eq_false (hnum : Numbered chain) : (compareAnchors chain anchors).consistent = false ↔
    ∃ seq, Contradicts chain anchors seq ∨ Beyond chain anchors seq := by
  have hmem {l : List ℕ} : l.isEmpty = false ↔ ∃ seq, seq ∈ l := by
    rw [List.isEmpty_eq_false_iff_exists_mem]
  rw [compareAnchors_eq, AnchorComparison.consistent, Bool.and_eq_false_iff, hmem, hmem, ← exists_or]
  apply exists_congr
  intro seq
  exact or_congr (mem_mismatched hnum) (mem_missing hnum)

/-- Anchors are compared exactly if and only if no entry has both a matching and a contradicting one. -/
theorem anchors_exactly_compared_iff (chain : List (ℕ × String)) (anchors : List Anchor) (hnum : Numbered chain) :
    ExactlyCompared chain anchors ↔
      ∀ e ∈ chain, ¬ (Matches chain anchors e.1 ∧ Contradicts chain anchors e.1) := by
  have hmatched : (compareAnchors chain anchors).matched = count chain (Matches chain anchors) :=
    compareAnchors_matched hnum
  have hmismatched : (compareAnchors chain anchors).mismatched.length = count chain (Contradicts chain anchors) :=
    compareAnchors_mismatched hnum
  have hor : (count chain fun seq => Matches chain anchors seq ∨ Contradicts chain anchors seq) =
      count chain (Matches chain anchors) +
        count chain fun seq => Contradicts chain anchors seq ∧ ¬ Matches chain anchors seq := count_or _ _
  have hsplit : count chain (Contradicts chain anchors) =
      (count chain fun seq => Matches chain anchors seq ∧ Contradicts chain anchors seq) +
        count chain fun seq => Contradicts chain anchors seq ∧ ¬ Matches chain anchors seq := count_and_add _ _
  have hall : (count chain fun seq => Matches chain anchors seq ∨ Contradicts chain anchors seq) ≤ chain.length :=
    count_le _
  rw [← count_eq_zero (p := fun seq => Matches chain anchors seq ∧ Contradicts chain anchors seq)]
  constructor
  · -- a number counted twice makes the counts too large
    intro h
    have honce := h.once
    omega
  · intro hnone
    have hunanchored : (compareAnchors chain anchors).unanchored =
        subU64 (subU64 chain.length (compareAnchors chain anchors).matched)
          (compareAnchors chain anchors).mismatched.length := by
      rw [compareAnchors_eq]
    have hentries : (compareAnchors chain anchors).entries = chain.length := by
      rw [compareAnchors_eq]
      rfl
    -- neither subtraction wraps around
    have hfirst : count chain (Matches chain anchors) ≤ chain.length := by omega
    have hsecond : count chain (Contradicts chain anchors) ≤ chain.length - count chain (Matches chain anchors) := by
      omega
    rw [hmatched, hmismatched, subU64, subU64, if_pos hfirst, if_pos hsecond] at hunanchored
    refine ⟨?_, ?_, ?_, fun _ => compareAnchors_perm, consistent_eq_false hnum⟩
    · rw [hmatched, hmismatched]
      omega
    · rw [hentries, hmatched, hunanchored]
      omega
    · rw [hmatched, hmismatched]
      omega

/-- Two entries with their anchors, the second one twice. -/
def sampleChain : List (ℕ × String) := [(1, "1111"), (2, "2222")]

def sampleAnchors : List Anchor := [⟨2, "2222", some "1111"⟩, ⟨1, "1111", some "1111"⟩, ⟨2, "2222", some "1111"⟩]

theorem anchors_exactly_compared_sample : ExactlyCompared sampleChain sampleAnchors :=
  (anchors_exactly_compared_iff sampleChain sampleAnchors rfl).mpr (by decide)

/-- The second entry was replaced after it was anchored: the log holds an anchor for it as it was, and one for it as
it is. -/
def replacedAnchors : List Anchor := [⟨1, "1111", some "1111"⟩, ⟨2, "0000", some "1111"⟩, ⟨2, "2222", some "1111"⟩]

/-- Such an entry is both matched and mismatched, and the number of entries without an anchor wraps around. -/
theorem replaced_entry_counted_twice : (compareAnchors sampleChain replacedAnchors).unanchored = 2^64 - 1 ∧
    ¬ ∀ (chain : List (ℕ × String)) (anchors : List Anchor), Numbered chain → ExactlyCompared chain anchors := by
  refine ⟨by decide, fun h => ?_⟩
  have hfits := (h sampleChain replacedAnchors rfl).fits
  revert hfits
  decide

/-- The check reports evidence where the comparison finds it. -/
theorem checkAudit_consistent {now : OffsetDateTime} (hnum : Numbered chain) :
    (checkAudit now true (.ok chain) (.ok anchors)).consistent = false ↔
      ∃ seq, Contradicts chain anchors seq ∨ Beyond chain anchors seq :=
  consistent_eq_false hnum

/-- A log that is read back is numbered from 1 on. -/
theorem numbered_numbered (sha256 : Bytes → Sha256Digest) (ls : List Bytes) : Numbered (numbered sha256 1 ls) := by
  have hsnd : (numbered sha256 1 ls).map Prod.fst = (ls.zipIdx 1).map Prod.snd := by
    rw [numbered, List.map_map]
    rfl
  have hlength : (numbered sha256 1 ls).length = ls.length := by rw [numbered, List.length_map, List.length_zipIdx]
  rw [Numbered, hsnd, hlength, List.zipIdx_map_snd]

end Chain

end AbyssalWarden

import Mathlib

/-! The sweep for processes that answer a direct probe but are not listed. -/
namespace AbyssalWarden.SystemCheck

/-- Highest PID probed, whatever `pid_max` says. -/
def pidLimit : ℕ := 4194304

/-- What a direct probe of `/proc/PID` finds. -/
inductive Probe where
  | absent
  /-- A thread of another process (reachable, but never listed). -/
  | thread
  | process
  deriving DecidableEq

/-! ### Ranges of the threads -/

/-- `u32` arithmetic, which wraps -/
def addU32 (a b : ℕ) : ℕ := (a + b) % 2^32

def mulU32 (a b : ℕ) : ℕ := a * b % 2^32

/-- `u32::div_ceil` -/
def divCeil (n k : ℕ) : ℕ := if n % k > 0 then n / k + 1 else n / k

/-- The number of threads, from what the system says of its parallelism. -/
def sweepThreads (parallelism : Option ℕ) : ℕ := max 1 (min 8 (parallelism.getD 1))

def sweepChunk (pidMax threads : ℕ) : ℕ := max (divCeil pidMax threads) 1

def sweepStart (chunk t : ℕ) : ℕ := addU32 (mulU32 t chunk) 1

def sweepEnd (pidMax chunk t : ℕ) : ℕ := min (mulU32 (addU32 t 1) chunk) pidMax

/-- `start..=end` of the thread `t` -/
def sweepRange (pidMax threads t : ℕ) : List ℕ :=
  let chunk := sweepChunk pidMax threads
  List.range' (sweepStart chunk t) (sweepEnd pidMax chunk t + 1 - sweepStart chunk t)

/-! ### The sweep -/

/-- What one thread finds; `cancelled` is the answer when it is asked before that PID. -/
def sweep (listed : Finset ℕ) (probe : ℕ → Probe) (cancelled : ℕ → Bool) : List ℕ → List ℕ
  | [] => []
  | pid :: pids =>
    if pid % 65536 = 0 ∧ cancelled pid then []
    else if pid ∉ listed ∧ probe pid = .process then pid :: sweep listed probe cancelled pids
    else sweep listed probe cancelled pids

/-- What the threads find, in their order. -/
def swept (listed : Finset ℕ) (probe : ℕ → Probe) (cancelled : ℕ → Bool) (pidMax threads : ℕ) : List ℕ :=
  (List.range threads).flatMap fun t => sweep listed probe cancelled (sweepRange pidMax threads t)

/-- PIDs that answer a direct probe as processes but are not in the listing. Candidates are confirmed against a fresh
listing so a process started during the sweep is not reported. -/
def findHidden (parallelism : Option ℕ) (listed : Finset ℕ) (pidMax : ℕ) (probe : ℕ → Probe)
    (relist : Option (Finset ℕ)) (cancelled : ℕ → Bool) : List ℕ :=
  let candidates := (swept listed probe cancelled pidMax (sweepThreads parallelism)).insertionSort (· ≤ ·)
  if candidates = [] then candidates
  else
    match relist with
    | none => []
    | some now => candidates.filter fun pid => pid ∉ now ∧ probe pid = .process

/-! ### Seams -/

variable {n k pid pidMax threads t : ℕ} {listed now : Finset ℕ} {probe : ℕ → Probe}

theorem le_divCeil_mul (hk : 0 < k) : n ≤ k * divCeil n k := by
  have hdiv := Nat.div_add_mod n k
  have hmod := Nat.mod_lt n hk
  unfold divCeil
  split
  · rw [Nat.mul_add, Nat.mul_one]
    omega
  · omega

theorem divCeil_le : divCeil n k ≤ n := by
  have hdiv := Nat.div_le_self n k
  unfold divCeil
  split
  · rename_i hmod
    have hlt : n / k < n ∨ n / k = n := Nat.lt_or_eq_of_le hdiv
    rcases hlt with hlt | heq
    · omega
    · -- a quotient that is not smaller is by one or of nothing, and leaves no remainder
      exfalso
      have hmul := Nat.div_add_mod n k
      rw [heq] at hmul
      have hle : n ≤ k * n ∨ k = 0 := by
        rcases Nat.eq_zero_or_pos k with hk | hk
        · exact Or.inr hk
        · exact Or.inl (Nat.le_mul_of_pos_left n hk)
      rcases hle with hle | hk
      · omega
      · rw [hk, Nat.div_zero] at heq
        rw [hk, Nat.mod_zero] at hmod
        omega
  · exact hdiv

theorem sweepThreads_bounds (parallelism : Option ℕ) :
    1 ≤ sweepThreads parallelism ∧ sweepThreads parallelism ≤ 8 := by
  unfold sweepThreads
  omega

/-- No product or sum of the split leaves 32 bits. -/
theorem sweep_fits (hmax : pidMax ≤ pidLimit) (ht : t < threads) (hthreads : threads ≤ 8) :
    (t + 1) * sweepChunk pidMax threads + 1 < 2^32 := by
  have hchunk : sweepChunk pidMax threads ≤ pidLimit := by
    have hle : divCeil pidMax threads ≤ pidMax := divCeil_le
    unfold sweepChunk pidLimit at *
    omega
  have hprod : (t + 1) * sweepChunk pidMax threads ≤ 8 * pidLimit :=
    Nat.mul_le_mul (by omega) hchunk
  unfold pidLimit at hprod
  omega

theorem sweepStart_eq (hmax : pidMax ≤ pidLimit) (ht : t < threads) (hthreads : threads ≤ 8) :
    sweepStart (sweepChunk pidMax threads) t = t * sweepChunk pidMax threads + 1 := by
  have hfits := sweep_fits hmax ht hthreads
  have hmul : t * sweepChunk pidMax threads < 2^32 := by
    rw [Nat.add_mul, Nat.one_mul] at hfits
    omega
  rw [sweepStart, mulU32, addU32, Nat.mod_eq_of_lt hmul]
  apply Nat.mod_eq_of_lt
  rw [Nat.add_mul, Nat.one_mul] at hfits
  omega

theorem sweepEnd_eq (hmax : pidMax ≤ pidLimit) (ht : t < threads) (hthreads : threads ≤ 8) :
    sweepEnd pidMax (sweepChunk pidMax threads) t = min ((t + 1) * sweepChunk pidMax threads) pidMax := by
  have hfits := sweep_fits hmax ht hthreads
  have hsucc : (t + 1) % 2^32 = t + 1 := Nat.mod_eq_of_lt (by omega)
  rw [sweepEnd, addU32, mulU32, hsucc, Nat.mod_eq_of_lt (by omega)]

/-- The thread that a PID falls to. -/
theorem mem_sweepRange_iff (hmax : pidMax ≤ pidLimit) (ht : t < threads) (hthreads : threads ≤ 8) :
    pid ∈ sweepRange pidMax threads t ↔
      1 ≤ pid ∧ pid ≤ pidMax ∧ (pid - 1) / sweepChunk pidMax threads = t := by
  have hpos : 0 < sweepChunk pidMax threads := by
    unfold sweepChunk
    omega
  have hlow : t ≤ (pid - 1) / sweepChunk pidMax threads ↔ t * sweepChunk pidMax threads ≤ pid - 1 :=
    Nat.le_div_iff_mul_le hpos
  have hhigh : (pid - 1) / sweepChunk pidMax threads < t + 1 ↔
      pid - 1 < (t + 1) * sweepChunk pidMax threads := Nat.div_lt_iff_lt_mul hpos
  rw [Nat.add_mul, Nat.one_mul] at hhigh
  rw [sweepRange, List.mem_range'_1, sweepStart_eq hmax ht hthreads, sweepEnd_eq hmax ht hthreads, Nat.add_mul,
    Nat.one_mul]
  omega

/-- Every PID up to the highest falls to one of the threads. -/
theorem sweepThread_lt (hthreads : 0 < threads) (hlow : 1 ≤ pid) (hhigh : pid ≤ pidMax) :
    (pid - 1) / sweepChunk pidMax threads < threads := by
  have hcover : pidMax ≤ threads * divCeil pidMax threads := le_divCeil_mul hthreads
  have hchunk : divCeil pidMax threads ≤ sweepChunk pidMax threads := Nat.le_max_left _ 1
  have hpos : 0 < sweepChunk pidMax threads := Nat.lt_of_lt_of_le Nat.one_pos (Nat.le_max_right _ 1)
  rw [Nat.div_lt_iff_lt_mul hpos]
  calc pid - 1 < pidMax := by omega
    _ ≤ threads * divCeil pidMax threads := hcover
    _ ≤ threads * sweepChunk pidMax threads := Nat.mul_le_mul_left threads hchunk

/-! ### What is found -/

theorem sweep_eq_filter (pids : List ℕ) :
    sweep listed probe (fun _ => false) pids = pids.filter fun pid => pid ∉ listed ∧ probe pid = .process := by
  induction pids with
  | nil => rfl
  | cons pid pids ih =>
    have hpoll : ¬ (pid % 65536 = 0 ∧ false = true) := fun h => Bool.false_ne_true h.2
    rw [sweep, if_neg hpoll, ih]
    by_cases h : pid ∉ listed ∧ probe pid = .process
    · rw [if_pos h, List.filter_cons_of_pos (by simpa using h)]
    · rw [if_neg h, List.filter_cons_of_neg (by simpa using h)]

theorem mem_swept (hmax : pidMax ≤ pidLimit) (hpos : 0 < threads) (hthreads : threads ≤ 8) :
    pid ∈ swept listed probe (fun _ => false) pidMax threads ↔
      1 ≤ pid ∧ pid ≤ pidMax ∧ pid ∉ listed ∧ probe pid = .process := by
  simp only [swept, List.mem_flatMap, List.mem_range, sweep_eq_filter, List.mem_filter, decide_eq_true_eq]
  constructor
  · rintro ⟨t, ht, hrange, hhidden⟩
    have hmem := (mem_sweepRange_iff hmax ht hthreads).mp hrange
    exact ⟨hmem.1, hmem.2.1, hhidden⟩
  · rintro ⟨hlow, hhigh, hhidden⟩
    have ht := sweepThread_lt hpos hlow hhigh
    exact ⟨_, ht, (mem_sweepRange_iff hmax ht hthreads).mpr ⟨hlow, hhigh, rfl⟩, hhidden⟩

/-- No PID is found by two threads, or twice by one. -/
theorem swept_nodup (hmax : pidMax ≤ pidLimit) (hthreads : threads ≤ 8) :
    (swept listed probe (fun _ => false) pidMax threads).Nodup := by
  rw [swept, List.nodup_flatMap]
  constructor
  · intro t _
    rw [sweep_eq_filter]
    exact List.Nodup.filter _ List.nodup_range'
  · apply List.Pairwise.imp_of_mem _ (List.nodup_range (n := threads))
    intro t u ht hu hne pid hpid hpid'
    simp only [sweep_eq_filter] at hpid hpid'
    have hmem := (mem_sweepRange_iff hmax (List.mem_range.mp ht) hthreads).mp (List.mem_of_mem_filter hpid)
    have hmem' := (mem_sweepRange_iff hmax (List.mem_range.mp hu) hthreads).mp (List.mem_of_mem_filter hpid')
    exact hne (hmem.2.2.symm.trans hmem'.2.2)

/-- Sorted candidates that are confirmed are all that is returned; without candidates there is nothing to confirm. -/
theorem findHidden_eq (parallelism : Option ℕ) :
    findHidden parallelism listed pidMax probe (some now) (fun _ => false) =
      ((swept listed probe (fun _ => false) pidMax (sweepThreads parallelism)).insertionSort (· ≤ ·)).filter
        fun pid => pid ∉ now ∧ probe pid = .process := by
  rw [findHidden]
  by_cases hnil : (swept listed probe (fun _ => false) pidMax (sweepThreads parallelism)).insertionSort (· ≤ ·) = []
  · rw [if_pos hnil, hnil, List.filter_nil]
  · rw [if_neg hnil]

/-- The sweep returns, in ascending order and without repetition, exactly the hidden processes; the ranges of its
threads share out the PIDs, and no number of theirs wraps. -/
theorem find_hidden_exact (parallelism : Option ℕ) (listed now : Finset ℕ) (pidMax : ℕ) (probe : ℕ → Probe)
    (hmax : pidMax ≤ pidLimit) :
    (findHidden parallelism listed pidMax probe (some now) (fun _ => false)).Pairwise (· < ·) ∧
    (∀ pid, pid ∈ findHidden parallelism listed pidMax probe (some now) (fun _ => false) ↔
      1 ≤ pid ∧ pid ≤ pidMax ∧ pid ∉ listed ∧ pid ∉ now ∧ probe pid = .process) ∧
    (∀ pid, 1 ≤ pid ∧ pid ≤ pidMax → ∃! t, t < sweepThreads parallelism ∧
      pid ∈ sweepRange pidMax (sweepThreads parallelism) t) ∧
    (∀ t < sweepThreads parallelism, ∀ pid ∈ sweepRange pidMax (sweepThreads parallelism) t,
      1 ≤ pid ∧ pid ≤ pidMax) ∧
    ∀ t < sweepThreads parallelism, (t + 1) * sweepChunk pidMax (sweepThreads parallelism) + 1 < 2^32 := by
  obtain ⟨hpos, hthreads⟩ := sweepThreads_bounds parallelism
  refine ⟨?_, ?_, ?_, ?_, ?_⟩
  -- what the threads found is sorted, and no PID is found twice
  · rw [findHidden_eq]
    apply List.Pairwise.filter
    have hsorted := List.pairwise_insertionSort (· ≤ ·)
      (swept listed probe (fun _ => false) pidMax (sweepThreads parallelism))
    have hnodup : (List.insertionSort (· ≤ ·)
        (swept listed probe (fun _ => false) pidMax (sweepThreads parallelism))).Nodup :=
      (List.perm_insertionSort (· ≤ ·) _).nodup_iff.mpr (swept_nodup hmax hthreads)
    apply (hsorted.and hnodup).imp
    intro a b h
    exact lt_of_le_of_ne h.1 h.2
  · intro pid
    rw [findHidden_eq, List.mem_filter, List.mem_insertionSort, mem_swept hmax hpos hthreads, decide_eq_true_eq]
    tauto
  -- the thread of a PID is the quotient by the size of a range
  · intro pid hpid
    have ht := sweepThread_lt hpos hpid.1 hpid.2
    refine ⟨_, ⟨ht, (mem_sweepRange_iff hmax ht hthreads).mpr ⟨hpid.1, hpid.2, rfl⟩⟩, ?_⟩
    intro u hu
    exact ((mem_sweepRange_iff hmax hu.1 hthreads).mp hu.2).2.2.symm
  · intro t ht pid hpid
    have hmem := (mem_sweepRange_iff hmax ht hthreads).mp hpid
    exact ⟨hmem.1, hmem.2.1⟩
  · intro t ht
    exact sweep_fits hmax ht hthreads

/-- Three threads for ten PIDs: the last range is short, and 7 is found hidden. -/
theorem find_hidden_exact_sample :
    7 ∈ findHidden (some 3) {1, 2, 3} 10 (fun pid => if pid = 7 then .process else .absent) (some {1, 2, 3, 9})
      (fun _ => false) :=
  ((find_hidden_exact (some 3) {1, 2, 3} {1, 2, 3, 9} 10 (fun pid => if pid = 7 then .process else .absent)
    (by decide)).2.1 7).mpr (by decide)

end AbyssalWarden.SystemCheck

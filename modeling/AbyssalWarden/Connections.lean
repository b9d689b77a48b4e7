import AbyssalWarden.PartialRuns

/-! The connections that the service serves at once, and the counter it keeps of them. Between two events of the one
thread that accepts connections the threads of clients may end at any time. -/
namespace AbyssalWarden

def maxConnections : ℕ := 64

/-- `AtomicUsize::fetch_add(1)` -/
def fetchAdd (n : ℕ) : ℕ := (n + 1) % 2^64

/-- `AtomicUsize::fetch_sub(1)` -/
def fetchSub (n : ℕ) : ℕ := (n + (2^64 - 1)) % 2^64

/-- Where the thread that accepts connections is: in `accept`, or with a connection that it admitted, or counted. -/
inductive Acceptor where
  | waiting
  | admitted (conn : ℕ)
  | counted (conn : ℕ)
  deriving DecidableEq

/-- The counter, and the connections whose client threads are running. -/
structure Connections where
  active : ℕ
  acceptor : Acceptor
  running : List ℕ
  deriving DecidableEq

inductive ConnectionEvent where
  /-- A connection is accepted, and dropped if too many are counted. -/
  | accept (conn : ℕ)
  | count
  | spawned
  | spawnFailed
  /-- A client's work ends, and its thread counts it off. -/
  | finished (conn : ℕ)
  /-- A client's work panics, and its thread unwinds. -/
  | panicked (conn : ℕ)
  deriving DecidableEq

namespace Connections

def start : Connections := ⟨0, .waiting, []⟩

/-- `serve` and `spawn_client`, and the closures they start. -/
def step (s : Connections) : ConnectionEvent → Option Connections
  | .accept conn =>
    match s.acceptor with
    | .waiting => if s.active ≥ maxConnections then some s else some { s with acceptor := .admitted conn }
    | _ => none
  | .count =>
    match s.acceptor with
    | .admitted conn => some { s with active := fetchAdd s.active, acceptor := .counted conn }
    | _ => none
  | .spawned =>
    match s.acceptor with
    | .counted conn => some { s with acceptor := .waiting, running := conn :: s.running }
    | _ => none
  | .spawnFailed =>
    match s.acceptor with
    | .counted _ => some { s with acceptor := .waiting }
    | _ => none
  | .finished conn =>
    if conn ∈ s.running then some { s with active := fetchSub s.active, running := s.running.erase conn } else none
  | .panicked conn => if conn ∈ s.running then some { s with running := s.running.erase conn } else none

/-- The client that is counted and not started yet. -/
def starting (s : Connections) : ℕ :=
  match s.acceptor with
  | .counted _ => 1
  | _ => 0

/-- The counter is the number of client threads (with the one being started), no more than the limit are running, and
while fewer are, the next connection is not dropped. -/
structure Exact (s : Connections) : Prop where
  active_eq : s.active = s.running.length + s.starting
  running_le : s.running.length + s.starting ≤ maxConnections
  served : s.acceptor = .waiting → s.running.length < maxConnections →
    ∀ conn, s.step (.accept conn) = some { s with acceptor := .admitted conn }

end Connections

/-- A thread that could not be started, or that panicked, is not counted off. -/
def ConnectionEvent.leaks : ConnectionEvent → Bool
  | .spawnFailed | .panicked _ => true
  | _ => false

namespace Connections

variable {s s' : Connections} {e : ConnectionEvent} {es : List ConnectionEvent} {conn n : ℕ}

theorem fetchAdd_of_lt (h : n < maxConnections) : fetchAdd n = n + 1 := by
  unfold fetchAdd
  unfold maxConnections at h
  omega

theorem fetchSub_of_pos (hpos : 0 < n) (h : n ≤ maxConnections) : fetchSub n = n - 1 := by
  unfold fetchSub
  unfold maxConnections at h
  omega

/-- What holds of the counter in every state: it also counts what was never counted off, and stays within the limit. -/
structure Counted (leaked : ℕ) (s : Connections) : Prop where
  active_eq : s.active = s.running.length + s.starting + leaked
  active_le : s.active ≤ maxConnections
  room : ∀ conn, s.acceptor = .admitted conn → s.active < maxConnections

theorem Counted.running_le (h : Counted n s) : s.running.length + s.starting + n ≤ maxConnections :=
  h.active_eq ▸ h.active_le

/-- Every step keeps the count; what leaks is never counted off. -/
theorem Counted.step (h : Counted n s) (hstep : s.step e = some s') : Counted (n + if e.leaks then 1 else 0) s' := by
  have heq := h.active_eq
  have hle := h.active_le
  have hroom := h.room
  obtain ⟨active, acceptor, running⟩ := s
  -- one case for each event; an event that its thread is not at is no step
  cases e with
  | accept conn =>
    cases acceptor with
    | waiting =>
      simp only [Connections.step] at hstep
      split at hstep
      · obtain rfl := Option.some.inj hstep
        exact h
      -- this test is what later makes room for the count
      · rename_i hfew
        obtain rfl := Option.some.inj hstep
        exact ⟨heq, hle, fun _ _ => Nat.not_le.mp hfew⟩
    | admitted conn' => cases hstep
    | counted conn' => cases hstep
  | count =>
    cases acceptor with
    | waiting => cases hstep
    | counted conn' => cases hstep
    | admitted conn' =>
      have hlt := hroom conn' rfl
      obtain rfl := Option.some.inj hstep
      have hadd : fetchAdd active = active + 1 := fetchAdd_of_lt hlt
      refine ⟨?_, ?_, fun conn hconn => by cases hconn⟩
      · simp only [starting, ConnectionEvent.leaks, Bool.false_eq_true, if_false] at heq ⊢
        rw [hadd]
        omega
      · simp only
        rw [hadd]
        exact hlt
  | spawned =>
    cases acceptor with
    | waiting => cases hstep
    | admitted conn' => cases hstep
    | counted conn' =>
      obtain rfl := Option.some.inj hstep
      -- the client moves from the one being started to the running ones
      refine ⟨?_, hle, fun conn hconn => by cases hconn⟩
      simp only [starting, List.length_cons, ConnectionEvent.leaks, Bool.false_eq_true, if_false] at heq ⊢
      omega
  | spawnFailed =>
    cases acceptor with
    | waiting => cases hstep
    | admitted conn' => cases hstep
    | counted conn' =>
      obtain rfl := Option.some.inj hstep
      -- the client is gone, and nobody counts it off
      refine ⟨?_, hle, fun conn hconn => by cases hconn⟩
      simp only [starting, ConnectionEvent.leaks, if_true] at heq ⊢
      omega
  | finished conn =>
    simp only [Connections.step] at hstep
    split at hstep
    · rename_i hrunning
      obtain rfl := Option.some.inj hstep
      have hlength := List.length_erase_of_mem hrunning
      have hpos := List.length_pos_of_mem hrunning
      simp only at heq hle hroom
      -- a running client is counted, so the counter does not wrap
      have hcounted : 0 < active := by omega
      have hsub : fetchSub active = active - 1 := fetchSub_of_pos hcounted hle
      rw [hsub]
      refine ⟨?_, ?_, ?_⟩
      · have hstarting : (⟨active - 1, acceptor, running.erase conn⟩ : Connections).starting =
          (⟨active, acceptor, running⟩ : Connections).starting := rfl
        rw [hstarting]
        simp only [ConnectionEvent.leaks, Bool.false_eq_true, if_false]
        omega
      · simp only
        omega
      · intro conn' hconn'
        have hlt := hroom conn' hconn'
        simp only
        omega
    · cases hstep
  | panicked conn =>
    simp only [Connections.step] at hstep
    split at hstep
    · rename_i hrunning
      obtain rfl := Option.some.inj hstep
      have hlength := List.length_erase_of_mem hrunning
      have hpos := List.length_pos_of_mem hrunning
      have hstarting : (⟨active, acceptor, running.erase conn⟩ : Connections).starting =
        (⟨active, acceptor, running⟩ : Connections).starting := rfl
      simp only at heq
      -- the thread is gone with its `fetch_sub`
      refine ⟨?_, hle, hroom⟩
      rw [hstarting]
      simp only [ConnectionEvent.leaks, if_true]
      omega
    · cases hstep

/-- What was never counted off in a run. -/
def leaked (es : List ConnectionEvent) : ℕ := es.countP ConnectionEvent.leaks

theorem counted_run (h : runFrom step start es = some s) : Counted (leaked es) s := by
  refine runFrom_invariant (fun es s => Counted (leaked es) s) ?_ ?_ h
  · exact ⟨rfl, Nat.zero_le _, fun conn hconn => by cases hconn⟩
  · intro es s₁ e s₂ hcounted hstep
    have hnext := hcounted.step hstep
    have hleaked : leaked (es ++ [e]) = leaked es + if e.leaks then 1 else 0 := by
      rw [leaked, List.countP_append, List.countP_singleton]
      rfl
    rw [hleaked]
    exact hnext

/-- The counter is exact where nothing leaked. -/
theorem Counted.exact_iff (h : Counted n s) : s.Exact ↔ n = 0 := by
  have heq := h.active_eq
  constructor
  · intro hexact
    have hactive := hexact.active_eq
    omega
  · rintro rfl
    refine ⟨heq, h.running_le, ?_⟩
    intro hwaiting hfew conn
    obtain ⟨active, acceptor, running⟩ := s
    simp only at hwaiting hfew
    subst hwaiting
    simp only [starting] at heq
    have hroom : ¬ active ≥ maxConnections := by omega
    simp only [Connections.step, if_neg hroom]

/-- The counter is exact all through a run exactly if no client thread fails to start and none panics. -/
theorem connections_exact_iff (h : runFrom step start es = some s) :
    (∀ pre, pre <+: es → ∀ s', runFrom step start pre = some s' → s'.Exact) ↔ ∀ e ∈ es, e.leaks = false := by
  have hzero : leaked es = 0 ↔ ∀ e ∈ es, e.leaks = false := by
    rw [leaked, List.countP_eq_zero]
    simp
  rw [← hzero]
  constructor
  · intro hall
    exact (counted_run h).exact_iff.mp (hall es List.prefix_rfl s h)
  · intro hnone pre hpre s' hs'
    apply (counted_run hs').exact_iff.mpr
    have hle : leaked pre ≤ leaked es := hpre.sublist.countP_le
    omega

/-- After as many leaks as connections are served at once, no client is running and every connection is dropped. -/
theorem nobody_served (h : runFrom step start es = some s) (hleaked : leaked es = maxConnections) :
    s.running = [] ∧ ∀ conn s', s.step (.accept conn) = some s' → s' = s := by
  have hcounted := counted_run h
  have heq := hcounted.active_eq
  have hle := hcounted.running_le
  have hempty : s.running.length = 0 := by omega
  refine ⟨List.length_eq_zero_iff.mp hempty, ?_⟩
  intro conn s' hstep
  obtain ⟨active, acceptor, running⟩ := s
  cases acceptor with
  | waiting =>
    have hfull : active ≥ maxConnections := by
      simp only at heq
      omega
    simp only [Connections.step, if_pos hfull] at hstep
    exact (Option.some.inj hstep).symm
  | admitted conn' => cases hstep
  | counted conn' => cases hstep

/-- A client that is served and goes. -/
theorem connections_exact_iff_sample :
    (∀ pre, pre <+: [.accept 0, .count, .spawned, .finished 0] → ∀ s', runFrom step start pre = some s' → s'.Exact) ↔
      ∀ e ∈ [.accept 0, .count, .spawned, .finished 0], ConnectionEvent.leaks e = false :=
  connections_exact_iff (s := ⟨0, .waiting, []⟩) (by decide)

/-- A client thread that panics is counted on. -/
theorem panicked_client_counted : runFrom step start [.accept 0, .count, .spawned, .panicked 0] =
      some ⟨1, .waiting, []⟩ ∧ ¬ (⟨1, .waiting, []⟩ : Connections).Exact := by
  refine ⟨by decide, ?_⟩
  intro hexact
  have hactive := hexact.active_eq
  revert hactive
  decide

end Connections

end AbyssalWarden

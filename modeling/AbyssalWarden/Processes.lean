import AbyssalWarden.QuarantineCalls

/-! The processes that run a file while it is quarantined: paused before it is copied, ended once it is
safely stored, and resumed on any error. -/
namespace AbyssalWarden

inductive Signal where
  | stop
  | cont
  | kill
  deriving DecidableEq

inductive ProcessState where
  | running
  | stopped
  | ended
  deriving DecidableEq

/-- What a delivered signal does. -/
def Signal.act : Signal → ProcessState → ProcessState
  | _, .ended => .ended
  | .stop, _ => .stopped
  | .cont, _ => .running
  | .kill, _ => .ended

/-- The processes by their numbers. -/
abbrev Processes := ℕ → ProcessState

/-- What the kernel answers to a signal. -/
abbrev Delivery := ℕ → Signal → Except String Unit

variable (deliver : Delivery)

def signal (pid : ℕ) (sig : Signal) (ps : Processes) : Except String Unit × Processes :=
  match deliver pid sig with
  | .ok _ => (.ok (), Function.update ps pid (sig.act (ps pid)))
  | .error e => (.error e, ps)

/-- Processes paused for the duration of a quarantine. -/
structure Paused where
  pids : List ℕ

namespace Paused

/-- One round of the loop of `pause`. -/
def pauseOne (acc : List ℕ × List String × Processes) (p : ProcessUser) : List ℕ × List String × Processes :=
  match signal deliver p.pid .stop acc.2.2 with
  | (.ok _, ps) => (acc.1 ++ [p.pid], acc.2.1, ps)
  | (.error e, ps) => (acc.1, acc.2.1 ++ ["could not pause PID " ++ toString p.pid ++ ": " ++ e], ps)

/-- Pause each process; returns the guard and a note per process that could not be paused. -/
def pause (procs : List ProcessUser) (ps : Processes) : Paused × List String × Processes :=
  let (pids, problems, ps) := procs.foldl (pauseOne deliver) ([], [], ps)
  (⟨pids⟩, problems, ps)

/-- One round of the loop of `kill`. -/
def killOne (acc : List String × Processes) (pid : ℕ) : List String × Processes :=
  match signal deliver pid .kill acc.2 with
  | (.ok _, ps) => (acc.1, ps)
  | (.error e, ps) =>
    (acc.1 ++ ["could not kill PID " ++ toString pid ++ ": " ++ e], (signal deliver pid .cont ps).2)

/-- Kill the paused processes. Returns a note per failure. -/
def kill (paused : Paused) (ps : Processes) : List String × Processes :=
  paused.pids.foldl (killOne deliver) ([], ps)

/-- Dropping the guard resumes them. -/
def drop (paused : Paused) (ps : Processes) : Processes :=
  paused.pids.foldl (fun ps pid => (signal deliver pid .cont ps).2) ps

end Paused

variable {deliver : Delivery} {ps ps' before : Processes} {pid : ℕ}

/-- Whatever else is stopped was so before. -/
def OnlyStopped (before : Processes) (pids : List ℕ) (ps : Processes) : Prop :=
  ∀ q, before q ≠ .stopped → ps q = before q ∨ q ∈ pids ∧ ps q = .stopped ∧ before q = .running

theorem pauseOne_onlyStopped {acc : List ℕ × List String × Processes} {p : ProcessUser}
    (h : OnlyStopped before acc.1 acc.2.2) :
    OnlyStopped before (Paused.pauseOne deliver acc p).1 (Paused.pauseOne deliver acc p).2.2 := by
  intro q hq
  unfold Paused.pauseOne signal
  cases deliver p.pid .stop with
  | error e => exact h q hq
  | ok _ =>
    dsimp only
    -- it is this process, which was running, or it is another one
    by_cases hp : q = p.pid
    · rw [hp] at hq ⊢
      rw [Function.update_self]
      have hmem : p.pid ∈ acc.1 ++ [p.pid] := List.mem_append_right _ (List.mem_singleton_self _)
      cases h p.pid hq with
      | inl hsame =>
        rw [hsame]
        cases hb : before p.pid with
        | running => exact .inr ⟨hmem, rfl, rfl⟩
        | stopped => exact absurd hb hq
        | ended => exact .inl rfl
      | inr hstopped =>
        obtain ⟨-, hstopped, hrunning⟩ := hstopped
        rw [hstopped]
        exact .inr ⟨hmem, rfl, hrunning⟩
    · rw [Function.update_of_ne hp]
      exact (h q hq).imp_right fun ⟨hmem, hrest⟩ => ⟨List.mem_append_left _ hmem, hrest⟩

theorem pause_onlyStopped (deliver : Delivery) (procs : List ProcessUser) (ps : Processes) :
    OnlyStopped ps (Paused.pause deliver procs ps).1.pids (Paused.pause deliver procs ps).2.2 := by
  have hfold (acc : List ℕ × List String × Processes) (h : OnlyStopped ps acc.1 acc.2.2) :
      OnlyStopped ps (procs.foldl (Paused.pauseOne deliver) acc).1
        (procs.foldl (Paused.pauseOne deliver) acc).2.2 := by
    induction procs generalizing acc with
    | nil => exact h
    | cons p procs ih => exact ih _ (pauseOne_onlyStopped h)
  exact hfold ([], [], ps) fun _ _ => .inl rfl

/-- Dropping the guard resumes what it stopped, if the signal that does so is delivered. -/
theorem drop_resumes {paused : Paused} (hcont : ∀ q, deliver q .cont = .ok ()) (q : ℕ) :
    paused.drop deliver ps q = if q ∈ paused.pids then Signal.cont.act (ps q) else ps q := by
  obtain ⟨pids⟩ := paused
  unfold Paused.drop
  dsimp only
  induction pids generalizing ps with
  | nil => simp
  | cons pid pids ih =>
    have hact (s : ProcessState) : Signal.cont.act (Signal.cont.act s) = Signal.cont.act s := by cases s <;> rfl
    rw [List.foldl_cons, ih, signal, hcont]
    dsimp only
    by_cases hq : q = pid
    · rw [hq, Function.update_self]
      simp [hact]
    · rw [Function.update_of_ne hq]
      simp [hq]

/-- Paused and resumed, the processes are as before. -/
theorem pause_drop (procs : List ProcessUser) (hcont : ∀ q, deliver q .cont = .ok ()) (q : ℕ)
    (hq : ps q ≠ .stopped) :
    (Paused.pause deliver procs ps).1.drop deliver (Paused.pause deliver procs ps).2.2 q = ps q := by
  rw [drop_resumes hcont]
  have hstopped := pause_onlyStopped deliver procs ps q hq
  generalize (Paused.pause deliver procs ps).2.2 q = now at hstopped ⊢
  cases hstopped with
  | inl hsame =>
    rw [hsame]
    cases hb : ps q with
    | running => simp [Signal.act]
    | stopped => exact absurd hb hq
    | ended => simp [Signal.act]
  | inr hpaused =>
    obtain ⟨hmem, hnow, hrunning⟩ := hpaused
    rw [if_pos hmem, hnow, hrunning]
    rfl

end AbyssalWarden

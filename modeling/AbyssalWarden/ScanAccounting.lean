import AbyssalWarden.Aggregator
import AbyssalWarden.PartialRuns

/-! The threads of a scan: the walker queues files, the workers take them and send what they found, and the
coordinator puts the messages together and gives up on workers that are stuck. A file is on the queue, with a worker,
on its way to the coordinator, or in the report once: unless the coordinator flags a worker that went on since its
slot was read, or leaves while a file's message is still on its way. -/
namespace AbyssalWarden.ScanThreads

/-- Where a worker is in `worker_main`; files are numbered as they are queued. -/
inductive Phase where
  | starting
  | waiting
  /-- received, not counted yet -/
  | taken (file : ℕ)
  | counted (file : ℕ)
  /-- the scan was not stopped when the worker looked -/
  | unstopped (file : ℕ)
  | processing (file : ℕ)
  /-- the slot is empty again; `sends` tells whether there is a message -/
  | cleared (file : ℕ) (sends : Bool)
  /-- the worker was not abandoned when it looked -/
  | tested (file : ℕ) (sends : Bool)
  | leaving (panicked : Bool)
  | gone (panicked : Bool)
  deriving DecidableEq

/-- `Slot` and `WorkerHandle`, and how far the thread is. -/
structure Worker where
  phase : Phase
  current : Option ℕ
  abandoned : Bool
  live : Bool
  deriving DecidableEq

def Worker.spawned : Worker := ⟨.starting, none, false, true⟩

/-- What the threads send; `walked` stands for what the walker reports about entries that it does not queue. -/
inductive Msg where
  | file (file : ℕ)
  | walked
  | walkerExited (panicked : Bool)
  | workerExited (id : ℕ) (panicked : Bool)
  deriving DecidableEq

inductive Walker where
  | walking
  /-- a file is on the queue and not counted yet -/
  | counting
  | leaving (panicked : Bool)
  | exited
  /-- the sending end of the queue is dropped -/
  | closed
  deriving DecidableEq

inductive Outcome where
  | threadPanicked
  | report (status : ScanStatus) (stopReason : Option StopReason)
  deriving DecidableEq

inductive Coordinator where
  | receiving
  | checking
  /-- the watchdog's loop -/
  | watching (id last : ℕ)
  /-- the slot of a worker held this file for too long when it was read -/
  | stalled (id file last : ℕ)
  | left
  | returned (outcome : Outcome)
  deriving DecidableEq

structure State where
  queue : List ℕ
  queued : ℕ
  enqueued : ℕ
  dequeued : ℕ
  walker : Walker
  workers : List Worker
  channel : List Msg
  coordinator : Coordinator
  walkerDone : Bool
  panicked : Bool
  /-- the coordinator's, and the token that the other threads see -/
  stopReason : Option StopReason
  stop : Bool
  abandoned : ℕ
  /-- the files whose messages were put in the report, and those reported as timed out -/
  handled : List ℕ
  timedOut : List ℕ

/-- The state when all threads are started; `cancelled` if the scan was cancelled before. -/
def start (nWorkers : ℕ) (cancelled : Bool) : State where
  queue := []
  queued := 0
  enqueued := 0
  dequeued := 0
  walker := .walking
  workers := .replicate nWorkers .spawned
  channel := []
  coordinator := .receiving
  walkerDone := false
  panicked := false
  stopReason := if cancelled then some .cancelled else none
  stop := cancelled
  abandoned := 0
  handled := []
  timedOut := []

inductive Event where
  /-- `enqueue`: a file goes on the queue -/
  | enqueue
  | walked
  | walkerReturns (panicked : Bool)
  | walkerGoesOn
  | work (id : ℕ) (sends : Bool)
  | panics (id : ℕ)
  | receive
  | tick
  | check (reason : Option StopReason)
  | look (stalled : Bool)
  | abandon (spawned : Bool)
  | endRound
  | leave
  | conclude
  deriving DecidableEq

/-! ### The channel -/

def channelCapacity : ℕ := 256

/-- The receiving end is dropped when the coordinator leaves its loop. -/
def State.receiverDropped (s : State) : Bool :=
  match s.coordinator with
  | .left | .returned _ => true
  | _ => false

/-- `send` with its result ignored; it waits while the channel is full. -/
def State.notify (s : State) (m : Msg) : Option State :=
  if s.receiverDropped then some s
  else if s.channel.length < channelCapacity then some { s with channel := s.channel ++ [m] } else none

/-! ### The threads -/

/-- `walker_main`, where it does not choose. -/
def walkerGoesOn (s : State) : Option State :=
  match s.walker with
  | .counting => some { s with enqueued := s.enqueued + 1, walker := .walking }
  | .leaving panicked => ({ s with walker := .exited }).notify (.walkerExited panicked)
  | .exited => some { s with walker := .closed }
  | _ => none

def State.put (s : State) (id : ℕ) (w : Worker) : State := { s with workers := s.workers.set id w }

/-- One step of `worker_main`; `process_file` has no message only where the scan was stopped. -/
def work (s : State) (id : ℕ) (w : Worker) (sends : Bool) : Option State :=
  match w.phase with
  | .starting => some (s.put id { w with phase := .waiting })
  | .waiting =>
    match s.queue with
    | f :: rest => some (({ s with queue := rest }).put id { w with phase := .taken f })
    -- the channel is closed once the walker has dropped its sender
    | [] => if s.walker = .closed then some (s.put id { w with phase := .leaving false }) else none
  | .taken f => some (({ s with dequeued := s.dequeued + 1 }).put id { w with phase := .counted f })
  -- a stopped worker goes on taking files, so that the walker never waits for room
  | .counted f => some (s.put id { w with phase := if s.stop then .waiting else .unstopped f })
  | .unstopped f => some (s.put id { w with phase := .processing f, current := some f })
  -- `slot.set(None)` comes before the flag is read, so the slot is empty from here on
  | .processing f =>
    if sends || s.stop then some (s.put id { w with phase := .cleared f sends, current := none }) else none
  | .cleared f sends => some (s.put id { w with phase := if w.abandoned then .leaving false else .tested f sends })
  | .tested f sends =>
    if !sends then some (s.put id { w with phase := .waiting })
    else if s.receiverDropped then some (s.put id { w with phase := .leaving false })
    else (s.put id { w with phase := .waiting }).notify (.file f)
  | .leaving panicked => (s.put id { w with phase := .gone panicked }).notify (.workerExited id panicked)
  | .gone _ => none

/-- What the coordinator does with a message. -/
def handle (s : State) : Msg → State
  | .file f => { s with handled := s.handled ++ [f] }
  | .walked => s
  | .walkerExited panicked => { s with walkerDone := true, panicked := s.panicked || panicked }
  | .workerExited id panicked =>
    { s with workers := s.workers.modify id ({ · with live := false }), panicked := s.panicked || panicked }

def State.noneLive (s : State) : Bool := s.workers.all (!·.live)

/-- `WorkerHandle::abandon`, the issue, and the worker that takes its place. -/
def abandon (nWorkers : ℕ) (s : State) (id file : ℕ) (spawned : Bool) : State :=
  let workers := s.workers.modify id ({ · with abandoned := true, live := false })
  { s with
    workers := if s.abandoned + 1 ≤ nWorkers ∧ s.stopReason = none ∧ spawned then workers ++ [.spawned] else workers
    abandoned := s.abandoned + 1
    timedOut := s.timedOut ++ [file] }

def statusOf : Option StopReason → ScanStatus
  | none => .completed
  | some .cancelled => .cancelled
  | some .scanTimeLimit | some .tooManyStalls => .timeLimitReached

/-- What `scan` returns after its loop. The threads it joins have sent that they exited, so they add no panic. -/
def outcome (s : State) : Outcome :=
  let unscanned := s.enqueued - s.dequeued
  let stopReason := if unscanned > 0 ∧ s.stopReason = none then some .tooManyStalls else s.stopReason
  if s.panicked then .threadPanicked else .report (statusOf stopReason) stopReason

/-- One step of one of the threads; `none` where that thread is not there, or waits. -/
def step (nWorkers : ℕ) (s : State) : Event → Option State
  | .enqueue =>
    -- the work queue has room for 16 files for each worker
    if s.walker = .walking ∧ s.queue.length < nWorkers * 16 then
      some { s with queue := s.queue ++ [s.queued], queued := s.queued + 1, walker := .counting }
    else none
  | .walked =>
    if s.walker ≠ .walking then none
    else if s.receiverDropped then some { s with walker := .leaving false }
    else s.notify .walked
  | .walkerReturns panicked => if s.walker = .walking then some { s with walker := .leaving panicked } else none
  | .walkerGoesOn => walkerGoesOn s
  | .work id sends => s.workers[id]?.bind fun w => work s id w sends
  | .panics id => s.workers[id]?.bind fun w =>
    match w.phase with
    -- code of the detectors runs here only
    | .starting | .processing _ => some (s.put id { w with phase := .leaving true })
    | _ => none
  | .receive =>
    -- the loop ends before it receives where the walker and all workers are done
    if s.coordinator ≠ .receiving ∨ (s.walkerDone ∧ s.noneLive) then none
    else match s.channel with
      | [] => none
      | m :: rest => some { handle { s with channel := rest } m with coordinator := .checking }
  | .tick =>
    if s.coordinator ≠ .receiving ∨ (s.walkerDone ∧ s.noneLive) ∨ s.channel ≠ [] then none
    else some { s with coordinator := .checking }
  | .check reason =>
    if s.coordinator ≠ .checking ∨ reason = some .tooManyStalls then none
    else if s.stopReason = none then
      some { s with stopReason := reason, stop := reason.isSome, coordinator := .watching 0 s.workers.length }
    else some { s with coordinator := .watching 0 s.workers.length }
  | .look stalled =>
    match s.coordinator with
    | .watching id last =>
      if last ≤ id then none
      else s.workers[id]?.bind fun w =>
        -- the slot is read once; what follows is about the file read there
        match w.current, w.live && stalled with
        | some f, true => some { s with coordinator := .stalled id f last }
        | _, _ => some { s with coordinator := .watching (id + 1) last }
    | _ => none
  | .abandon spawned =>
    match s.coordinator with
    | .stalled id f last => some { abandon nWorkers s id f spawned with coordinator := .watching (id + 1) last }
    | _ => none
  | .endRound =>
    match s.coordinator with
    -- all workers were looked at
    | .watching id last =>
      if id < last then none
      else if s.stopReason = none ∧ s.noneLive ∧ s.walkerDone = false then
        some { s with stopReason := some .tooManyStalls, stop := true, coordinator := .receiving }
      else some { s with coordinator := .receiving }
    | _ => none
  | .leave =>
    if s.coordinator = .receiving ∧ s.walkerDone ∧ s.noneLive then
      -- what is in the channel is dropped with the receiver
      some { s with coordinator := .left, channel := [] }
    else none
  | .conclude =>
    if s.coordinator = .left then some { s with coordinator := .returned (outcome s), stop := true } else none

/-! ### What a run keeps -/

/-- The file that a worker has and did not report; one that panicked over a file has it still. -/
def Worker.file (w : Worker) : Option ℕ :=
  match w.phase with
  | .starting | .waiting => none
  | .taken f | .counted f | .unstopped f | .processing f | .cleared f _ | .tested f _ => some f
  | .leaving _ | .gone _ => w.current

/-- The worker will look at its flag, or do nothing, before it reports its file or takes another. -/
def Worker.untested (w : Worker) : Bool :=
  match w.phase with
  | .processing _ | .cleared _ _ | .leaving _ | .gone _ => true
  | _ => false

/-- A worker is flagged while it has the file that was read from its slot and did not look at its flag yet, and no
file's message is on its way when the coordinator leaves. -/
def undisturbed (s : State) : Event → Bool
  | .abandon _ =>
    match s.coordinator with
    | .stalled id f _ => s.workers[id]?.all fun w => w.untested && w.file == some f
    | _ => true
  | .leave => s.channel.all fun m =>
    match m with
    | .file _ => false
    | _ => true
  | _ => true

/-- The steps that keep the accounts. -/
def undisturbedStep (nWorkers : ℕ) (s : State) (e : Event) : Option State :=
  if undisturbed s e then step nWorkers s e else none

/-- The worker has the file, and nothing else accounts for it. -/
def Worker.owes (f : ℕ) (w : Worker) : Bool := !w.abandoned && w.file == some f

def Worker.uncounted (w : Worker) : Bool :=
  match w.phase with
  | .taken _ => true
  | _ => false

/-- The worker drops its file. -/
def Worker.silent (w : Worker) : Bool :=
  match w.phase with
  | .cleared _ false | .tested _ false => true
  | _ => false

/-- The slot holds the file being processed; a worker that leaves with a file in it panicked. -/
def Worker.SlotOk (w : Worker) : Prop :=
  match w.phase with
  | .processing f => w.current = some f
  | .leaving panicked | .gone panicked => w.current = none ∨ panicked = true
  | _ => w.current = none

structure Worker.Ok (stop panicked : Bool) (w : Worker) : Prop where
  flagged : w.abandoned = true → w.live = false ∧ w.untested = true
  ended : w.live = false → w.abandoned = true ∨ ∃ p, w.phase = .gone p ∧ (p = true → panicked = true)
  slot : w.SlotOk
  sends : stop = false → w.silent = false

/-- How often a file is somewhere. -/
def State.account (s : State) (f : ℕ) : ℕ :=
  s.queue.count f + s.workers.countP (Worker.owes f) + s.channel.count (.file f) + s.handled.count f +
    s.timedOut.count f

structure Accounts (s : State) : Prop where
  balanced : s.stop = false → ∀ f, s.account f = if f < s.queued then 1 else 0
  enqueued : s.enqueued + (if s.walker = .counting then 1 else 0) = s.queued
  dequeued : s.dequeued + s.workers.countP Worker.uncounted + s.queue.length = s.queued
  workers : ∀ w ∈ s.workers, w.Ok s.stop s.panicked
  notices : ∀ id p, .workerExited id p ∈ s.channel → ∃ w, s.workers[id]? = some w ∧ w.phase = .gone p
  walker : (s.walkerDone = true ∨ ∃ p, .walkerExited p ∈ s.channel) → s.walker = .exited ∨ s.walker = .closed
  left : s.receiverDropped = true → s.walkerDone = true ∧ s.noneLive = true ∧ s.channel = []
  stopped : (∀ o, s.coordinator ≠ .returned o) → s.stop = s.stopReason.isSome
  stalled : ∀ id f last, s.coordinator = .stalled id f last → ∃ w, s.workers[id]? = some w ∧ w.live = true
  complete : ∀ r, s.coordinator = .returned (.report .completed r) →
    ∀ f < s.queued, s.handled.count f + s.timedOut.count f = 1

variable {s s' : State} {id f n : ℕ} {w w' : Worker}

theorem countP_set_add {α : Type} {p : α → Bool} {l : List α} {i : ℕ} {a b : α} (h : l[i]? = some a) :
    (l.set i b).countP p + (p a).toNat = l.countP p + (p b).toNat := by
  obtain ⟨hi, rfl⟩ := List.getElem?_eq_some_iff.mp h
  have hle := List.boole_getElem_le_countP (p := p) hi
  rw [List.countP_set hi]
  cases hp : p l[i] <;> cases p b <;>
    simp only [hp, Bool.false_eq_true, ↓reduceIte, Bool.toNat_false, Bool.toNat_true] at hle ⊢ <;> omega

theorem modify_eq_set {α : Type} {l : List α} {i : ℕ} {a : α} {g : α → α} (h : l[i]? = some a) :
    l.modify i g = l.set i (g a) := by
  apply List.ext_getElem?
  intro j
  rw [List.getElem?_modify, List.getElem?_set]
  obtain ⟨hi, ha⟩ := List.getElem?_eq_some_iff.mp h
  split_ifs with hij
  · subst hij
    rw [h]
    rfl
  · cases l[j]? <;> rfl

/-- A step of a worker, with what it changes besides its own phase and slot. -/
theorem Accounts.worker {q : List ℕ} {d : ℕ} {c : List Msg} (h : Accounts s) (hw : s.workers[id]? = some w)
    (habandoned : w'.abandoned = w.abandoned) (hlive : w'.live = w.live) (hok : w'.Ok s.stop s.panicked)
    (hgone : ∀ p, w.phase ≠ .gone p)
    (hfiles : s.stop = false → ∀ f, q.count f + (w'.owes f).toNat + c.count (.file f) =
      s.queue.count f + (w.owes f).toNat + s.channel.count (.file f))
    (hcounted : d + w'.uncounted.toNat + q.length = s.dequeued + w.uncounted.toNat + s.queue.length)
    (hchannel : ∀ m ∈ c, m ∈ s.channel ∨ (∃ f, m = .file f) ∨ ∃ p, m = .workerExited id p ∧ w'.phase = .gone p)
    (hdropped : s.receiverDropped = true → c = []) :
    Accounts { s with queue := q, dequeued := d, channel := c, workers := s.workers.set id w' } where
  balanced hstop f := by
    have hset := countP_set_add (p := Worker.owes f) (b := w') hw
    have hbefore := h.balanced hstop f
    have hmoved := hfiles hstop f
    simp only [State.account] at hbefore ⊢
    omega
  enqueued := h.enqueued
  dequeued := by
    have hset := countP_set_add (p := Worker.uncounted) (b := w') hw
    have hbefore := h.dequeued
    simp only
    omega
  workers v hv := by
    rcases List.mem_or_eq_of_mem_set hv with hold | rfl
    · exact h.workers v hold
    · exact hok
  notices id' p hmem := by
    simp only at hmem ⊢
    obtain hold | ⟨f, hf⟩ | ⟨p', hp', hphase⟩ := hchannel _ hmem
    · obtain ⟨v, hv, hphase⟩ := h.notices id' p hold
      -- a worker that is gone takes no step
      have hne : id ≠ id' := by
        rintro rfl
        rw [hw] at hv
        exact hgone p (Option.some.inj hv ▸ hphase)
      exact ⟨v, by rw [List.getElem?_set_ne hne, hv], hphase⟩
    · exact nomatch hf
    · obtain ⟨rfl, rfl⟩ := Msg.workerExited.inj hp'
      obtain ⟨hlt, -⟩ := List.getElem?_eq_some_iff.mp hw
      exact ⟨w', List.getElem?_set_self hlt, hphase⟩
  walker hdone := h.walker (hdone.imp_right fun ⟨p, hp⟩ => ⟨p, by
    obtain hold | ⟨f, hf⟩ | ⟨p', hp', -⟩ := hchannel _ hp
    · exact hold
    · exact nomatch hf
    · exact nomatch hp'⟩)
  left hleft := by
    obtain ⟨hdone, hnone, -⟩ := h.left hleft
    refine ⟨hdone, ?_, hdropped hleft⟩
    simp only [State.noneLive, List.all_eq_true] at hnone ⊢
    intro v hv
    rcases List.mem_or_eq_of_mem_set hv with hold | rfl
    · exact hnone v hold
    · rw [hlive]
      exact hnone w (List.mem_of_getElem? hw)
  stopped := h.stopped
  stalled id' f last hst := by
    obtain ⟨v, hv, hvlive⟩ := h.stalled id' f last hst
    by_cases hid : id = id'
    · subst hid
      obtain ⟨hlt, -⟩ := List.getElem?_eq_some_iff.mp hw
      refine ⟨w', List.getElem?_set_self hlt, ?_⟩
      rw [hlive, ← hvlive, Option.some.inj (hw.symm.trans hv)]
    · exact ⟨v, by rw [List.getElem?_set_ne hid, hv], hvlive⟩
  complete := h.complete

/-- A step of a worker that shows only in its own phase and slot. -/
theorem Accounts.quiet (h : Accounts s) (hw : s.workers[id]? = some w) (habandoned : w'.abandoned = w.abandoned)
    (hlive : w'.live = w.live) (hok : w'.Ok s.stop s.panicked) (hgone : ∀ p, w.phase ≠ .gone p)
    (howes : s.stop = false → ∀ f, w'.owes f = w.owes f) (huncounted : w'.uncounted = w.uncounted) :
    Accounts { s with workers := s.workers.set id w' } :=
  h.worker hw habandoned hlive hok hgone (fun hstop f => by rw [howes hstop f]) (by rw [huncounted])
    (fun _ hm => .inl hm) fun hdropped => (h.left hdropped).2.2

/-- Before it has a file in its slot, and once it looked at its flag, a worker is not given up. -/
theorem Worker.Ok.free {stop panicked : Bool} (h : w.Ok stop panicked) (huntested : w.untested = false) :
    w.abandoned = false ∧ w.live = true := by
  have habandoned : w.abandoned = false := by
    by_contra hne
    have := (h.flagged (eq_true_of_ne_false hne)).2
    rw [huntested] at this
    exact nomatch this
  refine ⟨habandoned, ?_⟩
  by_contra hne
  obtain hflag | ⟨p, hp, -⟩ := h.ended (eq_false_of_ne_true hne)
  · rw [habandoned] at hflag
    exact nomatch hflag
  · rw [Worker.untested, hp] at huntested
    exact nomatch huntested

theorem Worker.Ok.of_free {stop panicked : Bool} (h : w.abandoned = false ∧ w.live = true) (hslot : w.SlotOk)
    (hsends : stop = false → w.silent = false) : w.Ok stop panicked where
  flagged ha := nomatch h.1.symm.trans ha
  ended hl := nomatch h.2.symm.trans hl
  slot := hslot
  sends := hsends

/-- The flags of a worker that goes on without looking at them. -/
theorem Worker.Ok.of_untested {stop panicked : Bool} (h : w.Ok stop panicked) (hgone : ∀ p, w.phase ≠ .gone p)
    (habandoned : w'.abandoned = w.abandoned) (hlive : w'.live = w.live) (huntested : w'.untested = true)
    (hslot : w'.SlotOk) (hsends : stop = false → w'.silent = false) : w'.Ok stop panicked where
  flagged ha := ⟨hlive.trans (h.flagged (habandoned.symm.trans ha)).1, huntested⟩
  ended hl := .inl (habandoned.trans ((h.ended (hlive.symm.trans hl)).resolve_right
    fun ⟨p, hp, _⟩ => hgone p hp))
  slot := hslot
  sends := hsends

theorem Accounts.work {sends : Bool} (h : Accounts s) (hw : s.workers[id]? = some w)
    (hstep : work s id w sends = some s') : Accounts s' := by
  have hok := h.workers w (List.mem_of_getElem? hw)
  have hclosed : s.receiverDropped = true → s.channel = [] := fun hdropped => (h.left hdropped).2.2
  obtain ⟨phase, current, abandoned, live⟩ := w
  cases phase with
  | starting =>
    cases hstep
    exact h.quiet hw rfl rfl (.of_free (hok.free rfl) hok.slot fun _ => rfl) nofun (fun _ _ => rfl) rfl
  | waiting =>
    simp only [ScanThreads.work] at hstep
    split at hstep
    · rename_i f rest hqueue
      cases hstep
      obtain ⟨habandoned, hlive⟩ := hok.free rfl
      simp only at habandoned hlive
      subst habandoned hlive
      refine h.worker hw rfl rfl (.of_free ⟨rfl, rfl⟩ hok.slot fun _ => rfl) nofun (fun _ g => ?_) ?_
        (fun _ hm => .inl hm) hclosed
      · -- the head of the queue is now with the worker
        rw [hqueue, List.count_cons]
        simp only [Worker.owes, Worker.file, Bool.not_false, Bool.true_and]
        by_cases hg : f = g
        · subst hg
          simp
        · simp [hg]
      · rw [hqueue, List.length_cons]
        simp only [Worker.uncounted, Bool.toNat_true, Bool.toNat_false]
        omega
    · split_ifs at hstep
      cases hstep
      refine h.quiet hw rfl rfl (.of_free (hok.free rfl) (.inl hok.slot) fun _ => rfl) nofun (fun _ f => ?_) rfl
      have hslot : current = none := hok.slot
      rw [hslot]
      rfl
  | taken f =>
    cases hstep
    refine h.worker hw rfl rfl (.of_free (hok.free rfl) hok.slot fun _ => rfl) nofun (fun _ g => rfl) ?_
      (fun _ hm => .inl hm) hclosed
    simp only [Worker.uncounted, Bool.toNat_true, Bool.toNat_false]
  | counted f =>
    cases hstep
    cases hstop : s.stop with
    | true =>
      exact h.quiet hw rfl rfl (.of_free (hok.free rfl) hok.slot fun _ => rfl) nofun
        (fun hgoes => nomatch hstop.symm.trans hgoes) rfl
    | false =>
      exact h.quiet hw rfl rfl (.of_free (hok.free rfl) hok.slot fun _ => rfl) nofun (fun _ _ => rfl) rfl
  | unstopped f =>
    cases hstep
    exact h.quiet hw rfl rfl (.of_free (hok.free rfl) rfl fun _ => rfl) nofun (fun _ _ => rfl) rfl
  | processing f =>
    simp only [ScanThreads.work, Option.ite_none_right_eq_some] at hstep
    obtain ⟨hends, hs'⟩ := hstep
    cases hs'
    refine h.quiet hw rfl rfl (hok.of_untested nofun rfl rfl rfl rfl fun hgoes => ?_) nofun (fun _ _ => rfl) rfl
    -- only a stop leaves the file without a message
    rw [hgoes, Bool.or_false] at hends
    rw [hends]
    rfl
  | cleared f sends' =>
    cases hstep
    cases habandoned : abandoned with
    | true =>
      subst habandoned
      exact h.quiet hw rfl rfl (hok.of_untested nofun rfl rfl rfl (.inl hok.slot) fun _ => rfl) nofun
        (fun _ _ => rfl) rfl
    | false =>
      subst habandoned
      have hlive : live = true := by
        by_contra hne
        obtain hflag | ⟨p, hp, -⟩ := hok.ended (eq_false_of_ne_true hne)
        · exact nomatch hflag
        · exact nomatch hp
      refine h.quiet hw rfl rfl (.of_free ⟨rfl, hlive⟩ hok.slot fun hgoes => ?_) nofun (fun _ _ => rfl) rfl
      have hsends := hok.sends hgoes
      cases sends' with
      | true => rfl
      | false => exact hsends
  | tested f sends' =>
    obtain ⟨habandoned, hlive⟩ := hok.free rfl
    simp only at habandoned hlive
    subst habandoned hlive
    have hslot : current = none := hok.slot
    subst hslot
    simp only [ScanThreads.work] at hstep
    split_ifs at hstep with hsends hdropped
    · cases hstep
      refine h.quiet hw rfl rfl (.of_free ⟨rfl, rfl⟩ rfl fun _ => rfl) nofun (fun hgoes => ?_) rfl
      have hsilent := hok.sends hgoes
      rw [Bool.not_eq_true'] at hsends
      subst hsends
      exact nomatch hsilent
    · -- the coordinator leaves when no worker is live
      obtain ⟨-, hnone, -⟩ := h.left hdropped
      have := List.all_eq_true.mp hnone _ (List.mem_of_getElem? hw)
      exact nomatch this
    · have hopen : (s.put id ⟨.waiting, none, false, true⟩).receiverDropped = false := eq_false_of_ne_true hdropped
      rw [State.notify, hopen] at hstep
      simp only [Bool.false_eq_true, ↓reduceIte, Option.ite_none_right_eq_some] at hstep
      obtain ⟨-, hs'⟩ := hstep
      cases hs'
      refine h.worker hw rfl rfl (.of_free ⟨rfl, rfl⟩ rfl fun _ => rfl) nofun (fun _ g => ?_) rfl (fun m hm => ?_)
        fun hleft => absurd hleft hdropped
      · rw [State.put, List.count_append, List.count_singleton]
        simp only [Worker.owes, Worker.file, Bool.not_false, Bool.true_and]
        by_cases hg : f = g
        · subst hg
          simp
          omega
        · simp [hg]
      · rcases List.mem_append.mp hm with hold | hnew
        · exact .inl hold
        · exact .inr (.inl ⟨f, List.mem_singleton.mp hnew⟩)
  | leaving panicked =>
    have hok' : Worker.Ok s.stop s.panicked ⟨.gone panicked, current, abandoned, live⟩ :=
      hok.of_untested nofun rfl rfl rfl hok.slot fun _ => rfl
    simp only [ScanThreads.work, State.notify] at hstep
    split_ifs at hstep with hdropped hroom
    · cases hstep
      exact h.quiet hw rfl rfl hok' nofun (fun _ _ => rfl) rfl
    · cases hstep
      refine h.worker hw rfl rfl hok' nofun (fun _ g => ?_) rfl (fun m hm => ?_) fun hleft => absurd hleft hdropped
      · rw [State.put, List.count_append, List.count_singleton]
        rfl
      · rcases List.mem_append.mp hm with hold | hnew
        · exact .inl hold
        · exact .inr (.inr ⟨panicked, List.mem_singleton.mp hnew, rfl⟩)
  | gone p => exact nomatch hstep

theorem Accounts.panics (h : Accounts s) (hw : s.workers[id]? = some w)
    (hphase : w.phase = .starting ∨ ∃ f, w.phase = .processing f) :
    Accounts (s.put id { w with phase := .leaving true }) := by
  have hok := h.workers w (List.mem_of_getElem? hw)
  obtain ⟨phase, current, abandoned, live⟩ := w
  obtain hp | ⟨f, hp⟩ := hphase
  · simp only at hp
    subst hp
    have hslot : current = none := hok.slot
    subst hslot
    exact h.quiet hw rfl rfl (.of_free (hok.free rfl) (.inl rfl) fun _ => rfl) nofun (fun _ _ => rfl) rfl
  · simp only at hp
    subst hp
    have hslot : current = some f := hok.slot
    subst hslot
    -- the slot is left as it was
    exact h.quiet hw rfl rfl (hok.of_untested nofun rfl rfl rfl (.inr rfl) fun _ => rfl) nofun (fun _ _ => rfl) rfl

/-! ### The walker -/

theorem Accounts.enqueues (h : Accounts s) (hwalking : s.walker = .walking) :
    Accounts { s with queue := s.queue ++ [s.queued], queued := s.queued + 1, walker := .counting } := by
  have hundone : ¬(s.walkerDone = true ∨ ∃ p, .walkerExited p ∈ s.channel) := by
    intro hdone
    have := h.walker hdone
    rw [hwalking] at this
    simp at this
  have hopen : ¬s.receiverDropped = true := fun hdropped => hundone (.inl (h.left hdropped).1)
  refine { h with balanced := fun hstop f => ?_, enqueued := ?_, dequeued := ?_, walker := ?_, complete := ?_ }
  · have hbefore := h.balanced hstop f
    simp only [State.account, List.count_append, List.count_singleton, beq_iff_eq] at hbefore ⊢
    split_ifs at hbefore ⊢ <;> omega
  · have hbefore := h.enqueued
    rw [hwalking] at hbefore
    simp only [reduceCtorEq, ↓reduceIte] at hbefore ⊢
    omega
  · have hbefore := h.dequeued
    simp only [List.length_append, List.length_singleton]
    omega
  · exact fun hdone => absurd hdone hundone
  · intro r hr
    rw [State.receiverDropped, hr] at hopen
    exact absurd rfl hopen

/-- A step of the walker, with the messages it sends. -/
theorem Accounts.walks {v : Walker} {e : ℕ} {l : List Msg} (h : Accounts s)
    (hcount : e + (if v = .counting then 1 else 0) = s.queued)
    (hms : ∀ m ∈ l, m = .walked ∨ ∃ p, m = .walkerExited p ∧ v = .exited)
    (hended : s.walker = .exited ∨ s.walker = .closed → v = .exited ∨ v = .closed)
    (hdropped : s.receiverDropped = true → l = []) :
    Accounts { s with walker := v, enqueued := e, channel := s.channel ++ l } where
  balanced hstop f := by
    -- the walker sends no message about a file
    have hnone : l.count (.file f) = 0 := by
      rw [List.count_eq_zero]
      intro hmem
      obtain hm | ⟨p, hm, -⟩ := hms _ hmem <;> exact nomatch hm
    have hbefore := h.balanced hstop f
    simp only [State.account, List.count_append] at hbefore ⊢
    omega
  enqueued := hcount
  dequeued := h.dequeued
  workers := h.workers
  notices id p hmem := by
    rcases List.mem_append.mp hmem with hold | hnew
    · exact h.notices id p hold
    · obtain hm | ⟨q, hm, -⟩ := hms _ hnew <;> exact nomatch hm
  walker hdone := by
    obtain hdone | ⟨p, hp⟩ := hdone
    · exact hended (h.walker (.inl hdone))
    · rcases List.mem_append.mp hp with hold | hnew
      · exact hended (h.walker (.inr ⟨p, hold⟩))
      · obtain hm | ⟨-, -, hv⟩ := hms _ hnew
        · exact nomatch hm
        · exact .inl hv
  left hleft := by
    obtain ⟨hdone, hnone, hchannel⟩ := h.left hleft
    exact ⟨hdone, hnone, by rw [hchannel, hdropped hleft]; rfl⟩
  stopped := h.stopped
  stalled := h.stalled
  complete := h.complete

/-- The messages that `notify` adds. -/
theorem notify_eq {m : Msg} (h : s.notify m = some s') :
    ∃ ms, s' = { s with channel := s.channel ++ ms } ∧ (∀ m' ∈ ms, m' = m) ∧ (s.receiverDropped = true → ms = []) := by
  rw [State.notify] at h
  split_ifs at h with hdropped hroom
  · cases h
    exact ⟨[], by rw [List.append_nil], nofun, fun _ => rfl⟩
  · cases h
    exact ⟨[m], rfl, fun _ hm => List.mem_singleton.mp hm, fun hleft => absurd hleft hdropped⟩

theorem Accounts.walkerGoesOn (h : Accounts s) (hstep : walkerGoesOn s = some s') : Accounts s' := by
  have hcount := h.enqueued
  rw [ScanThreads.walkerGoesOn] at hstep
  split at hstep
  · rename_i hwalker
    cases hstep
    rw [hwalker] at hcount
    have := h.walks (v := .walking) (e := s.enqueued + 1) (l := []) hcount nofun
      (fun hended => by rw [hwalker] at hended; simp at hended) fun _ => rfl
    rwa [List.append_nil] at this
  · rename_i panicked hwalker
    obtain ⟨ms, rfl, hms, hdropped⟩ := notify_eq hstep
    rw [hwalker] at hcount
    exact h.walks hcount (fun m hm => .inr ⟨panicked, hms m hm, rfl⟩) (fun _ => .inl rfl) hdropped
  · rename_i hwalker
    cases hstep
    rw [hwalker] at hcount
    have := h.walks (v := .closed) (l := []) hcount nofun (fun _ => .inr rfl) fun _ => rfl
    rwa [List.append_nil] at this
  · exact nomatch hstep

/-! ### The coordinator -/

/-- The coordinator goes on to another place of its loop. -/
theorem Accounts.stage {c : Coordinator} (h : Accounts s) (hopen : s.receiverDropped = false)
    (hc : c = .receiving ∨ c = .checking ∨ ∃ id last, c = .watching id last) :
    Accounts { s with coordinator := c } := by
  have hplain : ({ s with coordinator := c }).receiverDropped = false ∧ (∀ id f last, c ≠ .stalled id f last) ∧
      ∀ o, c ≠ .returned o := by
    obtain rfl | rfl | ⟨id, last, rfl⟩ := hc
    · exact ⟨rfl, nofun, nofun⟩
    · exact ⟨rfl, nofun, nofun⟩
    · exact ⟨rfl, nofun, nofun⟩
  obtain ⟨hdropped, hstalled, hreturned⟩ := hplain
  refine { h with left := ?_, stopped := ?_, stalled := ?_, complete := ?_ }
  · exact fun hleft => nomatch hdropped.symm.trans hleft
  · refine fun _ => h.stopped fun o ho => ?_
    rw [State.receiverDropped, ho] at hopen
    exact nomatch hopen
  · exact fun id f last hst => absurd hst (hstalled id f last)
  · exact fun r hr => absurd hr (hreturned _)

/-- The scan is stopped, or not: nothing is promised of a scan that is. -/
theorem Accounts.halts (h : Accounts s) (hgoes : s.stop = false) (reason : Option StopReason) :
    Accounts { s with stopReason := reason, stop := reason.isSome } := by
  refine { h with balanced := fun _ => h.balanced hgoes, workers := fun w hw => ?_, stopped := fun _ => rfl }
  exact { h.workers w hw with sends := fun _ => (h.workers w hw).sends hgoes }

theorem Worker.Ok.mono {stop panicked panicked' : Bool} (h : w.Ok stop panicked)
    (hp : panicked = true → panicked' = true) : w.Ok stop panicked' :=
  { h with ended := fun hl => (h.ended hl).imp_right fun ⟨p, hphase, hpanic⟩ => ⟨p, hphase, fun ht => hp (hpanic ht)⟩ }

theorem Accounts.handles {m : Msg} {rest : List Msg} (h : Accounts s) (hreceiving : s.coordinator = .receiving)
    (hchannel : s.channel = m :: rest) : Accounts (handle { s with channel := rest } m) := by
  have hopen : s.receiverDropped = false := by rw [State.receiverDropped, hreceiving]
  have hold {m' : Msg} (hmem : m' ∈ rest) : m' ∈ s.channel := hchannel ▸ List.mem_cons_of_mem m hmem
  have hbalanced := h.balanced
  simp only [State.account, hchannel, List.count_cons] at hbalanced
  -- what leaves the channel with a message is what the handler adds
  cases m with
  | file f =>
    refine { h with balanced := ?_, notices := ?_, walker := ?_, left := ?_ , complete := ?_ }
    · intro hstop g
      have hbefore := hbalanced hstop g
      -- the file moves from the channel to the files that are handled
      show s.queue.count g + s.workers.countP (Worker.owes g) + rest.count (.file g) + (s.handled ++ [f]).count g +
        s.timedOut.count g = if g < s.queued then 1 else 0
      rw [← hbefore, List.count_append, List.count_singleton]
      have hsame : (Msg.file f == Msg.file g) = (f == g) := by
        rw [Bool.eq_iff_iff, beq_iff_eq, beq_iff_eq, Msg.file.injEq]
      rw [hsame]
      omega
    · exact fun id p hmem => h.notices id p (hold hmem)
    · exact fun hdone => h.walker (hdone.imp_right fun ⟨p, hp⟩ => ⟨p, hold hp⟩)
    · exact fun hleft => nomatch hopen.symm.trans hleft
    · intro r hr
      rw [State.receiverDropped, show s.coordinator = _ from hr] at hopen
      exact nomatch hopen
  | walked =>
    refine { h with balanced := ?_, notices := ?_, walker := ?_, left := ?_ }
    · intro hstop g
      have hbefore := hbalanced hstop g
      simp only [beq_iff_eq, reduceCtorEq, ↓reduceIte, Nat.add_zero] at hbefore
      exact hbefore
    · exact fun id p hmem => h.notices id p (hold hmem)
    · exact fun hdone => h.walker (hdone.imp_right fun ⟨p, hp⟩ => ⟨p, hold hp⟩)
    · exact fun hleft => nomatch hopen.symm.trans hleft
  | walkerExited panicked =>
    -- the notice is sent when the walker exits, so the walker is over
    have hended := h.walker (.inr ⟨panicked, hchannel ▸ List.mem_cons_self⟩)
    refine { h with balanced := ?_, workers := ?_, notices := ?_, walker := ?_, left := ?_ }
    · intro hstop g
      have hbefore := hbalanced hstop g
      simp only [beq_iff_eq, reduceCtorEq, ↓reduceIte, Nat.add_zero] at hbefore
      exact hbefore
    · exact fun w hw => (h.workers w hw).mono fun hp => by simp only [handle, hp, Bool.true_or]
    · exact fun id p hmem => h.notices id p (hold hmem)
    · exact fun _ => hended
    · exact fun hleft => nomatch hopen.symm.trans hleft
  | workerExited id panicked =>
    -- the notice of a worker is in the channel only when the worker is gone
    obtain ⟨w, hw, hphase⟩ := h.notices id panicked (hchannel ▸ List.mem_cons_self)
    have hok := h.workers w (List.mem_of_getElem? hw)
    have hset : s.workers.modify id ({ · with live := false }) = s.workers.set id { w with live := false } :=
      modify_eq_set hw
    obtain ⟨hlt, -⟩ := List.getElem?_eq_some_iff.mp hw
    refine { h with
      balanced := ?_, dequeued := ?_, workers := ?_, notices := ?_, walker := ?_, left := ?_, stalled := ?_ }
    · intro hstop g
      have hcount := countP_set_add (p := Worker.owes g) (b := { w with live := false }) hw
      have hsame : Worker.owes g { w with live := false } = Worker.owes g w := rfl
      have hbefore := hbalanced hstop g
      simp only [handle, State.account, hset] at hbefore ⊢
      rw [hsame] at hcount
      simp only [beq_iff_eq, reduceCtorEq, ↓reduceIte] at hbefore
      omega
    · have hcount := countP_set_add (p := Worker.uncounted) (b := { w with live := false }) hw
      have hsame : Worker.uncounted { w with live := false } = Worker.uncounted w := rfl
      have hbefore := h.dequeued
      simp only [handle, hset]
      rw [hsame] at hcount
      omega
    · intro v hv
      simp only [handle, hset] at hv ⊢
      rcases List.mem_or_eq_of_mem_set hv with hv | rfl
      · exact (h.workers v hv).mono fun hp => by rw [hp, Bool.true_or]
      · have hpanic : s.panicked = true → (s.panicked || panicked) = true := fun hp => by rw [hp, Bool.true_or]
        refine { hok.mono hpanic with
          flagged := fun ha => ⟨rfl, (hok.flagged ha).2⟩
          ended := fun _ => .inr ⟨panicked, hphase, fun hp => by rw [hp, Bool.or_true]⟩ }
    · intro id' p hmem
      obtain ⟨v, hv, hvphase⟩ := h.notices id' p (hold hmem)
      simp only [handle, hset]
      by_cases hid : id = id'
      · subst hid
        refine ⟨_, List.getElem?_set_self hlt, ?_⟩
        rw [← hvphase, Option.some.inj (hw.symm.trans hv)]
      · exact ⟨v, by rw [List.getElem?_set_ne hid, hv], hvphase⟩
    · exact fun hdone => h.walker (hdone.imp_right fun ⟨p, hp⟩ => ⟨p, hold hp⟩)
    · exact fun hleft => nomatch hopen.symm.trans hleft
    · exact fun id' f last hst => nomatch hreceiving.symm.trans hst

/-- The flagged worker's file is reported, and by nobody else. -/
theorem Accounts.abandons {spawned : Bool} {last : ℕ} (h : Accounts s) (hst : s.coordinator = .stalled id f last)
    (hholds : ∀ w, s.workers[id]? = some w → w.untested = true ∧ w.file = some f) :
    Accounts { abandon n s id f spawned with coordinator := .watching (id + 1) last } := by
  obtain ⟨w, hw, hlive⟩ := h.stalled id f last hst
  obtain ⟨huntested, hfile⟩ := hholds w hw
  have hok := h.workers w (List.mem_of_getElem? hw)
  have habandoned : w.abandoned = false := by
    by_contra hne
    have := (hok.flagged (eq_true_of_ne_false hne)).1
    exact nomatch hlive.symm.trans this
  let w' : Worker := { w with abandoned := true, live := false }
  have hset : s.workers.modify id ({ · with abandoned := true, live := false }) = s.workers.set id w' :=
    modify_eq_set hw
  obtain ⟨hlt, -⟩ := List.getElem?_eq_some_iff.mp hw
  have hopen : s.receiverDropped = false := by rw [State.receiverDropped, hst]
  -- the workers, with another one or not
  obtain ⟨new, hnew, hworkers⟩ : ∃ new : List Worker, (∀ v ∈ new, v = .spawned) ∧
      (abandon n s id f spawned).workers = s.workers.set id w' ++ new := by
    rw [abandon, hset]
    dsimp only
    split_ifs
    · exact ⟨[.spawned], fun v hv => List.mem_singleton.mp hv, rfl⟩
    · exact ⟨[], nofun, (List.append_nil _).symm⟩
  have hnewCount (p : Worker → Bool) (hp : p .spawned = false) : new.countP p = 0 := by
    rw [List.countP_eq_zero]
    intro v hv
    rw [hnew v hv, hp]
    exact Bool.false_ne_true
  refine { h with
    balanced := ?_, dequeued := ?_, workers := ?_, notices := ?_, left := nofun, stopped := ?_, stalled := nofun
    complete := nofun }
  -- the file moves from what the worker owes to what timed out
  · intro hstop g
    have hbefore := h.balanced hstop g
    have hcount := countP_set_add (p := Worker.owes g) (b := w') hw
    have howed : Worker.owes g w = (f == g) := by
      rw [Worker.owes, habandoned, hfile]
      rfl
    have hflagged : Worker.owes g w' = false := rfl
    have hreported : (s.timedOut ++ [f]).count g = s.timedOut.count g + (f == g).toNat := by
      rw [List.count_append, List.count_singleton]
      cases f == g <;> rfl
    rw [howed, hflagged, Bool.toNat_false] at hcount
    show s.queue.count g + (abandon n s id f spawned).workers.countP (Worker.owes g) + s.channel.count (.file g) +
      s.handled.count g + (s.timedOut ++ [f]).count g = if g < s.queued then 1 else 0
    rw [← hbefore, hworkers, List.countP_append, hnewCount (Worker.owes g) rfl, hreported, State.account]
    omega
  · have hbefore := h.dequeued
    have hcount := countP_set_add (p := Worker.uncounted) (b := w') hw
    have hsame : Worker.uncounted w' = Worker.uncounted w := rfl
    rw [hsame] at hcount
    simp only [hworkers, List.countP_append, hnewCount Worker.uncounted rfl]
    simp only [abandon]
    omega
  · intro v hv
    rw [show ({ abandon n s id f spawned with coordinator := .watching (id + 1) last } : State).workers = _ from
      hworkers, List.mem_append] at hv
    obtain hv | hv := hv
    · rcases List.mem_or_eq_of_mem_set hv with hv | rfl
      · exact h.workers v hv
      · exact { hok with flagged := fun _ => ⟨rfl, huntested⟩, ended := fun _ => .inl rfl }
    · rw [hnew v hv]
      exact .of_free ⟨rfl, rfl⟩ rfl fun _ => rfl
  · intro id' p hmem
    obtain ⟨v, hv, hvphase⟩ := h.notices id' p hmem
    simp only [hworkers]
    by_cases hid : id = id'
    · subst hid
      refine ⟨w', ?_, ?_⟩
      · rw [List.getElem?_append_left (by rw [List.length_set]; exact hlt), List.getElem?_set_self hlt]
      · rw [← hvphase, Option.some.inj (hv.symm.trans hw)]
    · obtain ⟨hlt', -⟩ := List.getElem?_eq_some_iff.mp hv
      exact ⟨v, by
        rw [List.getElem?_append_left (by rw [List.length_set]; exact hlt'), List.getElem?_set_ne hid, hv], hvphase⟩
  · exact fun _ => h.stopped (by rw [hst]; exact nofun)

/-- The coordinator leaves, and no file's message is lost. -/
theorem Accounts.leaves (h : Accounts s) (hreceiving : s.coordinator = .receiving) (hdone : s.walkerDone = true)
    (hnone : s.noneLive = true) (hempty : ∀ f, .file f ∉ s.channel) :
    Accounts { s with coordinator := .left, channel := [] } := by
  refine { h with
    balanced := ?_, notices := nofun, walker := fun _ => h.walker (.inl hdone), left := fun _ => ⟨hdone, hnone, rfl⟩
    stopped := fun _ => h.stopped (by rw [hreceiving]; exact nofun), stalled := nofun, complete := nofun }
  intro hstop f
  have hbefore := h.balanced hstop f
  rw [State.account, List.count_eq_zero.mpr (hempty f)] at hbefore
  exact hbefore

theorem statusOf_completed {stopReason : Option StopReason} (h : statusOf stopReason = .completed) :
    stopReason = none := by
  cases stopReason with
  | none => rfl
  | some reason => cases reason <;> exact nomatch h

/-- No worker has a file when all are abandoned or gone, and none panicked. -/
theorem Accounts.none_owed (h : Accounts s) (hnone : s.noneLive = true) (hpanicked : s.panicked = false) :
    s.workers.countP (Worker.owes f) = 0 := by
  rw [List.countP_eq_zero]
  intro w hw
  have hok := h.workers w hw
  have hlive : w.live = false := by simpa using List.all_eq_true.mp hnone w hw
  -- a worker that is not live is abandoned, or it exited without a panic
  obtain habandoned | ⟨p, hphase, hp⟩ := hok.ended hlive
  · rw [Worker.owes, habandoned]
    exact Bool.false_ne_true
  · have hslot := hok.slot
    rw [Worker.SlotOk, hphase] at hslot
    obtain hslot | hpanic := hslot
    · rw [Worker.owes, Worker.file, hphase]
      simp [hslot]
    · exact nomatch hpanicked.symm.trans (hp hpanic)

theorem Accounts.concludes (h : Accounts s) (hleft : s.coordinator = .left) :
    Accounts { s with coordinator := .returned (outcome s), stop := true } := by
  have hdropped : s.receiverDropped = true := by rw [State.receiverDropped, hleft]
  obtain ⟨hdone, hnone, hchannel⟩ := h.left hdropped
  -- all threads are told to stop on return, and only scans that go on are balanced
  refine { h with
    balanced := nofun, workers := fun w hw => ?_, left := fun _ => ⟨hdone, hnone, hchannel⟩, stopped := ?_
    stalled := nofun, complete := ?_ }
  · exact { h.workers w hw with sends := nofun }
  · exact fun hreturned => absurd rfl (hreturned (outcome s))
  · intro r hr f hf
    have houtcome : outcome s = .report .completed r := Coordinator.returned.inj hr
    simp only [outcome] at houtcome
    split_ifs at houtcome with hpanicked hunscanned
    · exact nomatch (Outcome.report.inj houtcome).1
    have hreason := statusOf_completed (Outcome.report.inj houtcome).1
    have hscanned : ¬(s.enqueued - s.dequeued > 0) := fun hpos => hunscanned ⟨hpos, hreason⟩
    have hgoes : s.stop = false := by
      rw [h.stopped (by rw [hleft]; exact nofun), hreason]
      rfl
    -- all that was queued was counted, and taken
    have hcounting : ¬s.walker = .counting := by
      obtain hw | hw := h.walker (.inl hdone) <;> rw [hw] <;> exact nofun
    have henqueued := h.enqueued
    rw [if_neg hcounting] at henqueued
    have hdequeued := h.dequeued
    have hqueue : s.queue = [] := List.eq_nil_of_length_eq_zero (by omega)
    have hbalanced := h.balanced hgoes f
    rw [State.account, hqueue, hchannel, h.none_owed hnone (eq_false_of_ne_true hpanicked), if_pos hf] at hbalanced
    simp only [List.count_nil] at hbalanced
    simp only
    omega

/-! ### Every run -/

theorem Accounts.step {e : Event} (h : Accounts s) (hundisturbed : undisturbed s e = true)
    (hstep : step n s e = some s') : Accounts s' := by
  -- one case for each thread's step: all but the receiving side are the lemmas above
  cases e with
  | enqueue =>
    simp only [ScanThreads.step, Option.ite_none_right_eq_some] at hstep
    obtain ⟨⟨hwalking, -⟩, hs'⟩ := hstep
    cases hs'
    exact h.enqueues hwalking
  | walked =>
    simp only [ScanThreads.step] at hstep
    split_ifs at hstep with hwalking hdropped
    -- the receiver is dropped after the walker is done, and this walker is not
    · obtain hw | hw := h.walker (.inl (h.left hdropped).1) <;> simp [hw] at hwalking
    · obtain ⟨l, rfl, hl, hdropped⟩ := notify_eq hstep
      have hwalking : s.walker = .walking := Classical.not_not.mp hwalking
      have := h.walks h.enqueued (fun m hm => .inl (hl m hm)) id hdropped
      exact this
  | walkerReturns panicked =>
    simp only [ScanThreads.step, Option.ite_none_right_eq_some] at hstep
    obtain ⟨hwalking, hs'⟩ := hstep
    cases hs'
    have hcount := h.enqueued
    rw [hwalking] at hcount
    have := h.walks (v := .leaving panicked) (l := []) hcount nofun (fun hended => by simp [hwalking] at hended)
      fun _ => rfl
    rwa [List.append_nil] at this
  | walkerGoesOn => exact h.walkerGoesOn hstep
  | work id sends =>
    obtain ⟨w, hw, hstep⟩ := Option.bind_eq_some_iff.mp hstep
    exact h.work hw hstep
  | panics id =>
    obtain ⟨w, hw, hstep⟩ := Option.bind_eq_some_iff.mp hstep
    split at hstep
    · rename_i hphase
      cases hstep
      exact h.panics hw (.inl hphase)
    · rename_i f hphase
      cases hstep
      exact h.panics hw (.inr ⟨f, hphase⟩)
    · exact nomatch hstep
  | receive =>
    simp only [ScanThreads.step] at hstep
    split_ifs at hstep with hready
    simp only [not_or, Classical.not_not] at hready
    split at hstep
    · exact nomatch hstep
    · rename_i m rest hchannel
      cases hstep
      -- the message is handled, and then the coordinator goes on to its checks
      have hhandled := h.handles hready.1 hchannel
      refine hhandled.stage ?_ (.inr (.inl rfl))
      rw [State.receiverDropped]
      cases m <;> simp only [handle, hready.1]
  | tick =>
    simp only [ScanThreads.step] at hstep
    split_ifs at hstep with hready
    simp only [not_or, Classical.not_not] at hready
    cases hstep
    exact h.stage (by rw [State.receiverDropped, hready.1]) (.inr (.inl rfl))
  | check reason =>
    simp only [ScanThreads.step] at hstep
    split_ifs at hstep with hready hreason
    · simp only [not_or, Classical.not_not] at hready
      cases hstep
      -- without a reason nothing was told to stop
      have hgoes : s.stop = false := by
        rw [h.stopped (by rw [hready.1]; exact nofun), hreason]
        rfl
      exact (h.halts hgoes reason).stage (by rw [State.receiverDropped, hready.1])
        (.inr (.inr ⟨0, s.workers.length, rfl⟩))
    · simp only [not_or, Classical.not_not] at hready
      cases hstep
      exact h.stage (by rw [State.receiverDropped, hready.1]) (.inr (.inr ⟨0, s.workers.length, rfl⟩))
  | look stalled =>
    simp only [ScanThreads.step] at hstep
    split at hstep
    · rename_i id last hwatching
      have hopen : s.receiverDropped = false := by rw [State.receiverDropped, hwatching]
      split_ifs at hstep
      obtain ⟨w, hw, hstep⟩ := Option.bind_eq_some_iff.mp hstep
      split at hstep
      · rename_i f hcurrent hstalled
        cases hstep
        rw [Bool.and_eq_true] at hstalled
        refine { h with left := nofun, stopped := ?_, stalled := ?_, complete := nofun }
        · exact fun _ => h.stopped (by rw [hwatching]; exact nofun)
        · intro id' f' last' hst
          cases hst
          -- the worker that is to be abandoned is live
          exact ⟨w, hw, hstalled.1⟩
      · cases hstep
        exact h.stage hopen (.inr (.inr ⟨id + 1, last, rfl⟩))
    · exact nomatch hstep
  | abandon spawned =>
    simp only [ScanThreads.step] at hstep
    split at hstep
    · rename_i id f last hst
      cases hstep
      refine h.abandons hst fun w hw => ?_
      -- here the run has to be undisturbed: the flagged worker is still at the file
      simpa [undisturbed, hst, hw] using hundisturbed
    · exact nomatch hstep
  | endRound =>
    simp only [ScanThreads.step] at hstep
    split at hstep
    · rename_i id last hwatching
      have hopen : s.receiverDropped = false := by rw [State.receiverDropped, hwatching]
      split_ifs at hstep with hmore hstuck
      · cases hstep
        have hgoes : s.stop = false := by
          rw [h.stopped (by rw [hwatching]; exact nofun), hstuck.1]
          rfl
        exact (h.halts hgoes (some .tooManyStalls)).stage hopen (.inl rfl)
      · cases hstep
        exact h.stage hopen (.inl rfl)
    · exact nomatch hstep
  | leave =>
    simp only [ScanThreads.step, Option.ite_none_right_eq_some] at hstep
    obtain ⟨⟨hreceiving, hdone, hnone⟩, hs'⟩ := hstep
    cases hs'
    refine h.leaves hreceiving hdone hnone fun f hf => ?_
    -- and here: no message of a file is in the channel that is dropped
    exact nomatch List.all_eq_true.mp hundisturbed _ hf
  | conclude =>
    simp only [ScanThreads.step, Option.ite_none_right_eq_some] at hstep
    obtain ⟨hleft, hs'⟩ := hstep
    cases hs'
    exact h.concludes hleft

theorem accounts_start (n : ℕ) (cancelled : Bool) : Accounts (start n cancelled) := by
  have hcount (p : Worker → Bool) (hp : p .spawned = false) : (List.replicate n Worker.spawned).countP p = 0 := by
    rw [List.countP_replicate, hp]
    rfl
  refine {
    balanced := fun _ f => ?_, enqueued := rfl, dequeued := ?_, workers := fun w hw => ?_, notices := nofun
    walker := ?_, left := nofun, stopped := fun _ => ?_, stalled := nofun, complete := nofun }
  · simp [State.account, start, hcount (Worker.owes f) rfl]
  · simp [start, hcount Worker.uncounted rfl]
  · rw [List.eq_of_mem_replicate hw]
    exact .of_free ⟨rfl, rfl⟩ rfl fun _ => rfl
  · simp [start]
  · cases cancelled <;> rfl

theorem accounts_run {cancelled : Bool} {es : List Event}
    (h : runFrom (undisturbedStep n) (start n cancelled) es = some s) : Accounts s := by
  refine runFrom_invariant (fun _ s => Accounts s) (accounts_start n cancelled) ?_ h
  intro _ s₁ e s₂ hs₁ hstep
  simp only [undisturbedStep, Option.ite_none_right_eq_some] at hstep
  exact hs₁.step hstep.1 hstep.2

/-- In every run in which workers are flagged in time and no message is left behind, a completed scan accounts for
every queued file once. -/
theorem queued_files_accounted_once {cancelled : Bool} {es : List Event} {stopReason : Option StopReason}
    (h : runFrom (undisturbedStep n) (start n cancelled) es = some s)
    (hcompleted : s.coordinator = .returned (.report .completed stopReason)) :
    ∀ f < s.queued, s.handled.count f + s.timedOut.count f = 1 :=
  (accounts_run h).complete stopReason hcompleted

/-- One worker that hangs on the first of two files is given up, and another one takes the second. -/
def replacedWorker : List Event :=
  ([.enqueue, .walkerGoesOn, .enqueue, .walkerGoesOn, .walkerReturns false, .walkerGoesOn, .walkerGoesOn] : List Event) ++
  List.replicate 5 (Event.work 0 true) ++
  ([.receive, .check none, .look true, .abandon true, .endRound] : List Event) ++
  List.replicate 10 (Event.work 1 true) ++
  ([.receive, .check none, .look false, .look false, .endRound, .receive, .check none, .look false, .look false,
    .endRound, .leave, .conclude] : List Event)

theorem queued_files_accounted_once_sample : ∃ s,
    runFrom (undisturbedStep 1) (start 1 false) replacedWorker = some s ∧
    s.queued = 2 ∧ ∀ f < s.queued, s.handled.count f + s.timedOut.count f = 1 := by
  obtain ⟨s, hs, hreturned, hqueued⟩ : ∃ s, runFrom (undisturbedStep 1) (start 1 false) replacedWorker = some s ∧
      s.coordinator = .returned (.report .completed none) ∧ s.queued = 2 := ⟨_, rfl, rfl, rfl⟩
  exact ⟨s, hs, hqueued, queued_files_accounted_once hs hreturned⟩

/-- The walker queues some files and is done. -/
def queues (files : ℕ) : List Event :=
  (List.replicate files [Event.enqueue, .walkerGoesOn]).flatten ++
  ([.walkerReturns false, .walkerGoesOn, .walkerGoesOn] : List Event)

/-- The slot is read while the worker has the first file; it sends its message and takes the second file before it is
flagged. -/
def flaggedLate : List Event :=
  queues 2 ++ List.replicate 5 (Event.work 0 true) ++ ([.receive, .check none, .look true] : List Event) ++
  List.replicate 4 (Event.work 0 true) ++ ([.abandon true, .endRound] : List Event) ++
  List.replicate 6 (Event.work 0 true) ++ List.replicate 3 (Event.work 1 true) ++
  (List.replicate 3 [Event.receive, .check none, .look false, .look false, .endRound]).flatten ++
  ([.leave, .conclude] : List Event)

/-- A worker sends the second file's message and hangs on the third; it is the second to hang, and nobody is live. -/
def leftUnread : List Event :=
  ([.walked] : List Event) ++ queues 3 ++ List.replicate 5 (Event.work 0 true) ++
  ([.receive, .check none, .look true, .abandon true, .endRound] : List Event) ++ List.replicate 12 (Event.work 1 true) ++
  ([.receive, .check none, .look false, .look true, .abandon true, .endRound, .leave, .conclude] : List Event)

/-- Late flags: the first file is reported twice, and the second not at all. Messages left behind: a file is lost. -/
theorem files_miscounted :
    (∃ s, runFrom (step 1) (start 1 false) flaggedLate = some s ∧
      s.coordinator = .returned (.report .completed none) ∧ s.queued = 2 ∧
      s.handled.count 0 + s.timedOut.count 0 = 2 ∧ s.handled.count 1 + s.timedOut.count 1 = 0) ∧
    ∃ s, runFrom (step 1) (start 1 false) leftUnread = some s ∧
      s.coordinator = .returned (.report .completed none) ∧ s.queued = 3 ∧
      s.handled.count 1 + s.timedOut.count 1 = 0 := by
  constructor
  · exact ⟨_, rfl, rfl, rfl, rfl, rfl⟩
  · exact ⟨_, rfl, rfl, rfl, rfl⟩

end AbyssalWarden.ScanThreads

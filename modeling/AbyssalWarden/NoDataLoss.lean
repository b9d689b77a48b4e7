import AbyssalWarden.RecoverSpec
import AbyssalWarden.StoreRun

/-! No data loss: over a whole run with stops anywhere, the ledger of deposits is kept. -/
namespace AbyssalWarden

variable {host : Host} {ids : List QuarantineId} {L : StoreLedger} {s : StoreState}

/-- What an event asks for. -/
def requestOf (host : Host) (s : StoreState) : StoreEvent → Option StoreRequest
  | .reopen _ _ => none
  | .call op _ =>
    match s.store with
    | none => none
    | some _ =>
      match op with
      | .quarantine req d => givenTo s.disk req d.id
      | .restore id destDir _ => restoreRequest host s.disk id destDir
      | .delete id _ => some (.delete id)

/-- What the events of a run ask for, one after the other. -/
def requests (host : Host) (mayFail : StoreCall → Bool) : StoreState → List StoreEvent → List StoreRequest
  | _, [] => []
  | s, ev :: evs =>
    (requestOf host s ev).toList ++ requests host mayFail (host.step mayFail s ev) evs

/-- The ledger is kept: an open store is at rest, and a closed one can be opened. -/
def Host.Held (host : Host) (ids : List QuarantineId) (L : StoreLedger) (s : StoreState) : Prop :=
  match s.store with
  | none => host.Recoverable ids L s.disk
  | some _ => host.AtRest ids L s.disk

theorem Host.Held.recoverable (h : host.Held ids L s) : host.Recoverable ids L s.disk := by
  unfold Host.Held at h
  split at h
  · exact h
  · exact h.recoverable

theorem Host.Recoverable.weaken {ids' : List QuarantineId} {w : Disk} (h : host.Recoverable ids L w) :
    host.Recoverable (ids' ++ ids) L w where
  kept := h.kept
  drawn id hid := List.mem_append_right _ (h.drawn id hid)
  removed := h.removed

theorem callOp_meets (store : QuarantineStore) {op : StoreOp} {faults : List (Fault Errno)} {w : Disk}
    (h : host.AtRest ids L w) (hfresh : ∀ id ∈ (StoreEvent.call op faults).drawn, id ∉ ids) :
    (host.callOp store op).Meets StoreCall.mayFail
      (fun w' => ∃ L', Moves (requestOf host ⟨w, some store⟩ (.call op faults)) L L' ∧
        host.Recoverable ((StoreEvent.call op faults).drawn ++ ids) L' w')
      (fun _ _ => False)
      (fun _ w' => ∃ L', Moves (requestOf host ⟨w, some store⟩ (.call op faults)) L L' ∧
        host.AtRest ((StoreEvent.call op faults).drawn ++ ids) L' w') w := by
  have hrecover {r : Option StoreRequest} (w' : Disk) (hw' : ∃ L', Moves r L L' ∧ host.AtRest ids L' w') :
      ∃ L', Moves r L L' ∧ host.Recoverable ids L' w' := by
    obtain ⟨L', hL', hw'⟩ := hw'
    exact ⟨L', hL', hw'.recoverable⟩
  cases op with
  | quarantine req d =>
    exact Prog.meets_bind.mpr ((quarantine_meets h (hfresh d.id List.mem_cons_self)).mono
      (fun _ h => h) (fun _ _ h => h) fun _ _ h => h)
  | restore id destDir d =>
    exact Prog.meets_bind.mpr ((audited_meets (restoreInner_meets h)).mono hrecover (fun _ _ h => h)
      fun _ _ h => h)
  | delete id d =>
    exact Prog.meets_bind.mpr ((audited_meets (deleteInner_meets h)).mono hrecover (fun _ _ h => h)
      fun _ _ h => h)

/-- One event keeps the ledger, changed as its request says. -/
theorem step_held {ev : StoreEvent} (h : host.Held ids L s) (hfresh : ∀ id ∈ ev.drawn, id ∉ ids) :
    ∃ L', Moves (requestOf host s ev) L L' ∧
      host.Held (ev.drawn ++ ids) L' (host.step StoreCall.mayFail s ev) := by
  cases ev with
  | reopen now faults =>
    have hmeets : (host.openStore now).Meets StoreCall.mayFail (host.Recoverable ids L)
        (fun _ => host.Recoverable ids L) (fun _ => host.AtRest ids L) s.disk := openStore_meets h.recoverable
    have hends := Prog.run_ends hmeets faults
    refine ⟨L, rfl, ?_⟩
    rw [Host.step]
    generalize (host.openStore now).run StoreCall.mayFail faults s.disk = ended at hends ⊢
    obtain ⟨outcome, w⟩ := ended
    cases outcome with
    | ok store => exact hends
    | error e => exact hends
    | stopped => exact hends
  | call op faults =>
    obtain ⟨w, store⟩ := s
    cases store with
    -- without an open store a call is not made
    | none => exact ⟨L, rfl, Host.Recoverable.weaken h⟩
    | some store =>
      have hends := Prog.run_ends (callOp_meets store h hfresh) faults
      rw [Host.step]
      dsimp only at hends ⊢
      generalize (host.callOp store op).run StoreCall.mayFail faults w = ended at hends ⊢
      obtain ⟨outcome, w'⟩ := ended
      cases outcome with
      | ok store => exact hends
      | error e => exact e.elim
      | stopped => exact hends

theorem custody_moves {rs : List StoreRequest} {r : Option StoreRequest} {L' : StoreLedger}
    (h : Custody rs L) (hmoves : Moves r L L') : Custody (rs ++ r.toList) L' := by
  cases r with
  | none =>
    cases hmoves
    rw [Option.toList_none, List.append_nil]
    exact h
  | some r => exact .serve h hmoves

/-- A run from any state keeps the ledger, changed as its requests say. -/
theorem run_held {evs : List StoreEvent} {rs : List StoreRequest} (hL : Custody rs L)
    (h : host.Held ids L s) (hnodup : (evs.flatMap StoreEvent.drawn).Nodup)
    (hfresh : ∀ id ∈ evs.flatMap StoreEvent.drawn, id ∉ ids) :
    ∃ ids' L', Custody (rs ++ requests host StoreCall.mayFail s evs) L' ∧
      host.Held ids' L' (host.runEvents StoreCall.mayFail s evs) := by
  induction evs generalizing s ids L rs with
  | nil =>
    refine ⟨ids, L, ?_, h⟩
    rw [requests, List.append_nil]
    exact hL
  | cons ev evs ih =>
    rw [List.flatMap_cons] at hnodup hfresh
    obtain ⟨-, hnodup', hdisjoint⟩ := List.nodup_append.mp hnodup
    obtain ⟨L', hmoves, hstep⟩ := step_held h fun id hid => hfresh id (List.mem_append_left _ hid)
    obtain ⟨ids', L'', hcustody, hheld⟩ := ih (custody_moves hL hmoves) hstep hnodup' fun id hid hmem => by
      rcases List.mem_append.mp hmem with hdrawn | hids
      · exact hdisjoint id hdrawn id hid rfl
      · exact hfresh id (List.mem_append_right _ hid) hids
    refine ⟨ids', L'', ?_, hheld⟩
    rw [requests, ← List.append_assoc]
    exact hcustody

theorem StoreState.Fresh.held (h : s.Fresh) : host.Held [] [] s := by
  unfold Host.Held
  rw [h.2]
  refine ⟨⟨nofun, fun id hid => ?_⟩, fun _ _ _ _ hd => ?_⟩
  · rw [h.1] at hid
    exact absurd rfl hid
  · obtain ⟨d, hd, -⟩ := hd
    cases hd

/-- Over every run from a machine without a store, stopped anywhere and opened again any number of times,
there is a ledger of what was given. Every deposit in it is where the ledger has it: at its original path
or where a restore put it, in an item that decodes to it, or deleted as requested. -/
theorem no_data_loss (host : Host) (s : StoreState) (evs : List StoreEvent) (hs : s.Fresh)
    (hdrawn : (evs.flatMap StoreEvent.drawn).Nodup) :
    ∃ L : StoreLedger, Custody (requests host StoreCall.mayFail s evs) L ∧
      L.map (fun d => (d.content, d.original)) =
        (requests host StoreCall.mayFail s evs).filterMap CustodyRequest.given? ∧
      ∀ d ∈ L, d.Placed (requests host StoreCall.mayFail s evs) ∧
        host.Kept (host.runEvents StoreCall.mayFail s evs).disk d := by
  have hstart : host.Held [] [] s := hs.held
  obtain ⟨ids, L, hcustody, hheld⟩ := run_held .start hstart hdrawn
    fun id _ hid => nomatch hid
  rw [List.nil_append] at hcustody
  refine ⟨L, hcustody, custody_given hcustody, fun d hd => ?_⟩
  exact ⟨custody_placed hcustody d hd, hheld.recoverable.kept d hd⟩

/-- The original is removed, the machine stops, and the store is opened again. -/
def stoppedAfterRemoval : List StoreEvent :=
  [.reopen sampleNow [], quarantineSample 14 [.stops 1], .reopen sampleNow []]

theorem no_data_loss_sample :
    ∃ L : StoreLedger, Custody (requests sampleHost StoreCall.mayFail sampleState stoppedAfterRemoval) L ∧
      L.map (fun d => (d.content, d.original)) =
        (requests sampleHost StoreCall.mayFail sampleState stoppedAfterRemoval).filterMap
          CustodyRequest.given? ∧
      ∀ d ∈ L, d.Placed (requests sampleHost StoreCall.mayFail sampleState stoppedAfterRemoval) ∧
        sampleHost.Kept
          (sampleHost.runEvents StoreCall.mayFail sampleState stoppedAfterRemoval).disk d :=
  no_data_loss sampleHost sampleState stoppedAfterRemoval ⟨rfl, rfl⟩ (List.nodup_singleton sampleId)

end AbyssalWarden

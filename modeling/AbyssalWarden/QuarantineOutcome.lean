import AbyssalWarden.OriginalRemoval

/-! What a quarantine call returns, against what it did: it may return an error when the original is gone. -/
namespace AbyssalWarden

variable {host : Host} {mayFail : StoreCall → Bool} {req : QuarantineRequest} {d : Draws} {store : QuarantineStore}
  {parent : NativePath} {record : QuarantineRecord} {w w' : Disk} {key : FileKey} {faults : List (Fault Errno)}

/-! ### Up to the removal of the original -/

/-- The call, up to the removal of the original. -/
def Host.takeOriginal (host : Host) (req : QuarantineRequest) (d : Draws) :
    StoreProg (NativePath × QuarantineRecord) :=
  (host.openOriginal req).bind fun (parent, key, st) =>
    (host.storeCopy req d st).bind fun record =>
      (host.removeOriginal req d record key).bind fun _ => .ret (parent, record)

theorem quarantineInner_eq_take : host.quarantineInner store req d =
    (host.takeOriginal req d).bind fun (parent, record) => host.finishQuarantine store req d parent record := by
  rw [quarantineInner_eq, Host.takeOriginal, Prog.bind_assoc]
  congr 1
  funext opened
  simp only [Prog.bind_assoc, Prog.bind]

/-- The original is gone, and its copy and record are in the store. -/
structure Host.Took (host : Host) (req : QuarantineRequest) (d : Draws) (w w' : Disk) (record : QuarantineRecord) :
    Prop where
  original : ∃ key, fileKey req.path = some key ∧ w.outside key ≠ none ∧ w'.outside = (w.removeFile key).2.outside
  items : ∀ f : ItemFile, f.id ≠ d.id → w'.items.lookup f = w.items.lookup f
  id : record.id = d.id
  path : nativePath record.original.path = some req.path
  expected : ∀ h, req.expectedSha256 = some h → record.original.sha256 = h
  written : ∃ data, host.records.toVecPretty record = .ok data

theorem removeFile_outside_congr (h : w'.outside = w.outside) :
    (w'.removeFile key).2.outside = (w.removeFile key).2.outside := by
  simp only [Disk.removeFile, h]
  split
  · exact h
  · simp only [Disk.relink, Disk.setFile, h]

/-- It takes the original, or returns an error with the files outside the store as they were. -/
theorem takeOriginal_meets : (host.takeOriginal req d).Meets mayFail (fun _ => True) (fun _ => SameButItem d.id w)
    (fun r w' => host.Took req d w w' r.2) w := by
  unfold Host.takeOriginal
  refine Prog.meets_bind.mpr ((openOriginal_calls.meets_and (J := SameButItem d.id w)
    (fun c hc => keeps_sameButItem w c hc.ofItem) (.refl _ w) openOriginal_returns).mono
    (fun _ _ => trivial) (fun _ _ h => h) ?_)
  rintro ⟨parent, key, st⟩ w₁ ⟨hw₁, name, hsplit, hkey, hst⟩
  refine Prog.meets_bind.mpr ((storeCopy_calls.meets_and (keeps_sameButItem w) hw₁
    storeCopy_returns).mono (fun _ _ => trivial) (fun _ _ h => h) ?_)
  rintro record w₂ ⟨hw₂, hrecord, hdata, -, -, hexpected⟩
  have hid : record.id = d.id := by rw [hrecord]; rfl
  refine Prog.meets_bind.mpr ((removeOriginal_meets hid hw₂).mono (fun _ _ => trivial) (fun _ _ h => h) ?_)
  rintro - w₃ ⟨-, rfl⟩
  dsimp only at hsplit hkey hst
  refine ⟨⟨key, ?_, ?_, removeFile_outside_congr hw₂.outside⟩, fun f hf => ?_, hid, ?_, ?_, hdata⟩
  · rw [fileKey, hsplit, hkey]
  · rw [hst]
    exact Option.some_ne_none st
  · rw [removeFile_items, hw₂.items f hf]
  · rw [hrecord]
    exact nativePath_fromPath req.path
  · intro h hh
    rw [hrecord]
    exact hexpected h hh

/-! ### When the original is gone -/

/-- The calls that are left to make. -/
def finishCalls : ℕ := 8

/-- The entry of a quarantined file can be written. -/
def Host.CanAudit (host : Host) (store : QuarantineStore) (req : QuarantineRequest) (d : Draws)
    (record : QuarantineRecord) : Prop :=
  ∃ r, encode host.sha256 host.entries (host.auditEntry store d.audited "quarantine" (some d.id) (some req.path)
    (some record.original.sha256) (.ok none)) store.head = .ok r

theorem finishQuarantine_needsAll (hwritten : ∃ data, host.records.toVecPretty (takenRecord req d record) = .ok data)
    (haudit : host.CanAudit store req d record) :
    (host.finishQuarantine store req d parent record).NeedsAll anyFails finishCalls w := by
  obtain ⟨data, hdata⟩ := hwritten
  obtain ⟨⟨line, head⟩, hline⟩ := haudit
  unfold Host.finishQuarantine Host.save Host.auditEvent Host.appendEntry
  rw [hdata, hline]
  simp only [Bind.bind, Prog.bind_assoc, Except.mapError, Prog.ofExcept, Prog.bind]
  generalize (takenRecord req d record).id = id
  have hrename : ((w.setItem (.jsonTmp id) []).appendItem (.jsonTmp id) data).renameItem (.jsonTmp id) (.json id) =
      (.ok (), (((w.setItem (.jsonTmp id) []).appendItem (.jsonTmp id) data).eraseItem (.jsonTmp id)).setItem
        (.json id) data) := by
    rw [Disk.renameItem, appendItem_lookup (Disk.createdItem_lookup _ _), List.nil_append]
  -- the directory, the five calls of the record, and the two of the log
  refine Prog.NeedsAll.request_bind 7 w ?_ rfl rfl
  refine Prog.NeedsAll.request_bind 6 (w.setItem (.jsonTmp id) []) ?_ rfl rfl
  refine Prog.NeedsAll.request_bind 5 ((w.setItem (.jsonTmp id) []).appendItem (.jsonTmp id) data) ?_ rfl rfl
  refine Prog.NeedsAll.request_bind 4 _ ?_ rfl rfl
  refine Prog.NeedsAll.request_bind 3 _ ?_ rfl hrename
  refine Prog.NeedsAll.request_bind 2 _ ?_ rfl rfl
  refine Prog.NeedsAll.request_bind 1 _ ?_ rfl rfl
  refine Prog.NeedsAll.request_bind 0 _ ?_ rfl rfl
  exact Prog.NeedsAll.ret _

/-- The rest of the call succeeds if and only if nothing disturbs it and its entry can be written. -/
theorem finishQuarantine_ok_iff (hwritten : ∃ data, host.records.toVecPretty (takenRecord req d record) = .ok data) :
    (∃ r w', (host.finishQuarantine store req d parent record).run anyFails faults w = (.ok r, w')) ↔
      (∀ f ∈ faults.take finishCalls, f = .none) ∧ host.CanAudit store req d record := by
  constructor
  · rintro ⟨r, w', hrun⟩
    have haudit : host.CanAudit store req d record := by
      have hreturns : (host.finishQuarantine store req d parent record).Returns anyFails
          (fun _ _ => host.CanAudit store req d record) w := by
        unfold Host.finishQuarantine
        refine Prog.Returns.bind (Prog.returns_request fun _ _ _ => ?_)
        refine Prog.Returns.bind (save_returns.mono fun _ _ _ => ?_)
        refine Prog.Returns.bind (Prog.Returns.bind (Prog.returns_ofExcept fun line hline => ?_))
        rw [mapError_eq_ok] at hline
        refine Prog.Returns.bind (Prog.returns_request fun _ _ _ => ?_)
        exact Prog.Returns.bind (Prog.returns_request fun _ _ _ => ⟨line, hline⟩)
      exact hreturns.of_run hrun
    exact ⟨(finishQuarantine_needsAll hwritten haudit faults).mp ⟨r, w', hrun⟩, haudit⟩
  · rintro ⟨hfaults, haudit⟩
    exact (finishQuarantine_needsAll hwritten haudit faults).mpr hfaults

/-- What the rest of the call returns is the record that is then on disk. -/
theorem finishQuarantine_returns : (host.finishQuarantine store req d parent record).Returns mayFail
    (fun r w' => r.2 = takenRecord req d record ∧ host.recordAt w' record.id = some r.2) w := by
  unfold Host.finishQuarantine
  refine Prog.Returns.bind (Prog.returns_request fun _ _ _ => ?_)
  refine Prog.Returns.bind (save_returns.mono fun _ w₁ hsaved => ?_)
  obtain ⟨data, hdata, hjson, -⟩ := hsaved
  have hkeeps : (host.auditEvent store d.audited "quarantine" (some d.id) (some req.path)
      (some record.original.sha256) (.ok none)).Meets mayFail
      (fun w => host.recordAt w record.id = some (takenRecord req d record))
      (fun _ w => host.recordAt w record.id = some (takenRecord req d record))
      (fun _ w => host.recordAt w record.id = some (takenRecord req d record)) w₁ := by
    refine (appendEntry_calls store _).meets (fun c hc => ?_) (recordAt_of_written hjson hdata)
    refine keeps_of_apply (P := StoreCall.Scratch) (fun _ n hc => scratch_cut n hc) (fun c w hc hw => ?_) c hc
    rw [recordAt_congr (Disk.apply_items fun h => hc.items _ h)]
    exact hw
  exact Prog.Returns.bind (hkeeps.mono (fun _ _ => trivial) (fun _ _ _ => trivial) fun _ _ h => ⟨rfl, h⟩)

/-! ### The whole call -/

/-- Nothing happens to what is left of the call when the original is gone, and its entry can be written. -/
def Host.Undisturbed (host : Host) (store : QuarantineStore) (req : QuarantineRequest) (d : Draws)
    (faults : List (Fault Errno)) (w : Disk) (record : QuarantineRecord) : Prop :=
  (∀ f ∈ ((host.takeOriginal req d).left anyFails faults w).take finishCalls, f = .none) ∧
    host.CanAudit store req d record

/-- What a call that came to its end did, and what it returned. -/
inductive Host.Outcome (host : Host) (store : QuarantineStore) (req : QuarantineRequest) (d : Draws)
    (faults : List (Fault Errno)) (w w' : Disk) (result : Except RemediationError QuarantineRecord) : Prop where
  | took (parent : NativePath) (record : QuarantineRecord) (w₁ : Disk)
    (run : (host.takeOriginal req d).run anyFails faults w = (.ok (parent, record), w₁))
    (taken : host.Took req d w w₁ record) (outside : w'.outside = w₁.outside)
    (ok : (∃ r, result = .ok r) ↔ host.Undisturbed store req d faults w record)
    (stored : ∀ r, result = .ok r → r = takenRecord req d record ∧ host.recordAt w' d.id = some r)
  | left (run : ∀ r w₁, (host.takeOriginal req d).run anyFails faults w ≠ (.ok r, w₁))
    (outside : w'.outside = w.outside) (error : ∃ e, result = .error e)

/-- The only record the call writes is that of an item. -/
def StoreCall.RecordOf (id : QuarantineId) (c : StoreCall) : Prop := ∀ id', c.WritesItem (.json id') → id' = id

theorem StoreCall.OfItem.recordOf {id : QuarantineId} {c : StoreCall} (h : c.OfItem id) : c.RecordOf id :=
  fun id' hw => h.items (.json id') hw

theorem StoreCall.Scratch.recordOf {id : QuarantineId} {c : StoreCall} (h : c.Scratch) : c.RecordOf id :=
  fun id' hw => (h.items (.json id') hw).elim

theorem removeOriginal_recordOf {id : QuarantineId} (hid : record.id = id) :
    (host.removeOriginal req d record key).Calls (StoreCall.RecordOf id) := by
  have hrollBack (now : Now) (why : String) (e : RemediationError) :
      (host.rollBack record now why >>= fun _ => Prog.throw e : StoreProg Unit).Calls (StoreCall.RecordOf id) :=
    (rollBack_calls.mono fun c hc => hid ▸ hc.recordOf).bind fun _ => trivial
  have hstat : ((StoreCall.statFile key).result).Calls (StoreCall.RecordOf id) :=
    Prog.Calls.ask fun _ hw => absurd hw not_false
  have hremove : ((StoreCall.removeFile key).result).Calls (StoreCall.RecordOf id) :=
    Prog.Calls.ask fun _ hw => absurd hw not_false
  refine hstat.bind fun r => ?_
  dsimp only
  split_ifs
  · exact hrollBack _ _ _
  · refine hremove.bind fun removed => ?_
    cases removed with
    | ok u => trivial
    | error e => exact hrollBack _ _ _

theorem quarantineInner_recordOf : (host.quarantineInner store req d).Calls (StoreCall.RecordOf d.id) := by
  have hsyncs : (StoreCall.syncItems.orErr (.io "sync" host.root)).Calls (StoreCall.RecordOf d.id) :=
    Prog.Calls.request fun _ hw => absurd hw not_false
  have hsync (dir : List Bytes) (onError : Errno → RemediationError) :
      ((StoreCall.syncDir dir).orErr onError).Calls (StoreCall.RecordOf d.id) :=
    Prog.Calls.request fun _ hw => absurd hw not_false
  refine (openOriginal_calls.mono fun c hc => hc.scratch.recordOf).bind fun (parent, key, st) => ?_
  refine (copyOriginal_calls.mono fun c hc => hc.recordOf).bind fun (sha256, copied) => ?_
  have hid : (host.pendingRecord req d st sha256 copied).id = d.id := rfl
  refine ((save_calls _).mono fun c hc => hid ▸ hc.recordOf).bind fun _ => ?_
  refine (Prog.Calls.request renameData_ofItem.recordOf).bind fun _ => ?_
  refine hsyncs.bind fun _ => (removeOriginal_recordOf hid).bind fun _ => (hsync _ _).bind fun _ => ?_
  refine Prog.Calls.bind ((save_calls _).mono fun c hc => hc.recordOf) fun _ => ?_
  exact ((appendEntry_calls store _).mono fun c hc => hc.recordOf).bind fun _ => trivial

theorem quarantine_recordOf : (host.quarantine store req d).Calls (StoreCall.RecordOf d.id) := by
  refine quarantineInner_recordOf.attempt.bind fun result => ?_
  cases result with
  | ok r => trivial
  | error e =>
    refine ((appendEntry_calls store _).mono fun c hc => hc.recordOf).attempt.bind fun audited => ?_
    cases audited with
    | ok store => trivial
    | error e => trivial

/-- The records of other items stay as they are. -/
theorem quarantine_records {id : QuarantineId} (hid : id ≠ d.id) : host.recordAt
    ((host.quarantine store req d).run mayFail faults w).2 id = host.recordAt w id := by
  let Same (w' : Disk) : Prop := w'.items.lookup (.json id) = w.items.lookup (.json id)
  have hkeeps (c : StoreCall) (hc : c.RecordOf d.id) : Prog.Keeps storeSystem Same c := by
    refine keeps_of_apply (P := StoreCall.RecordOf d.id) ?_ ?_ c hc
    · exact fun c n hc id' hw => hc id' (StoreCall.cut_writesItem.mp hw)
    · intro c w' hc hw
      exact (Disk.apply_items fun hw => hid (hc id hw)).trans hw
  exact recordAt_congr (quarantine_recordOf.run_keeps hkeeps rfl)

/-- What the call does after an error. -/
theorem auditError_returns {e : RemediationError} : ((host.auditEvent store d.audited "quarantine" none (some req.path)
      req.expectedSha256 (.error e.text)).attempt.bind fun audited => match audited with
        | .ok store => Prog.ret (store, .error e)
        | .error e => Prog.ret (store, .error e) :
      Prog storeSystem Empty (QuarantineStore × Except RemediationError QuarantineRecord)).Returns mayFail
    (fun r w' => w'.outside = w.outside ∧ ∃ e, r.2 = .error e) w := by
  refine Prog.meets_bind.mpr (Prog.meets_attempt.mpr (((appendEntry_calls store _).meets
    (fun c hc => StoreCall.LeavesFiles.keeps hc.files w.outside) rfl).mono (fun _ _ => trivial) ?_ ?_))
  · exact fun e' w' hw' => ⟨hw', e', rfl⟩
  · exact fun _ w' hw' => ⟨hw', e, rfl⟩

theorem finishQuarantine_outside :
    ((host.finishQuarantine store req d parent record).run mayFail faults w).2.outside = w.outside :=
  finishQuarantine_leaves.run_keeps (fun _ hc => hc.keeps w.outside) rfl

theorem quarantine_outcome {store' : QuarantineStore} {result : Except RemediationError QuarantineRecord}
    (h : (host.quarantine store req d).run anyFails faults w = (.ok (store', result), w')) :
    host.Outcome store req d faults w w' result := by
  unfold Host.quarantine at h
  change (Prog.bind (S := storeSystem) _ _).run anyFails faults w = _ at h
  rw [Prog.run_bind, Prog.run_attempt, quarantineInner_eq_take, Prog.run_bind] at h
  -- the call up to the removal of the original, and then the rest
  have hmeets : (host.takeOriginal req d).Meets anyFails (fun _ => True) (fun _ => SameButItem d.id w)
    (fun r w' => host.Took req d w w' r.2) w := takeOriginal_meets
  have htake := Prog.run_ends hmeets faults
  generalize hrun : (host.takeOriginal req d).run anyFails faults w = taken at h htake
  obtain ⟨outcome, w₁⟩ := taken
  cases outcome with
  | stopped => cases h
  | error e =>
    -- the original is where it was, and the error is recorded
    have hsame : SameButItem d.id w w₁ := htake
    obtain ⟨houtside, herror⟩ := auditError_returns.of_run h
    refine .left ?_ (houtside.trans hsame.outside) herror
    intro r w₂ hok
    rw [hrun] at hok
    cases hok
  | ok r =>
    obtain ⟨parent, record⟩ := r
    have htook : host.Took req d w w₁ record := htake
    -- the pending record could be written, so the final one can
    have hwritten : ∃ data, host.records.toVecPretty (takenRecord req d record) = .ok data := by
      have hpending := (host.records.toVecPretty_writable record).mpr htook.written
      exact (host.records.toVecPretty_writable _).mp ⟨hpending.1, d.later.2, hpending.2.2⟩
    -- from the removal on the call ends well just when nothing disturbs it
    have hiff : (∃ r w', (host.finishQuarantine store req d parent record).run anyFails
        ((host.takeOriginal req d).left anyFails faults w) w₁ = (.ok r, w')) ↔
        host.Undisturbed store req d faults w record := finishQuarantine_ok_iff hwritten
    have houtside : ((host.finishQuarantine store req d parent record).run anyFails
        ((host.takeOriginal req d).left anyFails faults w) w₁).2.outside = w₁.outside := finishQuarantine_outside
    dsimp only at h
    generalize hfinish : (host.finishQuarantine store req d parent record).run anyFails
      ((host.takeOriginal req d).left anyFails faults w) w₁ = finished at h hiff houtside
    obtain ⟨outcome, w₂⟩ := finished
    cases outcome with
    | stopped => cases h
    | error e =>
      obtain ⟨hsame, herror⟩ := auditError_returns.of_run h
      obtain ⟨e', rfl⟩ := herror
      refine .took parent record w₁ hrun htook (hsame.trans houtside) (iff_of_false ?_ ?_) fun _ hr => nomatch hr
      · exact fun ⟨_, hok⟩ => nomatch hok
      · intro hundisturbed
        obtain ⟨r, w₃, hok⟩ := hiff.mpr hundisturbed
        cases hok
    | ok r =>
      obtain ⟨hrecord, hstored⟩ := finishQuarantine_returns.of_run hfinish
      obtain ⟨hresult, rfl⟩ := Prod.mk.inj h
      obtain ⟨-, rfl⟩ := Prod.mk.inj (Outcome.ok.inj hresult)
      refine .took parent record w₁ hrun htook houtside (iff_of_true ⟨r.2, rfl⟩ (hiff.mp ⟨r, w₂, rfl⟩)) fun r' hr' => ?_
      rw [← Except.ok.inj hr', ← htook.id]
      exact ⟨hrecord, hstored⟩

end AbyssalWarden

import AbyssalWarden.FailedQuarantine
import AbyssalWarden.RestoreRetry
import AbyssalWarden.StableSort

/-! What is read of the records that the store saves. The writer of a record has no limit on its size, and the
reader has one. -/
namespace AbyssalWarden

variable {host : Host} {mayFail : StoreCall → Bool} {w w' : Disk} {id : QuarantineId} {record : QuarantineRecord}
  {s : StoreState}

namespace Host

/-! ### The listing -/

/-- One round of the loop of `list`. -/
def collectRecord (host : Host) (out : List QuarantineRecord) (f : ItemFile) : StoreProg (List QuarantineRecord) :=
  match f with
  | .json id => do
    let record ← host.get id
    pure (out ++ [record])
  | _ => pure out

/-- All records, oldest first. -/
def list (host : Host) : StoreProg (List QuarantineRecord) := do
  let names ← StoreCall.listItems.orErr (.io "list" (host.root.join (NativePath.ofString "items")))
  let out ← Prog.forEach host.collectRecord [] names
  pure (stableSort (fun record => toLex (record.createdAt.nanos, record.id.text)) out)

/-! ### What is on disk -/

/-- The item's record is on disk as `save` writes it. -/
structure SavedAs (host : Host) (w : Disk) (id : QuarantineId) (record : QuarantineRecord) : Prop where
  named : record.id = id
  version : record.formatVersion = recordFormatVersion
  written : ∃ data, w.items.lookup (.json id) = some data ∧ host.records.toVecPretty record = .ok data

/-- Whatever is under the name of a record was saved. -/
def AllSaved (host : Host) (w : Disk) : Prop :=
  ∀ id, w.items.lookup (.json id) ≠ none → ∃ record, host.SavedAs w id record

/-- The record is not larger than what is read. -/
def Fits (host : Host) (record : QuarantineRecord) : Prop :=
  ∀ data, host.records.toVecPretty record = .ok data → data.length ≤ maxRecordBytes

/-- Every record that was saved is read back, the listing returns them all, and the store can be opened if its
audit log is intact. -/
structure ReadsBack (host : Host) (w : Disk) : Prop where
  saved : host.AllSaved w
  get : ∀ id record, host.SavedAs w id record → (host.get id).run anyFails [] w = (.ok record, w)
  list : ∃ records, host.list.run anyFails [] w = (.ok records, w) ∧
    ∀ record, record ∈ records ↔ host.SavedAs w record.id record
  opens : ∀ head, verifyChain host.sha256 host.entries w.audit = .ok head →
    ∀ now, ∃ store w', (host.openStore now).run anyFails [] w = (.ok store, w')

end Host

theorem Host.SavedAs.congr (h : host.SavedAs w id record) (hjson : w'.items.lookup (.json id) = w.items.lookup (.json id)) :
    host.SavedAs w' id record := ⟨h.named, h.version, hjson ▸ h.written⟩

theorem Host.SavedAs.recordAt (h : host.SavedAs w id record) : host.recordAt w id = some record := by
  obtain ⟨data, hdata, hwritten⟩ := h.written
  exact recordAt_of_written hdata hwritten

/-! ### Only saved records come to the disk -/

/-- The call leaves the records alone. -/
def StoreCall.SparesRecords (c : StoreCall) : Prop := ∀ id, ¬ c.WritesItem (.json id)

theorem keeps_allSaved (c : StoreCall) (hc : c.SparesRecords) : Prog.Keeps storeSystem host.AllSaved c := by
  refine keeps_of_apply (P := StoreCall.SparesRecords) ?_ ?_ c hc
  · exact fun c n hc id hw => hc id (StoreCall.cut_writesItem.mp hw)
  · intro c w hc hw id hid
    have hsame : (w.apply c).2.items.lookup (.json id) = w.items.lookup (.json id) := Disk.apply_items (hc id)
    rw [hsame] at hid
    obtain ⟨record, hrecord⟩ := hw id hid
    exact ⟨record, hrecord.congr hsame⟩

theorem StoreCall.Scratch.sparesRecords {c : StoreCall} (hc : c.Scratch) : c.SparesRecords :=
  fun id hw => json_not_tmp id (hc.items _ hw)

theorem StoreCall.OfFile.sparesRecords {key : FileKey} {c : StoreCall} (hc : c.OfFile key) : c.SparesRecords :=
  fun _ => hc.items _

theorem Host.AllSaved.written {data : Bytes} (h : host.AllSaved w) (hversion : record.formatVersion = recordFormatVersion)
    (hdata : host.records.toVecPretty record = .ok data) : host.AllSaved (w.written record.id data) := by
  intro id hid
  by_cases hne : id = record.id
  · rw [hne]
    exact ⟨record, rfl, hversion, data, written_json, hdata⟩
  · have hsame : (w.written record.id data).items.lookup (.json id) = w.items.lookup (.json id) :=
      written_lookup (by simpa using hne) (json_not_tmp id)
    rw [hsame] at hid
    obtain ⟨r, hr⟩ := h id hid
    exact ⟨r, hr.congr hsame⟩

theorem save_preserves (hversion : record.formatVersion = recordFormatVersion) :
    (host.save record).Preserves mayFail host.AllSaved := by
  intro w hw
  have hkeep (c : StoreCall) (hc : c.Scratch) : Prog.Keeps storeSystem host.AllSaved c :=
    keeps_allSaved c hc.sparesRecords
  have hsave : (host.save record).Meets mayFail (fun w' => host.AllSaved w' ∨ host.AllSaved w')
      (fun _ => host.AllSaved) (fun _ => host.AllSaved) w :=
    save_meets hkeep hkeep (fun w data hw hdata => hw.written hversion hdata) (.inr fun _ h => h) (fun _ h => h) hw
  exact hsave.mono (fun _ h => or_self_iff.mp h) (fun _ _ h => h) fun _ _ h => h

/-- A record that is read has the version of those that are saved. -/
theorem get_version (id : QuarantineId) (hw : host.AllSaved w) :
    (host.get id).Meets mayFail host.AllSaved (fun _ => host.AllSaved)
      (fun record w' => host.AllSaved w' ∧ record.formatVersion = recordFormatVersion) w := by
  refine ((get_calls id).mono fun _ hc => hc.scratch.sparesRecords).meets_and keeps_allSaved hw ?_
  refine Prog.Returns.bind (Prog.returns_request fun data _ _ => Prog.returns_ofExcept fun record hrecord => ?_)
  simp only [Host.parseRecord, except_bind_eq_ok, refuseIf_eq_ok, mapError_eq_ok, not_or, Decidable.not_not] at hrecord
  obtain ⟨-, -, r, -, -, ⟨-, hversion⟩, heq⟩ := hrecord
  cases heq
  exact hversion

theorem auditEvent_preserves (store : QuarantineStore) (entry : AuditEntry) :
    (host.appendEntry store entry).Preserves mayFail host.AllSaved :=
  ((appendEntry_calls store entry).mono fun _ hc => hc.sparesRecords).preserves keeps_allSaved

theorem request_preserves {c : StoreCall} {onError : Errno → RemediationError} (hc : c.SparesRecords) :
    (c.orErr onError).Preserves mayFail host.AllSaved :=
  (Prog.Calls.request hc).preserves keeps_allSaved

theorem result_preserves {c : StoreCall} (hc : c.SparesRecords) : c.result.Preserves mayFail host.AllSaved :=
  (Prog.Calls.ask hc).preserves keeps_allSaved

theorem ignored_preserves {c : StoreCall} (hc : c.SparesRecords) : c.ignored.Preserves mayFail host.AllSaved :=
  (Prog.Calls.ignore hc).preserves keeps_allSaved

variable {req : QuarantineRequest} {d : Draws} {store : QuarantineStore}

theorem rollBack_preserves {now : Now} {why : String} (hversion : record.formatVersion = recordFormatVersion) :
    (host.rollBack record now why).Preserves mayFail host.AllSaved := by
  refine (ignored_preserves (c := .removeItem (.data record.id)) fun _ h => nomatch h).bind fun _ => ?_
  refine (ignored_preserves (c := .syncItems) fun _ h => h).bind fun _ => ?_
  exact save_preserves hversion

theorem copyOriginal_preserves {st : FileNode} : (host.copyOriginal req d st).Preserves mayFail host.AllSaved := by
  have hremove : (StoreCall.ignored (.removeItem (.dataTmp d.id))).Calls StoreCall.SparesRecords :=
    Prog.Calls.ignore fun _ h => nomatch h
  have hwrite : (host.writeEncoded d.id st.content d.key.1 req.maxSize req.path).Calls StoreCall.SparesRecords :=
    writeEncoded_copies.mono fun _ hc id hw => nomatch hc.items _ hw
  refine ((hwrite.orCleanup hremove).preserves keeps_allSaved).bind fun (sha256, copied) => ?_
  cases req.expectedSha256 with
  | none => exact Prog.Preserves.ret _
  | some expected =>
    dsimp only
    split
    · exact (hremove.preserves keeps_allSaved).bind fun _ => Prog.Preserves.throw _
    · exact Prog.Preserves.ret _

theorem removeOriginal_preserves {key : FileKey} (hversion : record.formatVersion = recordFormatVersion) :
    (host.removeOriginal req d record key).Preserves mayFail host.AllSaved := by
  have hrollBack (now : Now) (why : String) (e : RemediationError) :
      (host.rollBack record now why >>= fun _ => Prog.throw e : StoreProg Unit).Preserves mayFail host.AllSaved :=
    (rollBack_preserves hversion).bind fun _ => Prog.Preserves.throw _
  refine (result_preserves (c := .statFile key) fun _ h => h).bind fun r => ?_
  dsimp only
  split_ifs
  · exact hrollBack _ _ _
  · refine (result_preserves (c := .removeFile key) fun _ h => h).bind fun removed => ?_
    cases removed with
    | ok u => exact Prog.Preserves.ret _
    | error e => exact hrollBack _ _ _

theorem quarantineInner_preserves : (host.quarantineInner store req d).Preserves mayFail host.AllSaved := by
  have hopen : (host.openOriginal req).Preserves mayFail host.AllSaved :=
    (openOriginal_calls.mono fun _ hc => hc.scratch.sparesRecords).preserves keeps_allSaved
  refine hopen.bind fun (parent, key, st) => copyOriginal_preserves.bind fun (sha256, copied) => ?_
  refine (save_preserves rfl).bind fun _ => (request_preserves ?_).bind fun _ => ?_
  · rintro _ (⟨⟨⟩⟩ | ⟨⟨⟩⟩)
  · refine (request_preserves (by rintro _ ⟨⟩)).bind fun _ => (removeOriginal_preserves rfl).bind fun _ => ?_
    refine (request_preserves (by rintro _ ⟨⟩)).bind fun _ => (save_preserves rfl).bind fun _ => ?_
    exact (auditEvent_preserves store _).bind fun _ => Prog.Preserves.ret _

theorem quarantine_preserves : (host.quarantine store req d).Preserves mayFail host.AllSaved := by
  refine quarantineInner_preserves.attempt.bind fun result => ?_
  cases result with
  | ok r => exact Prog.Preserves.ret _
  | error e =>
    refine (auditEvent_preserves store _).attempt.bind fun audited => ?_
    cases audited with
    | ok store => exact Prog.Preserves.ret _
    | error e => exact Prog.Preserves.ret _

theorem commitRestored_preserves {tmp key : FileKey} {path : NativePath} :
    (Host.commitRestored tmp key path).Preserves mayFail host.AllSaved := by
  have hcleanup (e : RemediationError) :
      ((StoreCall.removeFile tmp).ignored >>= fun _ => Prog.throw e : StoreProg Unit).Preserves mayFail host.AllSaved :=
    (ignored_preserves (by rintro _ ⟨⟩)).bind fun _ => Prog.Preserves.throw _
  refine (result_preserves (c := .renameNew tmp key) fun _ h => h).bind fun renamed => ?_
  cases renamed with
  | ok u => exact Prog.Preserves.ret _
  | error e =>
    cases e with
    | inval =>
      refine (result_preserves (c := .linkFile tmp key) fun _ h => h).bind fun linked => ?_
      refine (ignored_preserves (by rintro _ ⟨⟩)).bind fun _ => ?_
      cases linked with
      | ok u => exact Prog.Preserves.ret _
      | error e => cases e <;> exact Prog.Preserves.throw _
    | _ => exact hcleanup _

theorem restoreInner_preserves {destDir : Option NativePath} :
    (host.restoreInner id destDir d).Preserves mayFail host.AllSaved := by
  intro w hw
  refine Prog.meets_bind.mpr ((get_version id hw).mono (fun _ h => h) (fun _ _ h => h) fun record w' hget => ?_)
  obtain ⟨hw', hversion⟩ := hget
  refine ((Prog.Preserves.ofExcept _).bind fun _ => (Prog.Preserves.ofExcept _).bind fun parts => ?_ :
    Prog.Preserves (S := storeSystem) mayFail host.AllSaved _) w' hw'
  obtain ⟨targetDir, name, target⟩ := parts
  refine (Prog.Preserves.ofExcept _).bind fun _ => ?_
  cases Host.recordKey record with
  | none => exact Prog.Preserves.throw _
  | some key =>
    have hcleanup {tmp : FileKey} : (StoreCall.removeFile tmp).ignored.Calls StoreCall.SparesRecords :=
      Prog.Calls.ignore fun _ h => h
    refine (request_preserves (by rintro _ ⟨⟩)).bind fun _ => ?_
    refine (((writeRestored_calls.mono fun _ hc => hc.sparesRecords).orCleanup hcleanup).preserves keeps_allSaved).bind
      fun _ => commitRestored_preserves.bind fun _ => ?_
    refine (request_preserves (by rintro _ ⟨⟩)).bind fun _ => (request_preserves (by rintro _ ⟨⟩)).bind fun _ => ?_
    exact (save_preserves (by exact hversion)).bind fun _ => Prog.Preserves.ret _

theorem deleteInner_preserves : (host.deleteInner id d).Preserves mayFail host.AllSaved := by
  intro w hw
  refine Prog.meets_bind.mpr ((get_version id hw).mono (fun _ h => h) (fun _ _ h => h) fun record w' hget => ?_)
  obtain ⟨hw', hversion⟩ := hget
  have hrest (notes : List String) : (StoreCall.syncItems.orErr (.io "sync" host.root) >>= fun _ => host.save { record with
      state := .deleted
      updatedAt := d.later.1
      notes := record.notes ++ notes } : StoreProg Unit).Preserves mayFail host.AllSaved :=
    (request_preserves (by rintro _ ⟨⟩)).bind fun _ => save_preserves hversion
  refine ((Prog.Preserves.ofExcept _).bind fun _ => ?_ : Prog.Preserves (S := storeSystem) mayFail host.AllSaved _) w' hw'
  refine (result_preserves (c := .removeItem (.data id)) fun _ h => nomatch h).bind fun removed => ?_
  cases removed with
  | ok u => exact hrest _
  | error e => cases e <;> first | exact hrest _ | exact Prog.Preserves.throw _

theorem audited_preserves {α : Type} {inner : StoreProg α} {now : Now} {action : String} {detail : α → Option String}
    (hinner : inner.Preserves mayFail host.AllSaved) :
    (host.audited store inner now action id detail).Preserves mayFail host.AllSaved := by
  refine hinner.attempt.bind fun result => (auditEvent_preserves store _).attempt.bind fun audited => ?_
  cases audited with
  | ok store => exact Prog.Preserves.ret _
  | error e => exact Prog.Preserves.ret _

theorem callOp_preserves (op : StoreOp) : (host.callOp store op).Preserves mayFail host.AllSaved := by
  cases op with
  | quarantine req d => exact quarantine_preserves.bind fun _ => Prog.Preserves.ret _
  | restore id destDir d => exact (audited_preserves restoreInner_preserves).bind fun _ => Prog.Preserves.ret _
  | delete id d => exact (audited_preserves deleteInner_preserves).bind fun _ => Prog.Preserves.ret _

/-! ### Opening the store -/

theorem resolvePending_preserves : (host.resolvePending record).Preserves mayFail host.AllSaved := by
  have hdata : (StoreCall.ignored (.removeItem (.data record.id))).Preserves mayFail host.AllSaved :=
    ignored_preserves fun _ h => nomatch h
  have htmp : (StoreCall.ignored (.removeItem (.dataTmp record.id))).Preserves mayFail host.AllSaved :=
    ignored_preserves fun _ h => nomatch h
  refine ((originalPresent_calls.mono fun _ hc => hc.scratch.sparesRecords).preserves keeps_allSaved).bind fun present => ?_
  split
  · refine hdata.bind fun _ => htmp.bind fun _ => ?_
    exact (ignored_preserves (by rintro _ ⟨⟩)).bind fun _ => Prog.Preserves.ret _
  · refine ((copyVerified_calls.mono fun _ hc => hc.scratch.sparesRecords).preserves keeps_allSaved).bind fun _ => ?_
    split
    · exact htmp.bind fun _ => Prog.Preserves.ret _
    · exact Prog.Preserves.ret _

theorem recoverItem_preserves {now : Now} (hversion : record.formatVersion = recordFormatVersion) :
    (host.recoverItem now store record).Preserves mayFail host.AllSaved := by
  refine resolvePending_preserves.bind fun (outcome, detail) => (save_preserves (by exact hversion)).bind fun _ => ?_
  exact (auditEvent_preserves store _).bind fun _ => Prog.Preserves.ret _

theorem openStore_preserves (now : Now) : (host.openStore now).Preserves mayFail host.AllSaved := by
  refine (request_preserves (by rintro _ ⟨⟩)).bind fun log => (Prog.Preserves.ofExcept _).bind fun head => ?_
  refine (request_preserves (by rintro _ ⟨⟩)).bind fun names => ?_
  intro w hw
  -- what is pending has the version of the records that are saved
  have hcollect : (Prog.forEach host.collectPending [] names).Meets mayFail host.AllSaved (fun _ => host.AllSaved)
      (fun pending w' => host.AllSaved w' ∧ ∀ r ∈ pending, QuarantineRecord.formatVersion r = recordFormatVersion) w := by
    refine Prog.meets_forEach (I := fun pending _ w' => host.AllSaved w' ∧
      ∀ r ∈ pending, QuarantineRecord.formatVersion r = recordFormatVersion) ?_ ⟨hw, fun r hr => absurd hr List.not_mem_nil⟩
    intro pending f rest w' hinv
    cases f with
    | json id =>
      refine Prog.meets_bind.mpr ((get_version id hinv.1).mono (fun _ h => h) (fun _ _ h => h) fun r w'' hget => ?_)
      refine ⟨hget.1, fun r' hr' => ?_⟩
      split at hr'
      · cases List.mem_append.mp hr' with
        | inl hr' => exact hinv.2 r' hr'
        | inr hr' => exact List.mem_singleton.mp hr' ▸ hget.2
      · exact hinv.2 r' hr'
    | data id | dataTmp id | jsonTmp id => exact hinv
  refine Prog.meets_bind.mpr (hcollect.mono (fun _ h => h) (fun _ _ h => h) fun pending w₁ hpending => ?_)
  have hrecover {store : QuarantineStore} : (Prog.forEach (host.recoverItem now) store pending).Meets mayFail
      host.AllSaved (fun _ => host.AllSaved) (fun _ w' => host.AllSaved w') w₁ := by
    refine (Prog.meets_forEach (I := fun _ rest w' => host.AllSaved w' ∧
      ∀ r ∈ rest, r.formatVersion = recordFormatVersion) ?_ hpending).mono (fun _ h => h) (fun _ _ h => h) fun _ _ h => h.1
    intro store r rest w' hinv
    refine (recoverItem_preserves (hinv.2 r List.mem_cons_self) w' hinv.1).mono (fun _ h => h) (fun _ _ h => h) ?_
    exact fun _ w'' hw'' => ⟨hw'', fun r' hr' => hinv.2 r' (List.mem_cons_of_mem _ hr')⟩
  refine Prog.meets_bind.mpr (hrecover.mono (fun _ h => h) (fun _ _ h => h) fun store w₂ hw₂ => ?_)
  refine ((request_preserves (by rintro _ ⟨⟩)).bind fun names => Prog.Preserves.bind ?_ fun _ => Prog.Preserves.ret _ :
    Prog.Preserves (S := storeSystem) mayFail host.AllSaved _) w₂ hw₂
  refine (Prog.Calls.forEach (fun _ f => ?_) () names).preserves keeps_allSaved
  exact (removeStray_calls f).mono fun _ hc => hc.sparesRecords

/-! ### Runs -/

theorem step_allSaved {ev : StoreEvent} (hs : host.AllSaved s.disk) : host.AllSaved (host.step mayFail s ev).disk := by
  cases ev with
  | reopen now faults =>
    have hpreserves : (host.openStore now).Preserves mayFail host.AllSaved := openStore_preserves now
    have hkept := hpreserves.run hs faults
    rw [Host.step]
    generalize (host.openStore now).run mayFail faults s.disk = ended at hkept ⊢
    obtain ⟨outcome, w⟩ := ended
    cases outcome <;> exact hkept
  | call op faults =>
    obtain ⟨w, store⟩ := s
    cases store with
    | none => exact hs
    | some store =>
      have hpreserves : (host.callOp store op).Preserves mayFail host.AllSaved := callOp_preserves op
      have hkept := hpreserves.run hs faults
      rw [Host.step]
      dsimp only
      generalize (host.callOp store op).run mayFail faults w = ended at hkept ⊢
      obtain ⟨outcome, w'⟩ := ended
      cases outcome with
      | ok store => exact hkept
      | error e => exact e.elim
      | stopped => exact hkept

theorem run_allSaved {evs : List StoreEvent} (hs : host.AllSaved s.disk) :
    host.AllSaved (host.runEvents mayFail s evs).disk := by
  induction evs generalizing s with
  | nil => exact hs
  | cons ev evs ih => exact ih (step_allSaved hs)

theorem StoreState.Fresh.allSaved (h : s.Fresh) : host.AllSaved s.disk := by
  intro id hid
  rw [h.1] at hid
  exact absurd rfl hid

/-! ### Reading -/

theorem Host.SavedAs.get_total (h : host.SavedAs w id record) (hfits : host.Fits record) :
    (host.get id).Total (fun r w' => r = record ∧ w' = w) w := by
  obtain ⟨data, hdata, hwritten⟩ := h.written
  have hread : w.apply (.readItem (.json id)) = (.ok data, w) := by
    rw [Disk.apply, hdata]
    rfl
  have hparse : host.parseRecord id data = .ok record := by
    have hsize : ¬ data.length > maxRecordBytes := not_lt.mpr (hfits data hwritten)
    have hsame : ¬ (record.id ≠ id ∨ record.formatVersion ≠ recordFormatVersion) := by simp [h.named, h.version]
    simp only [Host.parseRecord, refuseIf, if_neg hsize, host.records.fromSlice_toVecPretty record data hwritten]
    exact (congrArg (· >>= fun _ => Except.ok record) (if_neg hsame)).trans rfl
  refine Prog.total_request_bind hread ?_
  rw [hparse]
  exact ⟨rfl, rfl⟩

/-- A record that is too large is not read. -/
theorem Host.SavedAs.fits_of_get (h : host.SavedAs w id record) (hget : (host.get id).run anyFails [] w = (.ok record, w)) :
    host.Fits record := by
  obtain ⟨data, hdata, hwritten⟩ := h.written
  have hreturns : (host.get id).Returns anyFails (fun _ _ => data.length ≤ maxRecordBytes) w := by
    refine Prog.Returns.bind (Prog.returns_request fun data' _ hread => Prog.returns_ofExcept fun r hr => ?_)
    obtain ⟨hdata', -⟩ := readItem_eq_ok hread
    obtain rfl : data = data' := Option.some.inj (hdata.symm.trans hdata')
    simp only [Host.parseRecord, except_bind_eq_ok, refuseIf_eq_ok] at hr
    obtain ⟨-, hsize, -⟩ := hr
    exact not_lt.mp hsize
  intro data' hwritten'
  obtain rfl : data = data' := Except.ok.inj (hwritten.symm.trans hwritten')
  exact hreturns.of_run hget

/-- All records are small enough to be read. -/
def Host.AllFit (host : Host) (w : Disk) : Prop := ∀ id record, host.SavedAs w id record → host.Fits record

/-- The record under a name that is listed. -/
theorem exists_saved_of_mem (hsaved : host.AllSaved w) (hid : .json id ∈ w.items.keys) :
    ∃ record, host.SavedAs w id record :=
  hsaved id (Option.isSome_iff_ne_none.mp (AList.lookup_isSome.mpr hid))

theorem Host.SavedAs.mem_keys (h : host.SavedAs w id record) : .json id ∈ w.items.keys := by
  obtain ⟨data, hdata, -⟩ := h.written
  exact AList.mem_keys.mp (AList.lookup_isSome.mp (by simp [hdata]))

theorem Host.SavedAs.unique {record' : QuarantineRecord} (h : host.SavedAs w id record) (h' : host.SavedAs w id record') :
    record = record' := Option.some.inj (h.recordAt.symm.trans h'.recordAt)

theorem list_total (hsaved : host.AllSaved w) (hfits : host.AllFit w) :
    host.list.Total (fun records w' => w' = w ∧ ∀ record, record ∈ records ↔ host.SavedAs w record.id record) w := by
  -- the loop has collected the records under the names it went through
  let J (out : List QuarantineRecord) (rest : List ItemFile) (w' : Disk) : Prop :=
    w' = w ∧ ∃ done, done ++ rest = w.items.keys ∧
      ∀ record, record ∈ out ↔ .json record.id ∈ done ∧ host.SavedAs w record.id record
  have hloop : (Prog.forEach host.collectRecord [] w.items.keys).Total (fun out w' => J out [] w') w := by
    apply Prog.meets_forEach
    · intro out f rest w' hinv
      obtain ⟨rfl, done, hnames, hout⟩ := hinv
      have hnext : (done ++ [f]) ++ rest = w'.items.keys := by rw [List.append_assoc]; exact hnames
      cases f with
      | json id =>
        have hmem : ItemFile.json id ∈ w'.items.keys := by simp [← hnames]
        obtain ⟨record, hrecord⟩ := exists_saved_of_mem hsaved hmem
        refine Prog.meets_bind.mpr ((hrecord.get_total (hfits id record hrecord)).mono (fun _ h => h) (fun _ _ h => h) ?_)
        rintro r w'' ⟨rfl, rfl⟩
        refine ⟨rfl, done ++ [.json id], hnext, fun r' => ?_⟩
        rw [List.mem_append, List.mem_singleton, hout, List.mem_append, List.mem_singleton, ItemFile.json.injEq]
        constructor
        · intro hr'
          cases hr' with
          | inl hr' => exact ⟨.inl hr'.1, hr'.2⟩
          | inr hr' =>
            rw [hr', hrecord.named]
            exact ⟨.inr rfl, hrecord⟩
        · intro hr'
          obtain ⟨hdone, hsaved'⟩ := hr'
          cases hdone with
          | inl hdone => exact .inl ⟨hdone, hsaved'⟩
          | inr hid =>
            rw [hid] at hsaved'
            exact .inr (hsaved'.unique hrecord)
      | data id | dataTmp id | jsonTmp id =>
        refine ⟨rfl, _, hnext, fun r => ?_⟩
        simp [hout]
    · exact ⟨rfl, [], rfl, by simp⟩
  refine Prog.total_request_bind rfl (Prog.meets_bind.mpr (hloop.mono (fun _ h => h) (fun _ _ h => h) ?_))
  rintro out w' ⟨rfl, done, hnames, hout⟩
  rw [List.append_nil] at hnames
  refine ⟨rfl, fun record => ?_⟩
  rw [(stableSort_perm _ out).mem_iff, hout, hnames]
  exact and_iff_right_of_imp fun h => h.mem_keys

/-! ### Opening the store -/

/-- The result of a program that is looked at is one, whatever it is. -/
theorem attempt_total {ε α : Type} (p : StoreProg α) :
    (p.attempt : Prog storeSystem ε (Except RemediationError α)).Total (fun _ _ => True) w := by
  have hany : p.Returns (fun _ => false) (fun _ _ => True) w := Prog.returns_const trivial p
  exact Prog.meets_attempt.mpr (hany.mono fun _ _ h => h)

theorem resolvePending_total : (host.resolvePending record).Total (fun _ _ => True) w := by
  have hpresent : (host.originalPresent record).Total (fun _ _ => True) w := by
    unfold Host.originalPresent
    split
    · trivial
    · refine Prog.meets_ask_bind (fun _ => trivial) nofun fun r w' _ => ?_
      cases r <;> trivial
  have hverified {w : Disk} : (host.copyVerified record).Total (fun _ _ => True) w := by
    unfold Host.copyVerified
    split
    · trivial
    · refine Prog.meets_bind.mpr ((attempt_total _).mono (fun _ h => h) (fun _ _ h => h) fun r w' _ => ?_)
      cases r <;> trivial
  refine Prog.meets_bind.mpr (hpresent.mono (fun _ h => h) (fun _ _ h => h) fun present w' _ => ?_)
  split
  · exact ⟨fun _ => trivial, nofun, fun _ => trivial, nofun, fun _ => trivial, nofun, trivial⟩
  · refine Prog.meets_bind.mpr (hverified.mono (fun _ h => h) (fun _ _ h => h) fun verified w'' _ => ?_)
    split
    · exact ⟨fun _ => trivial, nofun, trivial⟩
    · trivial

theorem recoverItem_total {now : Now} {store : QuarantineStore} (hlog : host.CanLog) (hwritable : record.Writable) :
    (host.recoverItem now store record).Total (fun _ _ => True) w := by
  refine Prog.meets_bind.mpr (resolvePending_total.mono (fun _ h => h) (fun _ _ h => h) fun resolved w₁ _ => ?_)
  obtain ⟨outcome, detail⟩ := resolved
  have hsaved {r : QuarantineRecord} (hr : r.Writable) : (host.save r).Total (fun _ _ => True) w₁ :=
    save_total ((host.records.toVecPretty_writable r).mp hr)
  refine Prog.meets_bind.mpr ((hsaved (by exact ⟨hwritable.1, now.2, hwritable.2.2⟩)).mono (fun _ h => h) (fun _ _ h => h) ?_)
  intro _ w₂ _
  exact Prog.meets_bind.mpr ((auditEvent_total hlog).mono (fun _ h => h) (fun _ _ h => h) fun _ _ _ => trivial)

theorem openStore_total (now : Now) {head : ChainHead} (hlog : host.CanLog)
    (hverified : verifyChain host.sha256 host.entries w.audit = .ok head) (hsaved : host.AllSaved w)
    (hfits : host.AllFit w) : (host.openStore now).Total (fun _ _ => True) w := by
  refine Prog.total_request_bind rfl (Prog.total_ofExcept_bind (a := head) ?_ (Prog.total_request_bind rfl ?_))
  · rw [hverified]
    rfl
  -- what is pending was written
  have hcollect : (Prog.forEach host.collectPending [] w.items.keys).Total
      (fun pending _ => ∀ r ∈ pending, QuarantineRecord.Writable r) w := by
    refine (Prog.meets_forEach (I := fun pending rest w' => w' = w ∧ (∀ f ∈ rest, f ∈ w.items.keys) ∧
      ∀ r ∈ pending, QuarantineRecord.Writable r) ?_ ⟨rfl, fun _ h => h, fun _ hr => absurd hr List.not_mem_nil⟩).mono
      (fun _ h => h) (fun _ _ h => h) fun _ _ h => h.2.2
    rintro pending f rest w' ⟨rfl, hrest, hpending⟩
    have hrest' : ∀ f ∈ rest, f ∈ w'.items.keys := fun f hf => hrest f (List.mem_cons_of_mem _ hf)
    cases f with
    | json id =>
      obtain ⟨record, hrecord⟩ := exists_saved_of_mem hsaved (hrest _ List.mem_cons_self)
      refine Prog.meets_bind.mpr ((hrecord.get_total (hfits id record hrecord)).mono (fun _ h => h) (fun _ _ h => h) ?_)
      rintro r w'' ⟨rfl, rfl⟩
      have hwritable : r.Writable := by
        obtain ⟨data, -, hwritten⟩ := hrecord.written
        exact (host.records.toVecPretty_writable r).mpr ⟨data, hwritten⟩
      refine ⟨rfl, hrest', fun r' hr' => ?_⟩
      split at hr'
      · cases List.mem_append.mp hr' with
        | inl hr' => exact hpending r' hr'
        | inr hr' => exact List.mem_singleton.mp hr' ▸ hwritable
      · exact hpending r' hr'
    | data id | dataTmp id | jsonTmp id => exact ⟨rfl, hrest', hpending⟩
  refine Prog.meets_bind.mpr (hcollect.mono (fun _ h => h) (fun _ _ h => h) fun pending w₁ hpending => ?_)
  have hrecover {store : QuarantineStore} : (Prog.forEach (host.recoverItem now) store pending).Total
      (fun _ _ => True) w₁ := by
    refine (Prog.meets_forEach (I := fun _ rest _ => ∀ r ∈ rest, QuarantineRecord.Writable r) ?_ hpending).mono
      (fun _ h => h) (fun _ _ h => h) fun _ _ _ => trivial
    intro store r rest w' hrest
    refine (recoverItem_total hlog (hrest r List.mem_cons_self)).mono (fun _ h => h) (fun _ _ h => h) ?_
    exact fun _ _ _ r' hr' => hrest r' (List.mem_cons_of_mem _ hr')
  refine Prog.meets_bind.mpr (hrecover.mono (fun _ h => h) (fun _ _ h => h) fun store w₂ _ => ?_)
  refine Prog.total_request_bind rfl (Prog.meets_bind.mpr ((Prog.meets_forEach (I := fun _ _ _ => True) ?_ trivial).mono
    (fun _ h => h) (fun _ _ h => h) fun _ _ _ => trivial))
  intro _ f rest w' _
  have hremove (f : ItemFile) {w' : Disk} : (StoreCall.ignored (.removeItem f)).Total (fun _ _ => True) w' :=
    ⟨fun _ => trivial, nofun, trivial⟩
  cases f with
  | jsonTmp id => exact hremove _
  | dataTmp id =>
    refine Prog.meets_bind.mpr ((attempt_total _).mono (fun _ h => h) (fun _ _ h => h) fun r w'' _ => ?_)
    cases r with
    | ok record => trivial
    | error e => exact hremove _
  | data id | json id => trivial

/-- In every state of every run, the records that were saved are read back if and only if none of them is larger
than what is read. -/
theorem saved_records_read_back_iff (host : Host) (hlog : host.CanLog) (mayFail : StoreCall → Bool) (s : StoreState)
    (hs : s.Fresh) (evs : List StoreEvent) :
    host.ReadsBack (host.runEvents mayFail s evs).disk ↔ host.AllFit (host.runEvents mayFail s evs).disk := by
  have hsaved : host.AllSaved (host.runEvents mayFail s evs).disk := run_allSaved hs.allSaved
  generalize (host.runEvents mayFail s evs).disk = w at hsaved ⊢
  constructor
  · exact fun h id record hrecord => hrecord.fits_of_get (h.get id record hrecord)
  · intro hfits
    refine ⟨hsaved, fun id record hrecord => ?_, ?_, fun head hhead now => ?_⟩
    · obtain ⟨r, w', hrun, rfl, rfl⟩ := (hrecord.get_total (hfits id record hrecord)).run anyFails
      exact hrun
    · obtain ⟨records, w', hrun, rfl, hrecords⟩ := (list_total hsaved hfits).run anyFails
      exact ⟨records, hrun, hrecords⟩
    · obtain ⟨store, w', hrun, -⟩ := (openStore_total now hlog hhead hsaved hfits).run anyFails
      exact ⟨store, w', hrun⟩

/-! ### A call that nothing disturbs -/

variable {st : FileNode} {parent : NativePath} {key : FileKey}

theorem storeCopy_total (hexpected : req.expectedSha256 = none) (hnew : w.items.lookup (.dataTmp d.id) = none)
    (hsize : st.content.length ≤ req.maxSize)
    (hwritable : (host.pendingRecord req d st (host.sha256 st.content) st.content.length).Writable) :
    (host.storeCopy req d st).Total (fun _ _ => True) w := by
  have hcopy : (host.copyOriginal req d st).Total (fun _ _ => True) w := by
    unfold Host.copyOriginal
    have hwrite : ((host.writeEncoded d.id st.content d.key.1 req.maxSize req.path).orCleanup
        (StoreCall.removeItem (.dataTmp d.id)).ignored).Total (fun _ _ => True) w :=
      Prog.meets_bind.mpr (Prog.meets_attempt.mpr ((writeEncoded_total host _ _ hnew hsize).mono (fun _ h => h) (fun _ _ h => h.elim)
        fun _ _ _ => trivial))
    refine Prog.meets_bind.mpr (hwrite.mono (fun _ h => h) (fun _ _ h => h) fun r w' _ => ?_)
    rw [hexpected]
    trivial
  refine Prog.meets_bind.mpr ((hcopy.and copyOriginal_returns).mono (fun _ _ => trivial) (fun _ _ h => h.1) ?_)
  rintro r w₁ ⟨-, htmp, hr, -⟩
  rw [hr]
  have hsave := save_total (w := w₁) ((host.records.toVecPretty_writable _).mp hwritable)
  refine Prog.meets_bind.mpr ((hsave.and save_returns).mono (fun _ _ => trivial) (fun _ _ h => h.1) ?_)
  rintro _ w₂ ⟨-, data, -, -, hother⟩
  have hrename : w₂.apply (.renameItem (.dataTmp d.id) (.data d.id)) =
      (.ok (), (w₂.eraseItem (.dataTmp d.id)).setItem (.data d.id) (encoded d.key.1 st.content)) := by
    rw [Disk.apply, Disk.renameItem, hother _ (by simp) (by simp), htmp]
  exact Prog.total_request_bind hrename (Prog.total_request_bind rfl trivial)

theorem removeOriginal_total (hst : w.outside key = some st) (hdev : record.original.dev = st.dev)
    (hino : record.original.ino = st.ino) : (host.removeOriginal req d record key).Total (fun _ _ => True) w := by
  refine Prog.meets_ask_bind (fun _ => trivial) (fun h => by cases h) fun r w' happly => ?_
  obtain ⟨rfl, rfl⟩ := Prod.mk.inj ((Disk.statFile_apply hst).symm.trans happly)
  dsimp only
  rw [if_neg (by simp [hdev, hino])]
  refine Prog.meets_ask_bind (fun _ => trivial) (fun h => by cases h) fun r w' happly => ?_
  obtain ⟨rfl, rfl⟩ := Prod.mk.inj ((Disk.removeFile_apply hst).symm.trans happly)
  trivial

theorem finishQuarantine_total (hlog : host.CanLog) (hwritable : (takenRecord req d record).Writable) :
    (host.finishQuarantine store req d parent record).Total (fun _ _ => True) w := by
  have hsave {w : Disk} := save_total (w := w) ((host.records.toVecPretty_writable (takenRecord req d record)).mp hwritable)
  refine Prog.total_request_bind rfl (Prog.meets_bind.mpr (hsave.mono (fun _ h => h) (fun _ _ h => h) fun _ w' _ => ?_))
  exact Prog.meets_bind.mpr ((auditEvent_total hlog).mono (fun _ h => h) (fun _ _ h => h) fun _ _ _ => trivial)

/-- A file that passes the checks is quarantined when nothing disturbs it, and its record is on disk. -/
theorem quarantine_total (store : QuarantineStore) (hlog : host.CanLog) (hexpected : req.expectedSha256 = none) (hnew : w.NewItem d.id)
    (hopen : (host.openOriginal req).Total (fun r w' => r = (parent, key, st) ∧ w' = w) w)
    (hsize : st.content.length ≤ req.maxSize) (hst : w.outside key = some st)
    (hwritable : (host.pendingRecord req d st (host.sha256 st.content) st.content.length).Writable) :
    (host.quarantine store req d).Total (fun _ w' => host.recordAt w' d.id =
      some (takenRecord req d (host.pendingRecord req d st (host.sha256 st.content) st.content.length))) w := by
  unfold Host.quarantine
  refine Prog.meets_bind.mpr (Prog.meets_attempt.mpr ?_)
  rw [quarantineInner_eq]
  refine Prog.meets_bind.mpr (hopen.mono (fun _ h => h) (fun _ _ h => h.elim) ?_)
  rintro r w' ⟨rfl, rfl⟩
  -- the copy is made, the original removed, and the final record written
  have hcopy := storeCopy_total hexpected (hnew _ rfl) hsize hwritable
  refine Prog.meets_bind.mpr (((hcopy.and storeCopy_returns).and (storeCopy_calls.meets (keeps_sameButItem w')
    (.refl _ w'))).mono (fun _ _ => trivial) (fun _ _ h => h.1.1.elim) ?_)
  rintro record w₁ ⟨⟨-, hrecord, -⟩, hsame⟩
  have hst₁ : w₁.outside key = some st := by rw [hsame.outside, hst]
  refine Prog.meets_bind.mpr ((removeOriginal_total hst₁ ?_ ?_).mono (fun _ h => h) (fun _ _ h => h.elim) fun _ w₂ _ => ?_)
  · rw [hrecord]
    rfl
  · rw [hrecord]
    rfl
  · have htaken : (takenRecord req d record).Writable := by
      rw [hrecord]
      exact ⟨hwritable.1, d.later.2, hwritable.2.2⟩
    refine (((finishQuarantine_total hlog htaken).and finishQuarantine_returns)).mono (fun _ _ => trivial)
      (fun _ _ h => h.1.elim) ?_
    rintro r w₃ ⟨-, hr, hat⟩
    rw [hrecord] at hr hat
    rw [← hr]
    exact hat

/-! ### A sample -/

def sampleEntries : EntryCodec :=
  EntryCodec.ofTableOrBlanks [(sampleEntry, sampleLine)] sampleEntries_nodup sampleEntries_oneLine (by decide)

theorem sampleEntries_writes (entry : AuditEntry) (htime : entry.time.Rfc3339) :
    ∃ line, sampleEntries.toVec entry = .ok line :=
  EntryCodec.ofTableOrBlanks_writes (by decide +kernel) (by decide +kernel) (by decide +kernel) entry htime

def readingHost : Host := rootHost sampleDigests sampleRecords sampleEntries

/-- The sample is quarantined, and its record is read back. -/
theorem saved_sample_read_back :
    readingHost.recordAt (readingHost.runEvents anyFails sampleState [.reopen sampleNow [], quarantineSample 0 []]).disk
        sampleId = some (sampleRecord .quarantined) ∧
      readingHost.ReadsBack
        (readingHost.runEvents anyFails sampleState [.reopen sampleNow [], quarantineSample 0 []]).disk := by
  have hsmall : readingHost.recordAt
      (readingHost.runEvents anyFails sampleState [.reopen sampleNow [], quarantineSample 0 []]).disk sampleId =
        some (sampleRecord .quarantined) ∧
      ∀ f ∈ (readingHost.runEvents anyFails sampleState [.reopen sampleNow [], quarantineSample 0 []]).disk.items.keys,
        ((readingHost.runEvents anyFails sampleState [.reopen sampleNow [], quarantineSample 0 []]).disk.items.lookup
          f).all fun data => data.length ≤ maxRecordBytes := by decide +kernel
  refine ⟨hsmall.1, (saved_records_read_back_iff readingHost sampleEntries_writes anyFails sampleState ⟨rfl, rfl⟩
    [.reopen sampleNow [], quarantineSample 0 []]).mpr fun id record hrecord => ?_⟩
  have hlength := hsmall.2 _ hrecord.mem_keys
  obtain ⟨data, hdata, hwritten⟩ := hrecord.written
  intro data' hwritten'
  obtain rfl : data = data' := Except.ok.inj (hwritten.symm.trans hwritten')
  rw [hdata] at hlength
  simpa using hlength

/-! ### A long reason -/

/-- A note as long as what is read of a record. -/
@[irreducible] def longReason : QuarantineReason :=
  ⟨none, none, none, none, none, some (String.ofList (List.replicate maxRecordBytes 'a'))⟩

def longRequest : QuarantineRequest := { sampleRequest with reason := longReason }

/-- The record of the sample in a state, with the note. -/
def longRecord (state : ItemState) : QuarantineRecord := { sampleRecord state with reason := longReason }

@[irreducible] def longJson (state : String) : Bytes :=
  ("\x7b\n  \"format_version\": 1,\n  \"id\": \"0123456789abcdef0123456789abcdef\",\n  \"state\": \"" ++
  state ++ "\",\n  \"original\": \x7b\n    \"path\": \x7b\n      \"text\": \"/home/user/sample.bin\"\n" ++
  "    \x7d,\n    \"size\": 2,\n    \"sha256\": " ++
  "\"9b8db510ef42b8ed54a3712636fda55a4f8cfcd5493e20b74ab00cd4f3979f2d\",\n    \"mode\": 420,\n" ++
  "    \"uid\": 1000,\n    \"gid\": 1000,\n    \"dev\": 1,\n    \"ino\": 7,\n" ++
  "    \"modified\": \"1970-01-01T00:00:00Z\"\n  \x7d,\n  \"key_hex\": " ++
  "\"000102030405060708090a0b0c0d0e0f101112131415161718191a1b1c1d1e1f\",\n  \"reason\": \x7b\n" ++
  "    \"note\": \"").toUTF8.data.toList ++ (List.replicate maxRecordBytes 0x61 ++
  ("\"\n  \x7d,\n  \"actor_uid\": 0,\n  \"created_at\": \"1970-01-01T00:00:00Z\",\n" ++
  "  \"updated_at\": \"1970-01-01T00:00:00Z\"\n\x7d").toUTF8.data.toList)

theorem longJson_length (state : String) : maxRecordBytes < (longJson state).length := by
  have hend : 0 < ("\"\n  \x7d,\n  \"actor_uid\": 0,\n  \"created_at\": \"1970-01-01T00:00:00Z\",\n" ++
    "  \"updated_at\": \"1970-01-01T00:00:00Z\"\n\x7d").toUTF8.data.toList.length := by decide
  unfold longJson
  rw [List.length_append, List.length_append, List.length_replicate]
  omega

theorem longRecord_writable (state : ItemState) : (longRecord state).Writable :=
  (by decide : (sampleRecord .pending).Writable)

def longTable : List (QuarantineRecord × Bytes) :=
  [(longRecord .pending, longJson "pending"), (longRecord .quarantined, longJson "quarantined")]

theorem longTable_nodup : (longTable.map Prod.snd).Nodup := by
  have hne : longJson "pending" ≠ longJson "quarantined" := by
    intro h
    have htake := congrArg (List.take 90) h
    revert htake
    decide +kernel
  simp [longTable, hne]

theorem longTable_writable : ∀ p ∈ longTable, p.1.Writable := by
  simp [longTable, longRecord_writable]

theorem longTable_brace : ∀ p ∈ longTable, p.2.head? = some 0x7B := by
  decide +kernel

def longHost : Host :=
  rootHost sampleDigests (RecordCodec.ofTable longTable longTable_nodup longTable_writable longTable_brace) sampleEntries

theorem longHost_canLog : longHost.CanLog := sampleEntries_writes

/-- The file of the sample passes the checks. -/
theorem openOriginal_long : (longHost.openOriginal longRequest).Total
    (fun r w' => r = (homeDir, sampleKey, sampleFile) ∧ w' = sampleState.disk) sampleState.disk := by
  have hsplit : splitChecked longRequest.path = .ok (homeDir, NativePath.ofString "sample.bin") :=
    eq_ok_of_toOption (by decide)
  have hkey : homeDir.components ++ [NativePath.ofString "sample.bin"] = sampleKey := by decide
  have hread : sampleState.disk.apply (.openFile sampleKey) = (.ok sampleFile, sampleState.disk) := rfl
  unfold Host.openOriginal
  refine Prog.total_ofExcept_bind hsplit (total_refuse (by decide) (total_refuse (by decide) ?_))
  refine Prog.total_ofExcept_bind (a := ⟨1, 4, 0o755, 0⟩) rfl (Prog.total_ofExcept_bind (a := ()) rfl ?_)
  dsimp only
  rw [hkey]
  refine Prog.total_request_bind hread (total_refuse (by decide) (total_refuse (by decide) (total_refuse (by decide) ?_)))
  exact ⟨rfl, rfl⟩

theorem pendingRecord_long : longHost.pendingRecord longRequest sampleDraws sampleFile
    (longHost.sha256 sampleFile.content) sampleFile.content.length = longRecord .pending := by
  have hsample : sampleHost.pendingRecord sampleRequest sampleDraws sampleFile (sampleHost.sha256 sampleFile.content)
      sampleFile.content.length = sampleRecord .pending := by decide
  exact congrArg (fun record => { record with reason := longReason }) hsample

/-- The run in which the sample is quarantined with the note. -/
@[irreducible] def longRun : StoreState := longHost.runEvents anyFails sampleState
  [.reopen sampleNow [], .call (.quarantine longRequest sampleDraws) []]

theorem step_reopen_ok {now : Now} {faults : List (Fault Errno)}
    (h : (host.openStore now).run mayFail faults s.disk = (.ok store, w)) :
    host.step mayFail s (.reopen now faults) = ⟨w, some store⟩ := by
  rw [Host.step, h]

theorem step_call_ok {op : StoreOp} {faults : List (Fault Errno)} {store' : QuarantineStore}
    (hs : s.store = some store) (h : (host.callOp store op).run mayFail faults s.disk = (.ok store', w)) :
    host.step mayFail s (.call op faults) = ⟨w, some store'⟩ := by
  rw [Host.step, hs]
  dsimp only
  rw [h]

theorem run_two {s₁ s₂ : StoreState} {ev ev' : StoreEvent} (h : host.step mayFail s ev = s₁)
    (h' : host.step mayFail s₁ ev' = s₂) : host.runEvents mayFail s [ev, ev'] = s₂ := by
  rw [Host.runEvents, List.foldl_cons, List.foldl_cons, List.foldl_nil, h, h']

theorem longRun_recordAt : longHost.recordAt longRun.disk sampleId = some (longRecord .quarantined) := by
  have hverified : verifyChain longHost.sha256 longHost.entries sampleState.disk.audit = .ok .genesis := by
    change (walkChain _ _ _ _ []).map Prod.fst = _
    rw [walkChain_nil]
    rfl
  -- the store is empty, so opening it recovers nothing
  have hopen : (longHost.openStore sampleNow).Total (fun store w' => store = newStore ∧ w' = sampleState.disk)
      sampleState.disk := by
    refine Prog.total_request_bind rfl (Prog.total_ofExcept_bind (a := .genesis) ?_ (Prog.total_request_bind rfl ?_))
    · rw [hverified]
      rfl
    · exact Prog.total_request_bind (s := sampleState.disk) rfl ⟨rfl, rfl⟩
  have hsize : sampleFile.content.length ≤ longRequest.maxSize := by decide
  have hwritable : (longHost.pendingRecord longRequest sampleDraws sampleFile (longHost.sha256 sampleFile.content)
      sampleFile.content.length).Writable := by
    rw [pendingRecord_long]
    exact longRecord_writable _
  -- no call fails: the quarantine returns, with the long record written
  have hquarantine := quarantine_total newStore longHost_canLog rfl (fun _ _ => rfl) openOriginal_long hsize rfl
    hwritable
  obtain ⟨_, _, hopened, rfl, rfl⟩ := hopen.run anyFails
  obtain ⟨r, w', hrun, hrecord⟩ := hquarantine.run anyFails
  have hcall : (longHost.callOp newStore (.quarantine longRequest sampleDraws)).run anyFails [] sampleState.disk =
      (.ok r.1, w') := by
    change (Prog.bind (S := storeSystem) _ _).run anyFails [] sampleState.disk = _
    rw [Prog.run_nil_bind, hrun]
    rfl
  have hfirst : longHost.step anyFails sampleState (.reopen sampleNow []) = ⟨sampleState.disk, some newStore⟩ :=
    step_reopen_ok hopened
  have hsecond : longHost.step anyFails ⟨sampleState.disk, some newStore⟩
      (.call (.quarantine longRequest sampleDraws) []) = ⟨w', some r.1⟩ := step_call_ok rfl hcall
  have hrun : longRun = ⟨w', some r.1⟩ := by
    rw [longRun]
    exact run_two hfirst hsecond
  rw [hrun]
  rw [pendingRecord_long] at hrecord
  exact hrecord

theorem toVecPretty_ofTable {table : List (QuarantineRecord × Bytes)} (hnodup : (table.map Prod.snd).Nodup)
    (hwritable : ∀ p ∈ table, p.1.Writable) (hbrace : ∀ p ∈ table, p.2.head? = some 0x7B)
    {p : QuarantineRecord × Bytes} (h : table.find? (·.1 = record) = some p) :
    (RecordCodec.ofTable table hnodup hwritable hbrace).toVecPretty record = .ok p.2 := by
  simp only [RecordCodec.ofTable, h]

/-- What `get` makes of a record that is too large. -/
theorem get_tooLarge {data : Bytes} (hdata : w.items.lookup (.json id) = some data) (hsize : maxRecordBytes < data.length) :
    (host.get id).run mayFail [] w = (.error (.corrupt id "record too large"), w) := by
  have hread : w.apply (.readItem (.json id)) = (.ok data, w) := by
    rw [Disk.apply, hdata]
    rfl
  have hparse : host.parseRecord id data = .error (.corrupt id "record too large") := by
    rw [Host.parseRecord, refuseIf, if_pos hsize]
    rfl
  change ((Prog.ofExcept ((w.apply (.readItem (.json id))).1.mapError _)).bind fun data =>
    Prog.ofExcept (host.parseRecord id data)).run (S := storeSystem) mayFail [] (w.apply (.readItem (.json id))).2 = _
  rw [hread]
  change (Prog.ofExcept (host.parseRecord id data)).run (S := storeSystem) mayFail [] w = _
  rw [hparse]
  rfl

/-- The sample is quarantined with a note as long as what is read. The call succeeds, and the record it saved is
not read back. -/
theorem long_reason_unreadable : longHost.SavedAs longRun.disk sampleId (longRecord .quarantined) ∧
    (longHost.get sampleId).run anyFails [] longRun.disk = (.error (.corrupt sampleId "record too large"), longRun.disk) ∧
      ¬ longHost.ReadsBack longRun.disk := by
  have hsaved : longHost.AllSaved longRun.disk := by
    rw [longRun]
    exact run_allSaved (StoreState.Fresh.allSaved ⟨rfl, rfl⟩)
  obtain ⟨data, hdata, -⟩ := recordAt_eq_some longRun_recordAt
  obtain ⟨record, hrecord⟩ := hsaved sampleId (by simp [hdata])
  obtain rfl : record = longRecord .quarantined := Option.some.inj (hrecord.recordAt.symm.trans longRun_recordAt)
  have hjson : longHost.records.toVecPretty (longRecord .quarantined) = .ok (longJson "quarantined") := by
    have hne : longRecord .pending ≠ longRecord .quarantined := by
      intro h
      cases congrArg QuarantineRecord.state h
    refine toVecPretty_ofTable longTable_nodup longTable_writable longTable_brace
      (p := (longRecord .quarantined, longJson "quarantined")) ?_
    rw [longTable, List.find?_cons_of_neg (by simpa using hne), List.find?_cons_of_pos (by simp)]
  have hread : longRun.disk.items.lookup (.json sampleId) = some (longJson "quarantined") := by
    obtain ⟨data', hdata', hwritten⟩ := hrecord.written
    rw [hdata', Except.ok.inj (hwritten.symm.trans hjson)]
  refine ⟨hrecord, get_tooLarge hread (longJson_length _), fun h => ?_⟩
  have hfits := hrecord.fits_of_get (h.get sampleId _ hrecord)
  exact absurd (hfits _ hjson) (not_le.mpr (longJson_length _))

end AbyssalWarden

import AbyssalWarden.FaultFree

/-! What is left of a restore that is stopped in one of its calls. -/
namespace AbyssalWarden

/-- A quarantined item with its copy, and a safe directory to put it into. -/
structure Host.Restorable (host : Host) (w : Disk) (id : QuarantineId) (destDir : Option NativePath)
    (record : QuarantineRecord) (dir : NativePath) (name : Bytes) (target : NativePath) (content : Bytes) : Prop where
  read : ∃ data, w.items.lookup (.json id) = some data ∧ host.parseRecord id data = .ok record
  quarantined : record.state = .quarantined
  written : ∃ data, host.records.toVecPretty record = .ok data
  leads : Host.restoreTarget id record destDir = .ok (dir, name, target)
  safe : host.checkTargetDir record dir target = .ok ()
  stored : host.StoredAs w id content

/-- The part of a restore after its checks. -/
def Host.putBack (host : Host) (id : QuarantineId) (record : QuarantineRecord) (key : Bytes) (dir : NativePath)
    (name : Bytes) (target : NativePath) (d : Draws) : StoreProg NativePath := do
  let tmp := dir.components ++ [restoreTmp id]
  (StoreCall.createFile tmp
    { kind := .regular, content := [], dev := d.dev, ino := d.inode, mode := 0o600,
      uid := host.euid, gid := d.gid, nlink := 1, mtime := d.mtime }).orErr
    (.io "create" (dir.join (restoreTmp id)))
  (host.writeRestored id record key tmp target).orCleanup (StoreCall.removeFile tmp).ignored
  commitRestored tmp (dir.components ++ [name]) target
  (StoreCall.syncDir dir.components).orErr (.io "sync" dir)
  (StoreCall.removeItem (.data id)).orErr (.io "remove" (host.itemPath (.data id)))
  host.save { record with
    state := .restored
    updatedAt := d.later.1
    restoredTo := some (ObservedPath.fromPath target)
    notes := record.notes ++ host.restoreNotes record }
  pure target

/-- The part of a restore after its record is read. -/
def Host.restoreRecord (host : Host) (id : QuarantineId) (destDir : Option NativePath) (d : Draws)
    (record : QuarantineRecord) : StoreProg NativePath := do
  refuse (record.state ≠ .quarantined) (.invalidState id record.state)
  let (dir, name, target) ← Prog.ofExcept (restoreTarget id record destDir)
  Prog.ofExcept (host.checkTargetDir record dir target)
  match recordKey record with
  | none => Prog.throw (.corrupt id "invalid key")
  | some key => host.putBack id record key dir name target d

/-- No calls fail. -/
abbrev noneFails (_ : StoreCall) : Bool := false

variable {host : Host} {w w' w₁ : Disk} {id : QuarantineId} {destDir : Option NativePath}
  {record : QuarantineRecord} {dir target : NativePath} {name content : Bytes} {d : Draws} {tmp key : FileKey}

theorem restoreInner_eq : host.restoreInner id destDir d = (host.get id).bind (host.restoreRecord id destDir d) := rfl

namespace Host.Restorable

/-- The checks are passed. -/
theorem passes (h : host.Restorable w id destDir record dir name target content) : ∃ k file,
    Host.recordKey record = some k ∧ w.items.lookup (.data id) = some file ∧ decoded k file = some content ∧
      record.original.sha256 = host.sha256 content ∧
      host.restoreRecord id destDir d record = host.putBack id record k dir name target d := by
  obtain ⟨data, hdata, hparse⟩ := h.read
  obtain ⟨record', k, file, hrecord', hkey, hfile, hdecoded, hsha⟩ := h.stored
  have hrecord : host.recordAt w id = some record := recordAt_of_lookup hdata (parseRecord_eq_ok hparse).1
  obtain rfl : record' = record := Option.some.inj (hrecord'.symm.trans hrecord)
  refine ⟨k, file, hkey, hfile, hdecoded, hsha, ?_⟩
  have hstate : refuseIf (record'.state ≠ .quarantined) (RemediationError.invalidState id record'.state) = .ok () :=
    if_neg (not_not.mpr h.quarantined)
  unfold Host.restoreRecord
  rw [refuse, hstate, h.leads]
  change (Prog.ofExcept (host.checkTargetDir record' dir target)).bind _ = _
  rw [h.safe]
  change (match Host.recordKey record' with
    | none => _
    | some key => _) = _
  rw [hkey]

end Host.Restorable

/-! ### What a stop leaves -/

/-- The calls that a restore may be stopped in, and how far they have to come, so that neither its temporary
file is left nor the copy is gone without a record of it. -/
def StoreCall.leavesClean (targetFree : Bool) : StoreCall → ℕ → Bool
  | .readItem (.json _), _ | .syncDir _, _ | .syncItems, _ | .appendAudit _, _ | .syncAudit, _ => true
  | .createFile _ _, n | .removeItem _, n => n = 0
  | .renameNew _ _, n => n ≠ 0 && targetFree
  | .removeFile _, n | .renameItem _ _, n => n ≠ 0
  | _, _ => false

/-- A restore may be stopped here: its names do not clash, no temporary file was in its way, and the call is
one that leaves none. -/
structure CrashHarmless (w : Disk) (tmp key : FileKey) (c : StoreCall) (n : ℕ) : Prop where
  names : tmp ≠ key
  free : w.outside tmp = none
  call : c.leavesClean (w.outside key).isNone n = true

/-- The item is as it was. -/
structure SameItem (id : QuarantineId) (w w' : Disk) : Prop where
  json : w'.items.lookup (.json id) = w.items.lookup (.json id)
  data : w'.items.lookup (.data id) = w.items.lookup (.data id)

/-- Nothing is in the way of another restore. -/
structure CanRetry (id : QuarantineId) (tmp key : FileKey) (w w' : Disk) : Prop extends SameItem id w w' where
  names : tmp ≠ key
  free : w'.outside tmp = none

/-- The item is recorded as restored, and its content is at the target. -/
def Host.HasRestored (host : Host) (id : QuarantineId) (key : FileKey) (content : Bytes) (w : Disk) : Prop :=
  ∃ record, host.recordAt w id = some record ∧ record.state = .restored ∧ w.contentAt key = some content

/-- The item is recorded as it was, and another restore cannot succeed. -/
structure IsStuck (id : QuarantineId) (tmp key : FileKey) (w w' : Disk) : Prop where
  json : w'.items.lookup (.json id) = w.items.lookup (.json id)
  stuck : w'.outside tmp ≠ none ∨ w'.items.lookup (.data id) = none ∨ tmp = key

/-- What is left when a restore is stopped in a call. -/
def Host.StopLeaves (host : Host) (id : QuarantineId) (tmp key : FileKey) (content : Bytes) (w : Disk)
    (c : StoreCall) (n : ℕ) (w' : Disk) : Prop :=
  CrashHarmless w tmp key c n ∧ (CanRetry id tmp key w w' ∨ host.HasRestored id key content w') ∨
    ¬ CrashHarmless w tmp key c n ∧ IsStuck id tmp key w w'

variable {c : StoreCall} {n : ℕ}

theorem not_harmless (hc : c.leavesClean (w.outside key).isNone n = false) : ¬ CrashHarmless w tmp key c n :=
  fun h => Bool.false_ne_true (hc.symm.trans h.call)

theorem Host.StopLeaves.stuck (hjson : w'.items.lookup (.json id) = w.items.lookup (.json id))
    (hstuck : w'.outside tmp ≠ none ∨ w'.items.lookup (.data id) = none)
    (hc : ¬ CrashHarmless w tmp key c n) : host.StopLeaves id tmp key content w c n w' :=
  .inr ⟨hc, hjson, hstuck.imp_right .inl⟩

theorem Host.StopLeaves.ready (hitem : SameItem id w w') (htmp : w.outside tmp = none) (htmp' : w'.outside tmp = none)
    (hc : tmp ≠ key → c.leavesClean (w.outside key).isNone n = true) :
    host.StopLeaves id tmp key content w c n w' := by
  by_cases hne : tmp = key
  · exact .inr ⟨fun h => h.names hne, hitem.json, .inr (.inr hne)⟩
  · exact .inl ⟨⟨hne, htmp, hc hne⟩, .inl ⟨hitem, hne, htmp'⟩⟩

theorem Host.StopLeaves.restored (hne : tmp ≠ key) (htmp : w.outside tmp = none)
    (hc : c.leavesClean (w.outside key).isNone n = true) (h : host.HasRestored id key content w') :
    host.StopLeaves id tmp key content w c n w' :=
  .inl ⟨⟨hne, htmp, hc⟩, .inr h⟩

/-- The call fills the temporary file. -/
def StoreCall.Fills (id : QuarantineId) (tmp : FileKey) : StoreCall → Prop
  | .readItem f => f = .data id
  | .appendFile k _ | .chmodFile k _ | .chownFile k _ _ | .syncFile k => k = tmp
  | _ => False

theorem StoreCall.Fills.leavesClean (hc : c.Fills id tmp) (free : Bool) (n : ℕ) : c.leavesClean free n = false := by
  cases c with
  | readItem f =>
    obtain rfl : f = .data id := hc
    rfl
  | appendFile k data | chmodFile k mode | chownFile k uid gid | syncFile k => rfl
  | _ => exact hc.elim

theorem StoreCall.Fills.ofFile (hc : c.Fills id tmp) : c.OfFile tmp := by
  cases c with
  | readItem f => exact ⟨nofun, nofun⟩
  | appendFile k data | chmodFile k mode | chownFile k uid gid =>
    obtain rfl : k = tmp := hc
    exact ⟨nofun, fun _ h => h⟩
  | syncFile k => exact ⟨nofun, nofun⟩
  | _ => exact hc.elim

/-- The temporary file is there, and nothing else has changed. -/
structure Filling (tmp : FileKey) (w w' : Disk) : Prop extends SameButFile tmp w w' where
  exists_tmp : w'.contentAt tmp ≠ none

theorem keeps_filling (c : StoreCall) (hc : c.Fills id tmp) : Prog.Keeps storeSystem (Filling tmp w) c := by
  have hsame := keeps_sameButFile w c hc.ofFile
  have hthere : Prog.Keeps storeSystem (fun w' => w'.contentAt tmp ≠ none) c := by
    refine keeps_of_apply (P := StoreCall.Fills id tmp) ?_ ?_ c hc
    · intro c n hc
      cases c <;> exact hc
    · intro c w' hc hw'
      cases c with
      | readItem f => exact hw'
      | appendFile k data =>
        obtain rfl : k = tmp := hc
        change (w'.appendFile k data).contentAt k ≠ none
        rw [appendFile_contentAt]
        simpa using hw'
      | chmodFile k mode | chownFile k uid gid =>
        change (w'.mapFile k _).contentAt tmp ≠ none
        rwa [mapFile_contentAt (by simp)]
      | syncFile k => exact hw'
      | _ => exact hc.elim
  have hboth := hsame.and hthere
  exact ⟨fun n s h => ⟨(hboth.torn n s ⟨h.1, h.2⟩).1, (hboth.torn n s ⟨h.1, h.2⟩).2⟩,
    fun n s h => ⟨(hboth.failed n s ⟨h.1, h.2⟩).1, (hboth.failed n s ⟨h.1, h.2⟩).2⟩,
    fun s h => ⟨(hboth.apply s ⟨h.1, h.2⟩).1, (hboth.apply s ⟨h.1, h.2⟩).2⟩⟩

theorem writeRestored_fills {k : Bytes} {path : NativePath} :
    (host.writeRestored id record k tmp path).Calls (StoreCall.Fills id tmp) := by
  have hread : StoreCall.Fills id tmp (.readItem (.data id)) := rfl
  have happend (data : Bytes) : StoreCall.Fills id tmp (.appendFile tmp data) := rfl
  have hmode : StoreCall.Fills id tmp (.chmodFile tmp (record.original.mode &&& 0o777)) := rfl
  have howner : StoreCall.Fills id tmp (.chownFile tmp record.original.uid record.original.gid) := rfl
  have hsync : StoreCall.Fills id tmp (.syncFile tmp) := rfl
  have hpiece (acc : Bytes × ℕ) (piece : Bytes) (path : NativePath) :
      (Host.decodePiece k (some tmp) path acc piece).Calls (StoreCall.Fills id tmp) := by
    unfold Host.decodePiece
    exact Prog.Calls.bind (Prog.Calls.request (happend _)) fun _ => trivial
  have hdecode : (host.decodeTo id k (some tmp)).Calls (StoreCall.Fills id tmp) := by
    refine (Prog.Calls.request hread).bind fun _ => (Prog.Calls.ofExcept _).bind fun _ => ?_
    refine (Prog.Calls.ofExcept _).bind fun _ => ?_
    exact (Prog.Calls.forEach (fun acc piece => hpiece acc piece _) _ _).bind fun _ => trivial
  unfold Host.writeRestored
  refine hdecode.bind fun _ => (Prog.Calls.ofExcept _).bind fun _ => (Prog.Calls.request hmode).bind fun _ => ?_
  split
  · exact (Prog.Calls.request howner).bind fun _ => Prog.Calls.request hsync
  · exact Prog.Calls.request hsync

/-! ### The calls of a restore -/

/-- How a restore that nothing disturbs fails: the temporary file is in its way, or the target is taken. -/
def RestoreFails (id : QuarantineId) (tmp key : FileKey) (w w' : Disk) : Prop :=
  w'.items.lookup (.json id) = w.items.lookup (.json id) ∧ w.outside tmp ≠ none ∧ w'.outside tmp ≠ none ∨
    SameItem id w w' ∧ w.outside tmp = none ∧ w'.outside tmp = none ∧ (w.outside key ≠ none ∨ tmp = key)

/-- How it succeeds. -/
structure Host.RestoreDone (host : Host) (id : QuarantineId) (tmp key : FileKey) (content : Bytes) (w w' : Disk) :
    Prop where
  names : tmp ≠ key
  free : w.outside tmp = none
  target : w.outside key = none
  restored : host.HasRestored id key content w'

theorem torn_items {f : ItemFile} (h : ¬ c.WritesItem f) : (w.torn n c).items.lookup f = w.items.lookup f := by
  cases w.torn_cases n c with
  | inl hsame => rw [hsame]
  | inr happlied =>
    rw [happlied]
    exact Disk.apply_items fun hf => h (StoreCall.cut_writesItem.mp hf)

/-- The record is saved once the copy is gone. -/
theorem saveRestored_stops {record' : QuarantineRecord} (hid : record'.id = id) (hstate : record'.state = .restored)
    (hwritten : ∃ data, host.records.toVecPretty record' = .ok data) (hne : tmp ≠ key) (htmp : w.outside tmp = none)
    (hjson : w₁.items.lookup (.json id) = w.items.lookup (.json id)) (hdata : w₁.items.lookup (.data id) = none)
    (hcontent : w₁.contentAt key = some content) :
    (host.save record').Stops (host.StopLeaves id tmp key content w) (fun _ _ => False)
      (fun _ w' => host.HasRestored id key content w') w₁ := by
  obtain ⟨data, hsaved⟩ := hwritten
  subst hid
  -- until the record is renamed the item is recorded as it was
  have hstuck {c : StoreCall} {n : ℕ} {w₂ : Disk} (hc : c.leavesClean (w.outside key).isNone n = false)
      (hitems : ∀ f, f ≠ .jsonTmp record'.id → w₂.items.lookup f = w₁.items.lookup f) :
      host.StopLeaves record'.id tmp key content w c n w₂ := by
    refine .stuck ?_ (.inr ?_) (not_harmless hc)
    · rw [hitems _ (by simp), hjson]
    · rw [hitems _ (by simp), hdata]
  have hrestored {w₂ : Disk} (hlookup : w₂.items.lookup (.json record'.id) = some data)
      (houtside : w₂.outside = w₁.outside) : host.HasRestored record'.id key content w₂ := by
    refine ⟨record', recordAt_of_written hlookup hsaved, hstate, ?_⟩
    rw [Disk.contentAt, houtside]
    exact hcontent
  let tmpRecord : ItemFile := .jsonTmp record'.id
  let w₂ := (w₁.setItem tmpRecord []).appendItem tmpRecord data
  have hfull : w₂.items.lookup tmpRecord = some data := appendItem_lookup (Disk.createdItem_lookup _ _)
  have hsame (f : ItemFile) (hf : f ≠ tmpRecord) : w₂.items.lookup f = w₁.items.lookup f :=
    (Disk.apply_items (c := .appendItem tmpRecord data) hf).trans (Disk.apply_items (c := .truncateItem tmpRecord) hf)
  have hrename : w₂.apply (.renameItem tmpRecord (.json record'.id)) = (.ok (), w₂.written record'.id data) := by
    rw [Disk.apply, Disk.renameItem, hfull]
    rfl
  have houtside : w₂.outside = w₁.outside :=
    (Disk.apply_outside (c := .appendItem tmpRecord data) fun _ h => by cases h).trans
      (Disk.apply_outside (c := .truncateItem tmpRecord) fun _ h => by cases h)
  unfold Host.save
  rw [hsaved]
  refine Prog.stops_request_bind (fun n => hstuck rfl fun f hf => torn_items hf) (fun _ _ h => by cases h)
    fun _ _ h => ?_
  obtain ⟨-, rfl⟩ := Prod.mk.inj h
  refine Prog.stops_request_bind (fun n => hstuck rfl fun f hf => ?_) (fun _ _ h => by cases h) fun _ _ h => ?_
  · exact (torn_items (c := .appendItem tmpRecord data) hf).trans (Disk.apply_items (c := .truncateItem tmpRecord) hf)
  obtain ⟨-, rfl⟩ := Prod.mk.inj h
  refine Prog.stops_request_bind (fun n => hstuck rfl fun f hf => ?_) (fun _ _ h => by cases h) fun _ _ h => ?_
  · exact (torn_items (c := .syncItem tmpRecord) fun h => by cases h).trans (hsame f hf)
  obtain ⟨-, rfl⟩ := Prod.mk.inj h
  refine Prog.stops_request_bind (fun n => ?_) (fun e _ h => ?_) fun _ _ h => ?_
  · change host.StopLeaves _ _ _ _ _ _ n (if n = 0 then w₂ else (w₂.apply (.renameItem tmpRecord (.json record'.id))).2)
    rw [hrename]
    by_cases hn : n = 0
    · rw [if_pos hn]
      exact hstuck (by simp [StoreCall.leavesClean, hn]) hsame
    · rw [if_neg hn]
      refine .restored hne htmp (by simp [StoreCall.leavesClean, hn]) (hrestored written_json houtside)
  · cases hrename.symm.trans h
  · obtain ⟨-, rfl⟩ := Prod.mk.inj (hrename.symm.trans h)
    have hdone : host.HasRestored record'.id key content (w₂.written record'.id data) :=
      hrestored written_json houtside
    refine ⟨fun n => .restored hne htmp rfl ?_, hdone⟩
    change host.HasRestored _ _ _ (if n = 0 then w₂.written record'.id data else w₂.written record'.id data)
    rwa [ite_self]

/-- The restored file is put under its name. -/
structure Committed (id : QuarantineId) (tmp key : FileKey) (content : Bytes) (w w' : Disk) : Prop extends
    SameItem id w w' where
  names : tmp ≠ key
  target : w.outside key = none
  free : w'.outside tmp = none
  content : w'.contentAt key = some content

theorem renameNew_committed (id : QuarantineId) {w₂ : Disk} (hfilling : Filling tmp w w₂) (hcontent : w₂.contentAt tmp = some content)
    (hfree : w₂.outside key = none) :
    ∃ w₃, w₂.renameNew tmp key = (.ok (), w₃) ∧ Committed id tmp key content w w₃ := by
  have hne : tmp ≠ key := by
    intro heq
    rw [Disk.contentAt, heq, hfree] at hcontent
    cases hcontent
  obtain ⟨node, hnode, hnodeContent⟩ := Option.map_eq_some_iff.mp hcontent
  refine ⟨(w₂.setFile tmp none).setFile key (some node), by simp only [Disk.renameNew, hnode, hfree], ⟨?_, ?_⟩, hne, ?_,
    ?_, ?_⟩
  · exact hfilling.items _
  · exact hfilling.items _
  · rw [← Disk.contentAt_eq_none, ← hfilling.content key hne.symm, Disk.contentAt_eq_none, hfree]
  · rw [← Disk.contentAt_eq_none, Disk.setFile_contentAt, if_neg hne, Disk.setFile_contentAt, if_pos rfl]
    rfl
  · rw [Disk.setFile_contentAt, if_pos rfl]
    exact congrArg some hnodeContent

theorem renameNew_taken {w₂ : Disk} (hthere : w₂.contentAt tmp ≠ none) (htaken : w₂.outside key ≠ none) :
    w₂.renameNew tmp key = (.error .exist, w₂) := by
  obtain ⟨node, hnode⟩ := Option.ne_none_iff_exists'.mp fun hnone => hthere (Disk.contentAt_eq_none.mpr hnone)
  obtain ⟨other, hother⟩ := Option.ne_none_iff_exists'.mp htaken
  simp only [Disk.renameNew, hnode, hother]

theorem commitRestored_stops {w₂ : Disk} {path : NativePath} (htmp : w.outside tmp = none)
    (hfilling : Filling tmp w w₂) (hcontent : w₂.contentAt tmp = some content) :
    (Host.commitRestored tmp key path).Stops (host.StopLeaves id tmp key content w)
      (fun _ => RestoreFails id tmp key w) (fun _ => Committed id tmp key content w) w₂ := by
  have hstuck {c : StoreCall} {n : ℕ} (hc : ¬ CrashHarmless w tmp key c n) :
      host.StopLeaves id tmp key content w c n w₂ :=
    .stuck (hfilling.items _) (.inl fun hnone => hfilling.exists_tmp (Disk.contentAt_eq_none.mpr hnone)) hc
  unfold Host.commitRestored
  by_cases hfree : w₂.outside key = none
  · obtain ⟨w₃, hrename, hcommitted⟩ := renameNew_committed id hfilling hcontent hfree
    refine Prog.stops_ask_bind (fun n => ?_) fun r w' happly => ?_
    · change host.StopLeaves _ _ _ _ _ _ n (if n = 0 then w₂ else (w₂.renameNew tmp key).2)
      by_cases hn : n = 0
      · rw [if_pos hn]
        exact hstuck (not_harmless (by simp [StoreCall.leavesClean, hn]))
      · rw [if_neg hn, hrename]
        refine .ready hcommitted.toSameItem htmp hcommitted.free fun _ => ?_
        simp [StoreCall.leavesClean, hn, hcommitted.target]
    · obtain ⟨rfl, rfl⟩ := Prod.mk.inj (hrename.symm.trans happly)
      exact hcommitted
  · have hrename := renameNew_taken hfilling.exists_tmp hfree
    have htaken : w.outside key ≠ none ∨ tmp = key := by
      by_cases hne : tmp = key
      · exact .inr hne
      · refine .inl fun hnone => hfree ?_
        rw [← Disk.contentAt_eq_none, hfilling.content key (Ne.symm hne), Disk.contentAt_eq_none, hnone]
    have hremoved : SameItem id w (w₂.removeFile tmp).2 :=
      ⟨(removeFile_items w₂ tmp _).trans (hfilling.items _), (removeFile_items w₂ tmp _).trans (hfilling.items _)⟩
    refine Prog.stops_ask_bind (fun n => ?_) fun r w' happly => ?_
    · change host.StopLeaves _ _ _ _ _ _ n (if n = 0 then w₂ else (w₂.renameNew tmp key).2)
      rw [hrename, ite_self]
      refine hstuck fun h => ?_
      have hcall := h.call
      cases htaken with
      | inl htaken => simp [StoreCall.leavesClean, htaken] at hcall
      | inr heq => exact h.names heq
    · obtain ⟨rfl, rfl⟩ := Prod.mk.inj (hrename.symm.trans happly)
      -- the temporary file is removed again
      refine ⟨fun n => ?_, .inr ⟨hremoved, htmp, removeFile_gone w₂ tmp, htaken⟩⟩
      change host.StopLeaves _ _ _ _ _ _ n (if n = 0 then w₂ else (w₂.removeFile tmp).2)
      by_cases hn : n = 0
      · rw [if_pos hn]
        exact hstuck (not_harmless (by simp [StoreCall.leavesClean, hn]))
      · rw [if_neg hn]
        exact .ready hremoved htmp (removeFile_gone w₂ tmp) fun _ => by simp [StoreCall.leavesClean, hn]

theorem createFile_taken {node : FileNode} (h : w.outside tmp ≠ none) : w.createFile tmp node = (.error .exist, w) := by
  obtain ⟨other, hother⟩ := Option.ne_none_iff_exists'.mp h
  rw [Disk.createFile, hother]

theorem createFile_filling {node : FileNode} (h : w.outside tmp = none) (hempty : node.content = []) :
    ∃ w₁, w.createFile tmp node = (.ok (), w₁) ∧ Filling tmp w w₁ ∧ w₁.contentAt tmp = some [] := by
  have hcreate : w.createFile tmp node = (.ok (), w.setFile tmp (some node)) := by rw [Disk.createFile, h]
  obtain ⟨-, hcontent, hsame⟩ := createFile_eq_ok hcreate
  refine ⟨_, hcreate, ⟨hsame, ?_⟩, ?_⟩
  · rw [hcontent]
    exact Option.some_ne_none _
  · rw [hcontent, hempty]

theorem putBack_stops {k file : Bytes} (htmp : dir.components ++ [Host.restoreTmp id] = tmp)
    (hkey : dir.components ++ [name] = key) (hid : record.id = id)
    (hfile : w.items.lookup (.data id) = some file) (hdecoded : decoded k file = some content)
    (hsha : record.original.sha256 = host.sha256 content)
    (hwritten : ∃ data, host.records.toVecPretty record = .ok data) :
    (host.putBack id record k dir name target d).Stops (host.StopLeaves id tmp key content w)
      (fun _ => RestoreFails id tmp key w) (fun _ => host.RestoreDone id tmp key content w) w := by
  unfold Host.putBack
  rw [htmp, hkey]
  by_cases hfree : w.outside tmp = none
  · have hcreated (node : FileNode) (hnode : node.content = []) := createFile_filling hfree hnode
    obtain ⟨w₁, hcreate, hfilling, hempty⟩ := hcreated
      { kind := .regular, content := [], dev := d.dev, ino := d.inode, mode := 0o600,
        uid := host.euid, gid := d.gid, nlink := 1, mtime := d.mtime } rfl
    have hstuck {c : StoreCall} {n : ℕ} {w' : Disk} (hw' : Filling tmp w w')
        (hc : c.leavesClean (w.outside key).isNone n = false) : host.StopLeaves id tmp key content w c n w' :=
      .stuck (hw'.items _) (.inl fun hnone => hw'.exists_tmp (Disk.contentAt_eq_none.mpr hnone)) (not_harmless hc)
    refine Prog.stops_request_bind (fun n => ?_) (fun e _ h => ?_) fun _ _ h => ?_
    · change host.StopLeaves _ _ _ _ _ _ n (if n = 0 then w else (w.createFile tmp _).2)
      by_cases hn : n = 0
      · rw [if_pos hn]
        exact .ready ⟨rfl, rfl⟩ hfree hfree fun _ => by simp [StoreCall.leavesClean, hn]
      · rw [if_neg hn, hcreate]
        exact hstuck hfilling (by simp [StoreCall.leavesClean, hn])
    · cases hcreate.symm.trans h
    obtain ⟨-, rfl⟩ := Prod.mk.inj (hcreate.symm.trans h)
    -- the temporary file is filled
    have hfile₁ : w₁.items.lookup (.data id) = some file := (hfilling.items _).trans hfile
    refine Prog.stops_bind.mpr (((writeRestored_total hempty hfile₁ hdecoded hsha).stops writeRestored_fills
      keeps_filling hfilling fun c n w' hc hw' => hstuck hw' (hc.leavesClean _ n)).orCleanup _ |>.mono
      (fun _ _ h => h) fun _ w₂ h => ?_)
    obtain ⟨hfilling₂, hcontent⟩ := h
    -- and put under its name
    refine Prog.stops_bind.mpr ((commitRestored_stops hfree hfilling₂ hcontent).mono (fun _ _ h => h) fun _ w₃ h => ?_)
    have hready {c : StoreCall} {n : ℕ} {w' : Disk} (hw' : w' = w₃)
        (hc : c.leavesClean (w.outside key).isNone n = true) : host.StopLeaves id tmp key content w c n w' :=
      .ready (hw' ▸ h.toSameItem) hfree (hw' ▸ h.free) fun _ => hc
    refine Prog.stops_request_bind (fun n => hready ?_ rfl) nofun fun _ _ hsync => ?_
    · change (if n = 0 then w₃ else w₃) = w₃
      exact ite_self _
    obtain ⟨-, rfl⟩ := Prod.mk.inj hsync
    -- the copy is removed
    have hremove : w₃.removeItem (.data id) = (.ok (), w₃.eraseItem (.data id)) := by
      rw [Disk.removeItem, h.data, hfile]
    have hgone : (w₃.eraseItem (.data id)).items.lookup (.data id) = none := by simp
    have hjson : (w₃.eraseItem (.data id)).items.lookup (.json id) = w.items.lookup (.json id) := by
      rw [Disk.eraseItem_lookup, if_neg (by simp), h.json]
    refine Prog.stops_request_bind (fun n => ?_) (fun e _ h' => ?_) fun _ _ h' => ?_
    · change host.StopLeaves _ _ _ _ _ _ n (if n = 0 then w₃ else (w₃.removeItem (.data id)).2)
      by_cases hn : n = 0
      · rw [if_pos hn]
        exact hready rfl (by simp [StoreCall.leavesClean, hn])
      · rw [if_neg hn, hremove]
        exact .stuck hjson (.inr hgone) (not_harmless (by simp [StoreCall.leavesClean, hn]))
    · cases hremove.symm.trans h'
    obtain ⟨-, rfl⟩ := Prod.mk.inj (hremove.symm.trans h')
    -- and the record is saved
    let restored : QuarantineRecord := { record with
      state := .restored
      updatedAt := d.later.1
      restoredTo := some (ObservedPath.fromPath target)
      notes := record.notes ++ host.restoreNotes record }
    have hwritable := (host.records.toVecPretty_writable record).mpr hwritten
    have hsaved : ∃ data, host.records.toVecPretty restored = .ok data :=
      (host.records.toVecPretty_writable restored).mp ⟨hwritable.1, d.later.2, hwritable.2.2⟩
    have hsave : (host.save restored).Stops (host.StopLeaves id tmp key content w) (fun _ _ => False)
        (fun _ w' => host.HasRestored id key content w') (w₃.eraseItem (.data id)) :=
      saveRestored_stops hid rfl hsaved h.names hfree hjson hgone h.content
    exact Prog.stops_bind.mpr (hsave.mono (fun _ _ h => h.elim) fun _ w₄ hdone => ⟨h.names, hfree, h.target, hdone⟩)
  · have hcreate (node : FileNode) : w.createFile tmp node = (.error .exist, w) := createFile_taken hfree
    refine Prog.stops_request_bind (fun n => ?_) (fun e _ h => ?_) fun _ _ h => ?_
    · change host.StopLeaves _ _ _ _ _ _ n (if n = 0 then w else (w.createFile tmp _).2)
      rw [hcreate, ite_self]
      exact .stuck rfl (.inl hfree) fun h => hfree h.free
    · obtain ⟨-, rfl⟩ := Prod.mk.inj ((hcreate _).symm.trans h)
      exact .inl ⟨rfl, hfree, hfree⟩
    · cases (hcreate _).symm.trans h

/-! ### The whole call -/

theorem Host.HasRestored.congr (houtside : w'.outside = w₁.outside)
    (hjson : w'.items.lookup (.json id) = w₁.items.lookup (.json id))
    (h : host.HasRestored id key content w₁) : host.HasRestored id key content w' := by
  obtain ⟨record, hrecord, hstate, hcontent⟩ := h
  refine ⟨record, (recordAt_congr hjson).trans hrecord, hstate, ?_⟩
  rw [Disk.contentAt, houtside]
  exact hcontent

theorem restoreInner_stops (h : host.Restorable w id destDir record dir name target content)
    (htmp : dir.components ++ [Host.restoreTmp id] = tmp) (hkey : dir.components ++ [name] = key) :
    (host.restoreInner id destDir d).Stops (host.StopLeaves id tmp key content w)
      (fun _ => RestoreFails id tmp key w) (fun _ => host.RestoreDone id tmp key content w) w := by
  obtain ⟨k, file, -, hfile, hdecoded, hsha, hpasses⟩ := h.passes (d := d)
  obtain ⟨data, hdata, hparse⟩ := h.read
  have hread : w.apply (.readItem (.json id)) = (.ok data, w) := by
    rw [Disk.apply, hdata]
    rfl
  rw [restoreInner_eq]
  unfold Host.get
  refine Prog.stops_bind.mpr (Prog.stops_request_bind (fun n => ?_) (fun e _ h' => ?_) fun _ _ h' => ?_)
  · change host.StopLeaves _ _ _ _ _ _ n (if n = 0 then w else w)
    rw [ite_self]
    by_cases hfree : w.outside tmp = none
    · exact .ready ⟨rfl, rfl⟩ hfree hfree fun _ => rfl
    · exact .stuck rfl (.inl hfree) fun h => hfree h.free
  · cases hread.symm.trans h'
  · obtain ⟨hanswer, rfl⟩ := Prod.mk.inj (hread.symm.trans h')
    obtain rfl := Except.ok.inj hanswer
    rw [hparse]
    change (host.restoreRecord id destDir d record).Stops _ _ _ _
    rw [hpasses]
    exact putBack_stops htmp hkey (parseRecord_eq_ok hparse).2 hfile hdecoded hsha h.written

/-- A restore that nothing disturbs puts the content back if its names are free, and returns an error if they
are not. In whichever call it is stopped, it can be done again, or is done, if and only if the stop is harmless. -/
theorem restore_stops (store : QuarantineStore) (d : Draws) (hlog : host.CanLog)
    (h : host.Restorable w id destDir record dir name target content)
    (htmp : dir.components ++ [Host.restoreTmp id] = tmp) (hkey : dir.components ++ [name] = key) :
    (host.restore store id destDir d).Stops (host.StopLeaves id tmp key content w) (fun _ _ => False)
      (fun r w' => RestoreFails id tmp key w w' ∧ (∃ e, r.2 = .error e) ∨
        host.RestoreDone id tmp key content w w' ∧ ∃ path, r.2 = .ok path) w := by
  -- the log is written in a state that the items and the files outside the store have reached
  have haudit {action : String} {outcome : Except String (Option String)} {w₁ : Disk}
      (hleaves : ∀ c n w', c.Audits → w'.outside = w₁.outside ∧ w'.items = w₁.items →
        host.StopLeaves id tmp key content w c n w') :
      (host.auditEvent store d.audited action (some id) none none outcome).Stops
        (host.StopLeaves id tmp key content w) (fun _ _ => False)
        (fun _ w' => w'.outside = w₁.outside ∧ w'.items = w₁.items) w₁ :=
    ((auditEvent_total hlog).stops (appendEntry_audits store _) (keeps_files w₁) ⟨rfl, rfl⟩ hleaves).mono
      (fun _ _ h => h) fun _ _ h => h.2
  have hclean {c : StoreCall} (hc : c.Audits) (n : ℕ) : c.leavesClean (w.outside key).isNone n = true := by
    cases c with
    | appendAudit data | syncAudit => rfl
    | _ => exact hc.elim
  unfold Host.restore Host.audited
  refine Prog.stops_bind.mpr (Prog.stops_attempt.mpr ((restoreInner_stops h htmp hkey).mono ?_ ?_))
  · rintro e w₁ hfails
    refine Prog.stops_bind.mpr (Prog.stops_attempt.mpr ((haudit fun c n w' hc hw' => ?_).mono (fun _ _ h => h.elim)
      fun store' w' hw' => .inl ⟨?_, e, rfl⟩))
    · cases hfails with
      | inl hstuck =>
        obtain ⟨hjson, htaken, htaken'⟩ := hstuck
        exact .stuck (hw'.2 ▸ hjson) (.inl (hw'.1 ▸ htaken')) fun h => htaken h.free
      | inr hready =>
        obtain ⟨hitem, hfree, hfree', -⟩ := hready
        exact .ready ⟨hw'.2 ▸ hitem.json, hw'.2 ▸ hitem.data⟩ hfree (hw'.1 ▸ hfree') fun _ => hclean hc n
    · unfold RestoreFails
      rw [hw'.1, hw'.2]
      exact hfails.imp_right fun ⟨hitem, hrest⟩ => ⟨⟨hw'.2 ▸ hitem.json, hw'.2 ▸ hitem.data⟩, hrest⟩
  · rintro path w₁ hdone
    refine Prog.stops_bind.mpr (Prog.stops_attempt.mpr ((haudit fun c n w' hc hw' => ?_).mono (fun _ _ h => h.elim)
      fun store' w' hw' => .inr ⟨⟨hdone.names, hdone.free, hdone.target, hdone.restored.congr hw'.1 (by rw [hw'.2])⟩, path, rfl⟩))
    exact .restored hdone.names hdone.free (hclean hc n) (hdone.restored.congr hw'.1 (by rw [hw'.2]))

end AbyssalWarden

import AbyssalWarden.AutomaticRemoval
import AbyssalWarden.RestoreCrash

/-! A restore that was stopped, done again when the store is opened. -/
namespace AbyssalWarden

variable {host : Host} {mayFail : StoreCall → Bool} {w w' w₁ : Disk} {id : QuarantineId}
  {destDir : Option NativePath} {record : QuarantineRecord} {dir target : NativePath} {name content : Bytes}
  {d : Draws} {tmp key : FileKey}

/-! ### Opening the store leaves other items alone -/

/-- The call writes neither the record nor the copy of the item. -/
structure StoreCall.Spares (id : QuarantineId) (c : StoreCall) : Prop where
  json : ¬ c.WritesItem (.json id)
  data : ¬ c.WritesItem (.data id)

theorem StoreCall.Scratch.spares {c : StoreCall} (hc : c.Scratch) : c.Spares id :=
  ⟨fun h => json_not_tmp id (hc.items _ h), fun h => data_not_tmp id (hc.items _ h)⟩

theorem StoreCall.OfItem.spares {id' : QuarantineId} {c : StoreCall} (hc : c.OfItem id') (hne : id' ≠ id) :
    c.Spares id :=
  ⟨fun h => hne (hc.items _ h).symm, fun h => hne (hc.items _ h).symm⟩

theorem keeps_sameItem (c : StoreCall) (hc : c.Spares id) : Prog.Keeps storeSystem (SameItem id w) c := by
  refine keeps_of_apply (P := StoreCall.Spares id) ?_ ?_ c hc
  · exact fun c n hc => ⟨fun h => hc.json (StoreCall.cut_writesItem.mp h), fun h => hc.data (StoreCall.cut_writesItem.mp h)⟩
  · exact fun c w' hc hw' => ⟨(Disk.apply_items hc.json).trans hw'.json, (Disk.apply_items hc.data).trans hw'.data⟩

theorem resolvePending_ofItem : (host.resolvePending record).Calls (StoreCall.OfItem record.id) := by
  have hremove {f : ItemFile} (hf : f.id = record.id) :
      (StoreCall.ignored (.removeItem f)).Calls (StoreCall.OfItem record.id) :=
    Prog.Calls.ignore (removeItem_ofItem hf)
  have hsync : (StoreCall.ignored .syncItems).Calls (StoreCall.OfItem record.id) :=
    Prog.Calls.ignore (StoreCall.ReadOnly.ofItem (c := .syncItems) trivial)
  refine (originalPresent_calls.mono fun _ hc => hc.ofItem).bind fun present => ?_
  split
  · refine (hremove (f := .data record.id) rfl).bind fun _ => ?_
    exact (hremove (f := .dataTmp record.id) rfl).bind fun _ => hsync.bind fun _ => trivial
  · refine (copyVerified_calls.mono fun _ hc => hc.ofItem).bind fun verified => ?_
    split
    · exact (hremove (f := .dataTmp record.id) rfl).bind fun _ => trivial
    · trivial

theorem recoverItem_spares (host : Host) (now : Now) (store : QuarantineStore) (hne : record.id ≠ id) :
    (host.recoverItem now store record).Calls (StoreCall.Spares id) := by
  refine (resolvePending_ofItem.mono fun _ hc => hc.spares hne).bind fun (outcome, detail) => ?_
  refine Prog.Calls.bind ((save_calls _).mono fun _ hc => hc.spares hne) fun _ => ?_
  exact ((appendEntry_calls store _).mono fun _ hc => hc.spares).bind fun _ => trivial

/-- An item that is not pending stays as it is when the store is opened. -/
theorem openStore_sameItem {now : Now} (hrecord : host.recordAt w id = some record) (hstate : record.state ≠ .pending) :
    (host.openStore now).Returns mayFail (fun _ => SameItem id w) w := by
  unfold Host.openStore Host.recover
  refine Prog.Returns.bind (Prog.returns_request fun _ _ hread => Prog.Returns.bind (Prog.returns_ofExcept fun _ _ => ?_))
  cases hread
  refine Prog.Returns.bind (Prog.returns_request fun names _ hlist => ?_)
  cases hlist
  have hcollect : (Prog.forEach host.collectPending [] w.items.keys).Returns mayFail
      (fun pending w' => w' = w ∧ Collected host w w.items.keys pending) w :=
    (collectPending_meets _).mono (fun _ _ => trivial) (fun _ _ _ => trivial) fun _ _ h => h
  refine Prog.Returns.bind (hcollect.mono fun pending w₁ hpending => ?_)
  obtain ⟨rfl, hcollected⟩ := hpending
  have hothers (r : QuarantineRecord) (hr : r ∈ pending) : r.id ≠ id := by
    rw [hcollected.pending] at hr
    obtain ⟨f, hf, hpendingIn⟩ := List.mem_filterMap.mp hr
    obtain ⟨id', rfl, hat, hpending⟩ := pendingIn_eq_some hpendingIn
    have hnamed : r.id = id' := hcollected.named id' r hf hat
    intro hid
    rw [← hnamed, hid, hrecord] at hat
    exact hstate (Option.some.inj hat ▸ hpending)
  -- what is pending is resolved
  let Inv (_ : QuarantineStore) (rest : List QuarantineRecord) (w' : Disk) : Prop :=
    SameItem id w₁ w' ∧ ∀ r ∈ rest, r.id ≠ id
  have hloop {store : QuarantineStore} : (Prog.forEach (host.recoverItem now) store pending).Returns mayFail
      (fun store w' => Inv store [] w') w₁ := by
    apply Prog.returns_forEach
    · intro store r rest w' hinv
      have hcalls := recoverItem_spares host now store (hinv.2 r List.mem_cons_self)
      refine (hcalls.meets keeps_sameItem hinv.1).mono (fun _ _ => trivial) (fun _ _ _ => trivial) fun _ w'' hw'' => ?_
      exact ⟨hw'', fun r' hr' => hinv.2 r' (List.mem_cons_of_mem _ hr')⟩
    · exact ⟨⟨rfl, rfl⟩, hothers⟩
  refine Prog.Returns.bind (hloop.mono fun store w₂ hw₂ => ?_)
  -- and temporary files are removed
  have hcalls : (do
      let names ← StoreCall.listItems.orErr (.io "list" (host.root.join (NativePath.ofString "items")))
      Prog.forEach host.removeStray () names
      pure store : StoreProg QuarantineStore).Calls (StoreCall.Spares id) := by
    refine (Prog.Calls.request (StoreCall.ReadOnly.scratch (c := .listItems) trivial).spares).bind fun names => ?_
    refine Prog.Calls.bind (Prog.Calls.forEach (fun _ f => ?_) () names) fun _ => trivial
    exact (removeStray_calls f).mono fun _ hc => hc.spares
  exact (hcalls.meets keeps_sameItem hw₂.1).mono (fun _ _ => trivial) (fun _ _ _ => trivial) fun _ _ h => h

/-! ### What a restore needs -/

theorem renameNew_error {e : Errno} (h : (w.renameNew tmp key).1 = .error e) : e = .noent ∨ e = .exist := by
  unfold Disk.renameNew at h
  cases hsource : w.outside tmp with
  | none =>
    rw [hsource] at h
    exact .inl (Except.error.inj h).symm
  | some node =>
    cases hkey : w.outside key with
    | none => simp [hsource, hkey] at h
    | some other =>
      rw [hsource, hkey] at h
      exact .inr (Except.error.inj h).symm

/-- A file is put under a free name. -/
theorem commitRestored_free {path : NativePath} :
    (Host.commitRestored tmp key path).Returns noneFails (fun _ _ => w.outside key = none) w := by
  unfold Host.commitRestored
  refine Prog.meets_ask_bind (fun _ => trivial) nofun fun r w' happly => ?_
  change w.renameNew tmp key = (r, w') at happly
  cases r with
  | ok _ => exact (renameNew_eq_ok happly).1
  | error e =>
    have he := renameNew_error (congrArg Prod.fst happly)
    cases he with
    | inl he =>
      subst he
      exact Prog.returns_bind_throw _ _
    | inr he =>
      subst he
      exact Prog.returns_bind_throw _ _

/-- What has to be there, and what not, for an item to be restored. -/
structure RestoreNeeds (id : QuarantineId) (tmp key : FileKey) (w : Disk) : Prop where
  data : w.items.lookup (.data id) ≠ none
  free : w.outside tmp = none
  names : tmp ≠ key

theorem restoreInner_needs (hrecord : host.recordAt w id = some record)
    (hleads : Host.restoreTarget id record destDir = .ok (dir, name, target)) :
    (host.restoreInner id destDir d).Returns noneFails
      (fun _ _ => RestoreNeeds id (dir.components ++ [Host.restoreTmp id]) (dir.components ++ [name]) w) w := by
  have hget : (host.get id).Returns noneFails (fun r w' => w' = w ∧ host.recordAt w id = some r ∧ r.id = id) w :=
    (get_meets id w).mono (fun _ _ => trivial) (fun _ _ _ => trivial) fun _ _ h => h
  unfold Host.restoreInner
  refine Prog.Returns.bind (hget.mono fun r w' h => ?_)
  obtain ⟨rfl, hr, -⟩ := h
  obtain rfl : r = record := Option.some.inj (hr.symm.trans hrecord)
  refine Prog.Returns.bind (Prog.returns_ofExcept fun _ _ => Prog.Returns.bind (Prog.returns_ofExcept fun parts hparts => ?_))
  obtain rfl : parts = (dir, name, target) := Except.ok.inj (hparts.symm.trans hleads)
  dsimp only
  refine Prog.Returns.bind (Prog.returns_ofExcept fun _ _ => ?_)
  generalize dir.components ++ [Host.restoreTmp id] = tmp
  generalize dir.components ++ [name] = key
  cases Host.recordKey r with
  | none => trivial
  | some k =>
    dsimp only
    -- the temporary file can be created only where there is none
    refine Prog.Returns.bind (Prog.returns_request fun _ w₁ hcreate => ?_)
    obtain ⟨hnone, hempty, hsame⟩ := createFile_eq_ok hcreate
    refine Prog.Returns.bind (((writeRestored_returns hempty).orCleanup _).mono fun _ w₂ hwritten => ?_)
    obtain ⟨file, plain, hfile, -, hplain, -⟩ := hwritten
    refine Prog.Returns.bind (commitRestored_free.mono fun _ w₃ hfree => Prog.returns_const ⟨?_, ?_, fun heq => ?_⟩ _)
    · rw [← hsame.items, hfile]
      exact Option.some_ne_none file
    · exact Disk.contentAt_eq_none.mp hnone
    -- the name was free when the file took it, so it is not that of the temporary file
    · rw [heq, Disk.contentAt_eq_none.mpr hfree] at hplain
      cases hplain

theorem restore_needs {store : QuarantineStore} (hrecord : host.recordAt w id = some record)
    (hleads : Host.restoreTarget id record destDir = .ok (dir, name, target)) :
    (host.restore store id destDir d).Returns noneFails (fun r _ => (∃ path, r.2 = .ok path) →
      RestoreNeeds id (dir.components ++ [Host.restoreTmp id]) (dir.components ++ [name]) w) w := by
  unfold Host.restore Host.audited
  refine Prog.meets_bind.mpr (Prog.meets_attempt.mpr (Prog.Meets.mono (restoreInner_needs hrecord hleads)
    (fun _ _ => trivial) (fun e w' _ => ?_) fun path w' hneeds => ?_))
  · -- an error stays one
    refine Prog.meets_bind.mpr (Prog.meets_attempt.mpr (Prog.Meets.mono (Prog.returns_const (C := True) trivial _)
      (fun _ _ => trivial) (fun _ _ _ => ?_) fun _ _ _ => ?_))
    · exact fun ⟨_, h⟩ => nomatch h
    · exact fun ⟨_, h⟩ => nomatch h
  · exact (Prog.returns_const hneeds _).mono fun _ _ h _ => h

/-! ### Doing it again -/

/-- Once the target's name is free the item can be restored; or it is recorded as restored, with its content at
the target. -/
def Host.CanBeRestored (host : Host) (store : QuarantineStore) (id : QuarantineId) (destDir : Option NativePath)
    (d : Draws) (key : FileKey) (content : Bytes) (w : Disk) : Prop :=
  (∃ store' path w', (host.restore store id destDir d).run anyFails [] (w.setFile key none) =
      (.ok (store', .ok path), w') ∧ w'.contentAt key = some content) ∨
    host.HasRestored id key content w

theorem Host.Restorable.congr (h : host.Restorable w id destDir record dir name target content)
    (hitem : SameItem id w w') : host.Restorable w' id destDir record dir name target content where
  read := by
    rw [hitem.json]
    exact h.read
  quarantined := h.quarantined
  written := h.written
  leads := h.leads
  safe := h.safe
  stored := h.stored.congr hitem.json hitem.data

theorem Host.Restorable.recordAt (h : host.Restorable w id destDir record dir name target content) :
    host.recordAt w id = some record := by
  obtain ⟨data, hdata, hparse⟩ := h.read
  exact recordAt_of_lookup hdata (parseRecord_eq_ok hparse).1

theorem not_canBeRestored {store : QuarantineStore} (hrecord : host.recordAt w id = some record)
    (hstate : record.state = .quarantined) (hleads : Host.restoreTarget id record destDir = .ok (dir, name, target))
    (hneeds : ¬ RestoreNeeds id (dir.components ++ [Host.restoreTmp id]) (dir.components ++ [name])
      (w.setFile (dir.components ++ [name]) none)) :
    ¬ host.CanBeRestored store id destDir d (dir.components ++ [name]) content w := by
  intro hagain
  cases hagain with
  | inl hagain =>
    obtain ⟨store', path, w', hrun, -⟩ := hagain
    rw [Prog.run_nil_congr (S := storeSystem) anyFails noneFails] at hrun
    exact hneeds ((restore_needs (w := w.setFile _ none) hrecord hleads).of_run hrun ⟨path, rfl⟩)
  | inr hrestored =>
    obtain ⟨r, hr, hrestored, -⟩ := hrestored
    rw [hrecord] at hr
    rw [← Option.some.inj hr, hstate] at hrestored
    cases hrestored

/-- A restore is stopped in one of its calls, and the store is opened again. The item can then be restored to
the same directory, or is recorded as restored, if and only if the stop was harmless. -/
theorem restore_retried_iff (host : Host) (hlog : host.CanLog) (w : Disk) (id : QuarantineId)
    (destDir : Option NativePath) (record : QuarantineRecord) (dir : NativePath) (name : Bytes) (target : NativePath)
    (content : Bytes) (h : host.Restorable w id destDir record dir name target content) (store : QuarantineStore)
    (d d' : Draws) (k n : ℕ) (st : Step storeSystem)
    (hst : ((host.restore store id destDir d).trace anyFails [] w)[k]? = some st) (now : Now)
    (store' : QuarantineStore) (w₁ : Disk)
    (hopen : (host.openStore now).run anyFails []
      ((host.restore store id destDir d).run anyFails (stopsAt k n) w).2 = (.ok store', w₁)) :
    host.CanBeRestored store' id destDir d' (dir.components ++ [name]) content w₁ ↔
      CrashHarmless w (dir.components ++ [Host.restoreTmp id]) (dir.components ++ [name]) st.call n := by
  -- what the stop leaves is ready for another restore, or stuck
  have hleft := (restore_stops store d hlog h rfl rfl).run hst n
  generalize ((host.restore store id destDir d).run anyFails (stopsAt k n) w).2 = crash at hopen hleft
  -- opening the store leaves the files outside alone
  have houtside : w₁.outside = crash.outside := by
    have hkeeps : ((host.openStore now).run anyFails [] crash).2.outside = crash.outside :=
      (openStore_leaves now).run_keeps (fun _ hc => hc.keeps crash.outside) rfl
    rwa [hopen] at hkeeps
  -- and, when the record is not pending, those of the item
  have hopened {r : QuarantineRecord} (hr : host.recordAt crash id = some r) (hstate : r.state ≠ .pending) :
      SameItem id crash w₁ := (openStore_sameItem hr hstate).of_run hopen
  have hquarantined : record.state ≠ .pending := by simp [h.quarantined]
  let w₂ := w₁.setFile (dir.components ++ [name]) none
  cases hleft with
  | inl hharmless =>
    obtain ⟨hharmless, hready⟩ := hharmless
    refine iff_of_true ?_ hharmless
    cases hready with
    | inl hretry =>
      have hsame : SameItem id crash w₁ := hopened ((recordAt_congr hretry.json).trans h.recordAt) hquarantined
      have hagain : host.Restorable w₂ id destDir record dir name target content :=
        (h.congr hretry.toSameItem).congr ⟨hsame.json, hsame.data⟩
      -- the temporary name is free, and the target's is made free
      have htmp : w₂.outside (dir.components ++ [Host.restoreTmp id]) = none := by
        rw [← Disk.contentAt_eq_none, Disk.setFile_contentAt, if_neg hretry.names, Disk.contentAt_eq_none, houtside]
        exact hretry.free
      have hfree : w₂.outside (dir.components ++ [name]) = none := Disk.setFile_outside _ _ _
      have hstops := restore_stops store' d' hlog hagain rfl rfl
      -- a restore ends well, or a name that it needs is taken; both are free
      cases hstops.outcome anyFails with
      | inl hok =>
        obtain ⟨r, w', hrun, hr⟩ := hok
        cases hr with
        | inl hfails =>
          cases hfails.1 with
          | inl htaken => exact absurd htmp htaken.2.1
          | inr htaken =>
            obtain ⟨-, -, -, htaken⟩ := htaken
            exact (htaken.elim (· hfree) hretry.names).elim
        | inr hdone =>
          obtain ⟨hdone, path, hpath⟩ := hdone
          obtain ⟨-, -, -, hcontent⟩ := hdone.restored
          obtain ⟨store'', result⟩ := r
          obtain rfl : result = .ok path := hpath
          exact .inl ⟨store'', path, w', hrun, hcontent⟩
      | inr herror =>
        obtain ⟨e, -, -, hfalse⟩ := herror
        exact hfalse.elim
    | inr hrestored =>
      have hrecord := hrestored
      obtain ⟨r, hr, hstate, -⟩ := hrecord
      have hsame : SameItem _ crash w₁ := hopened hr (by simp [hstate])
      exact .inr (hrestored.congr houtside hsame.json)
  | inr hharmful =>
    obtain ⟨hharmful, hstuck⟩ := hharmful
    refine iff_of_false ?_ hharmful
    have hsame : SameItem id crash w₁ := hopened ((recordAt_congr hstuck.json).trans h.recordAt) hquarantined
    have hrecord : host.recordAt w₁ id = some record :=
      (recordAt_congr (hsame.json.trans hstuck.json)).trans h.recordAt
    refine not_canBeRestored hrecord h.quarantined h.leads fun hneeds => ?_
    -- the temporary file is there, or the copy is gone, or both names are one
    cases hstuck.stuck with
    | inl htaken =>
      have hfree := hneeds.free
      rw [← Disk.contentAt_eq_none, Disk.setFile_contentAt, if_neg hneeds.names, Disk.contentAt_eq_none, houtside] at hfree
      exact htaken hfree
    | inr hstuck =>
      cases hstuck with
      | inl hgone => exact hneeds.data (hsame.data.trans hgone)
      | inr heq => exact hneeds.names heq

/-! ### A sample -/

deriving instance Encodable for AuditEntry

/-- A codec that knows the lines of a table, and counts blanks for any other entry. -/
def EntryCodec.ofTableOrBlanks (table : List (AuditEntry × Bytes)) (hnodup : (table.map Prod.snd).Nodup)
    (hlines : ∀ p ∈ table, newline ∉ p.2) (hbrace : ∀ p ∈ table, p.2.head? = some 0x7B) : EntryCodec where
  toVec entry := match table.find? (·.1 = entry) with
    | some p => .ok p.2
    | none =>
      if entry.time.Rfc3339 then .ok (List.replicate (Encodable.encode entry) 0x20)
      else .error "cannot format the time"
  fromSlice line := match table.find? (·.2 = line) with
    | some p => .ok p.1
    | none => match Encodable.decode line.length with
      | some entry => .ok entry
      | none => .error "unknown entry"
  fromSlice_toVec entry line h := by
    cases hfind : table.find? (·.1 = entry) with
    | some p =>
      obtain rfl : p.2 = line := by simpa [hfind] using h
      have hentry : p.1 = entry := by simpa using List.find?_some hfind
      simp [find_snd_of_find_fst hnodup hfind, hentry]
    | none =>
      have hline : List.replicate (Encodable.encode entry) 0x20 = line := by
        by_cases ht : entry.time.Rfc3339
        · simpa [hfind, ht] using h
        · simp [hfind, ht] at h
      have hback : table.find? (·.2 = line) = none := by
        rw [List.find?_eq_none]
        intro p hp heq
        have hhead := hbrace p hp
        rw [of_decide_eq_true heq, ← hline, List.head?_replicate] at hhead
        split at hhead <;> simp at hhead
      rw [hback, ← hline, List.length_replicate, Encodable.encodek]
  toVec_line entry line h := by
    cases hfind : table.find? (·.1 = entry) with
    | some p =>
      obtain rfl : p.2 = line := by simpa [hfind] using h
      exact hlines p (List.mem_of_find?_eq_some hfind)
    | none =>
      have hline : List.replicate (Encodable.encode entry) 0x20 = line := by
        by_cases ht : entry.time.Rfc3339
        · simpa [hfind, ht] using h
        · simp [hfind, ht] at h
      rw [← hline]
      exact fun hmem => absurd (List.eq_of_mem_replicate hmem) (by decide)

theorem EntryCodec.ofTableOrBlanks_writes {table : List (AuditEntry × Bytes)} (hnodup : (table.map Prod.snd).Nodup)
    (hlines : ∀ p ∈ table, newline ∉ p.2) (hbrace : ∀ p ∈ table, p.2.head? = some 0x7B) (entry : AuditEntry)
    (htime : entry.time.Rfc3339) :
    ∃ line, (EntryCodec.ofTableOrBlanks table hnodup hlines hbrace).toVec entry = .ok line := by
  unfold EntryCodec.ofTableOrBlanks
  dsimp only
  split
  · exact ⟨_, rfl⟩
  · exact ⟨_, if_pos htime⟩

/-- The record of the sample, restored. -/
def restoredSample : QuarantineRecord :=
  { sampleRecord .restored with restoredTo := some ⟨"/home/user/sample.bin", none⟩ }

def restoredJson : Bytes :=
  (sampleJson "restored").dropLast.dropLast ++
    (",\n  \"restored_to\": \x7b\n    \"text\": \"/home/user/sample.bin\"\n  \x7d\n\x7d").toUTF8.data.toList

def restoreSampleEntry : AuditEntry where
  seq := 1
  time := epoch
  actorUid := 0
  actorSid := none
  onBehalfOf := none
  action := "restore"
  item := some "0123456789abcdef0123456789abcdef"
  path := none
  sha256 := none
  outcome := "ok"
  detail := some "restored to /home/user/sample.bin"
  prev := genesis

def restoreSampleLine : Bytes :=
  ("\x7b\"seq\":1,\"time\":\"1970-01-01T00:00:00Z\",\"actor_uid\":0,\"action\":\"restore\"," ++
  "\"item\":\"0123456789abcdef0123456789abcdef\",\"outcome\":\"ok\"," ++
  "\"detail\":\"restored to /home/user/sample.bin\",\"prev\":" ++
  "\"0000000000000000000000000000000000000000000000000000000000000000\"\x7d").toUTF8.data.toList

def restoringHost : Host :=
  rootHost sampleDigests
    (RecordCodec.ofTable [(sampleRecord .quarantined, sampleJson "quarantined"), (restoredSample, restoredJson)]
      (by decide) (by decide) (by decide))
    (EntryCodec.ofTableOrBlanks [(restoreSampleEntry, restoreSampleLine)] (by decide) (by decide)
      (by decide))

/-- The sample in the store. -/
def storedDisk : Disk :=
  { emptyDisk with items := ((∅ : AList fun _ : ItemFile => Bytes).insert (.json sampleId)
      (sampleJson "quarantined")).insert (.data sampleId) (encoded sampleDraws.key.1 sampleFile.content) }

def homeDir : NativePath := NativePath.ofString "/home/user"

/-- What a restore of the sample leaves that is stopped after that many calls, once the store is open again. -/
def reopenedAfter (calls reached : ℕ) : Option (QuarantineStore × Disk) :=
  match (restoringHost.openStore sampleNow).run anyFails []
      ((restoringHost.restore ⟨.genesis, none, []⟩ sampleId none sampleDraws).run anyFails (stopsAt calls reached)
        storedDisk).2 with
  | (.ok store, w) => some (store, w)
  | _ => none

theorem eq_ok_of_toOption {ε α : Type} {r : Except ε α} {a : α} (h : r.toOption = some a) : r = .ok a := by
  cases r with
  | error e => cases h
  | ok b => exact congrArg Except.ok (Option.some.inj h)

theorem restorable_sample : restoringHost.Restorable storedDisk sampleId none (sampleRecord .quarantined) homeDir
    (NativePath.ofString "sample.bin") samplePath sampleFile.content where
  read := ⟨sampleJson "quarantined", by decide +kernel, eq_ok_of_toOption (by decide +kernel)⟩
  quarantined := rfl
  written := ⟨sampleJson "quarantined", by decide +kernel⟩
  leads := eq_ok_of_toOption (by decide)
  safe := eq_ok_of_toOption (by decide)
  stored := ⟨sampleRecord .quarantined, sampleDraws.key.1, encoded sampleDraws.key.1 sampleFile.content,
    by decide +kernel, by decide +kernel, by decide +kernel, by decide +kernel, by decide +kernel⟩

/-- A restore of the sample is stopped once it is under its name. When the name is free again it can be restored. -/
theorem restore_retried_sample : ∃ store w₁, reopenedAfter 7 1 = some (store, w₁) ∧
    restoringHost.CanBeRestored store sampleId none sampleDraws (homeDir.components ++ [NativePath.ofString "sample.bin"])
      sampleFile.content w₁ := by
  have hopens : (reopenedAfter 7 1).isSome = true := by decide +kernel
  obtain ⟨⟨store, w₁⟩, hreopened⟩ := Option.isSome_iff_exists.mp hopens
  have hopen : (restoringHost.openStore sampleNow).run anyFails []
      ((restoringHost.restore ⟨.genesis, none, []⟩ sampleId none sampleDraws).run anyFails (stopsAt 7 1)
        storedDisk).2 = (.ok store, w₁) := by
    unfold reopenedAfter at hreopened
    split at hreopened
    · rename_i store' w' hrun
      cases hreopened
      exact hrun
    · cases hreopened
  have hcall : (((restoringHost.restore ⟨.genesis, none, []⟩ sampleId none sampleDraws).trace anyFails []
      storedDisk)[7]?).map (fun st => st.call.leavesClean true 1) = some true := by decide +kernel
  obtain ⟨st, hst, hclean⟩ := Option.map_eq_some_iff.mp hcall
  have hcanLog : restoringHost.CanLog :=
    EntryCodec.ofTableOrBlanks_writes (by decide) (by decide) (by decide)
  refine ⟨store, w₁, hreopened, (restore_retried_iff restoringHost hcanLog storedDisk sampleId none
    (sampleRecord .quarantined) homeDir (NativePath.ofString "sample.bin") samplePath sampleFile.content
    restorable_sample ⟨.genesis, none, []⟩ sampleDraws sampleDraws 7 1 st hst sampleNow store w₁ hopen).mpr ?_⟩
  exact ⟨by decide, rfl, hclean⟩

/-- A restore of the sample is stopped when its temporary file is written, and when the copy is removed: it
cannot be restored to its directory again, and is not recorded as restored. -/
theorem stopped_restore_stuck :
    (∃ store w₁, reopenedAfter 5 0 = some (store, w₁) ∧ ∀ d, ¬ restoringHost.CanBeRestored store sampleId none d
      (homeDir.components ++ [NativePath.ofString "sample.bin"]) sampleFile.content w₁) ∧
    ∃ store w₁, reopenedAfter 10 0 = some (store, w₁) ∧ ∀ d, ¬ restoringHost.CanBeRestored store sampleId none d
      (homeDir.components ++ [NativePath.ofString "sample.bin"]) sampleFile.content w₁ := by
  have hleads : Host.restoreTarget sampleId (sampleRecord .quarantined) none =
      .ok (homeDir, NativePath.ofString "sample.bin", samplePath) := eq_ok_of_toOption (by decide)
  have hnames : homeDir.components ++ [Host.restoreTmp sampleId] ≠
      homeDir.components ++ [NativePath.ofString "sample.bin"] := by decide
  constructor
  · -- the temporary file is left
    have hstuck : (reopenedAfter 5 0).any (fun (_, w) =>
        decide (restoringHost.recordAt w sampleId = some (sampleRecord .quarantined)) &&
          (w.outside (homeDir.components ++ [Host.restoreTmp sampleId])).isSome) = true := by decide +kernel
    obtain ⟨⟨store, w₁⟩, hreopened, hstuck⟩ := (Option.any_eq_true _ _).mp hstuck
    obtain ⟨hrecord, htmp⟩ := Bool.and_eq_true_iff.mp hstuck
    refine ⟨store, w₁, hreopened, fun d => not_canBeRestored (of_decide_eq_true hrecord) rfl hleads fun hneeds => ?_⟩
    have hfree := hneeds.free
    rw [← Disk.contentAt_eq_none, Disk.setFile_contentAt, if_neg hnames, Disk.contentAt_eq_none] at hfree
    simp [hfree] at htmp
  · -- the copy is gone
    have hstuck : (reopenedAfter 10 0).any (fun (_, w) =>
        decide (restoringHost.recordAt w sampleId = some (sampleRecord .quarantined)) &&
          (w.items.lookup (.data sampleId)).isNone) = true := by decide +kernel
    obtain ⟨⟨store, w₁⟩, hreopened, hstuck⟩ := (Option.any_eq_true _ _).mp hstuck
    obtain ⟨hrecord, hgone⟩ := Bool.and_eq_true_iff.mp hstuck
    refine ⟨store, w₁, hreopened, fun d => not_canBeRestored (of_decide_eq_true hrecord) rfl hleads fun hneeds => ?_⟩
    exact hneeds.data (Option.isNone_iff_eq_none.mp hgone)

end AbyssalWarden

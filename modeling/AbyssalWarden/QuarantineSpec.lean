import AbyssalWarden.RecordSpec

/-! A quarantine call takes what it was given at one moment, when the original is removed. Before it only
files of the new item change, and after it only the record is written again. -/
namespace AbyssalWarden

abbrev StoreRequest := CustodyRequest FileKey QuarantineId Bytes

/-- Where a path leads. -/
def fileKey (path : NativePath) : Option FileKey :=
  match splitChecked path with
  | .ok (parent, name) => some (parent.components ++ [name])
  | .error _ => none

/-- What a quarantine call gives to the store: the content at its path. -/
def givenTo (w : Disk) (req : QuarantineRequest) (id : QuarantineId) : Option StoreRequest :=
  (fileKey req.path).bind fun key => (w.contentAt key).map fun content => .quarantine key content id

/-- How a call may change the ledger: as its request may, if it comes to one. -/
def Moves (r : Option StoreRequest) (L L' : StoreLedger) : Prop :=
  match r with
  | none => L' = L
  | some r => Serves r L L'

variable {host : Host} {mayFail : StoreCall → Bool} {ids : List QuarantineId} {L : StoreLedger}
  {w w' w₁ : Disk} {id : QuarantineId} {record : QuarantineRecord} {req : QuarantineRequest} {d : Draws}
  {key : FileKey} {content : Bytes}

theorem StoreCall.ReadOnly.ofItem {c : StoreCall} (h : c.ReadOnly) : c.OfItem id := by
  constructor
  · intro f hf
    cases c <;> first | exact h.elim | exact hf.elim
  · exact h.scratch.files

theorem removeItem_ofItem {f : ItemFile} (h : f.id = id) : StoreCall.OfItem id (.removeItem f) :=
  ⟨fun _ hg => hg ▸ h, fun _ hkey => hkey.elim⟩

/-! ### The parts -/

theorem openOriginal_calls : (host.openOriginal req).Calls StoreCall.ReadOnly := by
  refine (Prog.Calls.ofExcept _).bind fun _ => ?_
  refine (Prog.Calls.ofExcept _).bind fun _ => (Prog.Calls.ofExcept _).bind fun _ => ?_
  refine (Prog.Calls.ofExcept _).bind fun _ => (Prog.Calls.ofExcept _).bind fun _ => ?_
  refine (Prog.Calls.request trivial).bind fun _ => (Prog.Calls.ofExcept _).bind fun _ => ?_
  exact (Prog.Calls.ofExcept _).bind fun _ => (Prog.Calls.ofExcept _).bind fun _ => trivial

/-- The open file is the one at the path. -/
theorem openOriginal_returns : (host.openOriginal req).Returns mayFail (fun r _ => ∃ name,
    splitChecked req.path = .ok (r.1, name) ∧ r.2.1 = r.1.components ++ [name] ∧
      w.outside r.2.1 = some r.2.2) w := by
  unfold Host.openOriginal
  refine Prog.Returns.bind (Prog.returns_ofExcept fun split hsplit => ?_)
  obtain ⟨parent, name⟩ := split
  refine Prog.Returns.bind (Prog.returns_ofExcept fun _ _ => ?_)
  refine Prog.Returns.bind (Prog.returns_ofExcept fun _ _ => ?_)
  refine Prog.Returns.bind (Prog.returns_ofExcept fun _ _ => ?_)
  refine Prog.Returns.bind (Prog.returns_ofExcept fun _ _ => ?_)
  refine Prog.Returns.bind (Prog.returns_request fun st _ hopen => ?_)
  refine Prog.Returns.bind (Prog.returns_ofExcept fun _ _ => ?_)
  refine Prog.Returns.bind (Prog.returns_ofExcept fun _ _ => ?_)
  refine Prog.Returns.bind (Prog.returns_ofExcept fun _ _ => ⟨name, hsplit, rfl, ?_⟩)
  have hst := (Prod.mk.inj hopen).1
  unfold Disk.openFile at hst
  split at hst
  · cases hst
  · rename_i node hnode
    split at hst
    · cases hst
    · cases hst
      exact hnode

theorem decodeFile_calls {f : ItemFile} {k : Bytes} :
    (host.decodeFile id f k none).Calls StoreCall.ReadOnly := by
  refine (Prog.Calls.request trivial).bind fun _ => (Prog.Calls.ofExcept _).bind fun _ => ?_
  refine (Prog.Calls.ofExcept _).bind fun _ => ?_
  exact (Prog.Calls.forEach (fun _ _ => by unfold Host.decodePiece; trivial) _ _).bind fun _ => trivial

theorem writeEncoded_calls {k : Bytes} {max : ℕ} {path : NativePath} :
    (host.writeEncoded id content k max path).Calls (StoreCall.OfItem id) := by
  refine (Prog.Calls.request ⟨fun _ hg => hg ▸ rfl, fun _ h => h.elim⟩).bind fun _ => ?_
  refine (Prog.Calls.request ⟨fun _ hg => hg ▸ rfl, fun _ h => h.elim⟩).bind fun _ => ?_
  refine Prog.Calls.bind (Prog.Calls.forEach (fun _ _ => ?_) _ _) fun _ => ?_
  · refine (Prog.Calls.ofExcept _).bind fun _ => ?_
    exact (Prog.Calls.request ⟨fun _ hg => hg ▸ rfl, fun _ h => h.elim⟩).bind fun _ => trivial
  · refine (Prog.Calls.request (StoreCall.ReadOnly.ofItem (c := .syncItem _) trivial)).bind fun _ => ?_
    refine (decodeFile_calls.mono fun _ h => h.ofItem).bind fun _ => ?_
    exact (Prog.Calls.ofExcept _).bind fun _ => trivial

theorem copyOriginal_calls {st : FileNode} :
    (host.copyOriginal req d st).Calls (StoreCall.OfItem d.id) := by
  have hremove : (StoreCall.ignored (.removeItem (.dataTmp d.id))).Calls (StoreCall.OfItem d.id) :=
    Prog.Calls.ignore (removeItem_ofItem rfl)
  refine (writeEncoded_calls.orCleanup hremove).bind fun (sha256, copied) => ?_
  cases req.expectedSha256 with
  | none => trivial
  | some expected =>
    dsimp only
    split
    · exact hremove.bind fun _ => trivial
    · trivial

/-- The temporary file holds the encoded content, which has the hash that was expected. -/
theorem copyOriginal_returns {st : FileNode} : (host.copyOriginal req d st).Returns mayFail
    (fun r w' => w'.items.lookup (.dataTmp d.id) = some (encoded d.key.1 st.content) ∧
      r = (host.sha256 st.content, st.content.length) ∧
      ∀ h, req.expectedSha256 = some h → host.sha256 st.content = h) w := by
  unfold Host.copyOriginal
  refine Prog.Returns.bind ((writeEncoded_returns.orCleanup _).mono fun (sha256, copied) w' hr => ?_)
  obtain ⟨htmp, hr⟩ := hr
  obtain ⟨rfl, rfl⟩ := Prod.mk.inj hr
  cases req.expectedSha256 with
  | none => exact ⟨htmp, rfl, nofun⟩
  | some expected =>
    dsimp only
    split
    · exact Prog.returns_bind_throw _ _
    · rename_i hsame
      refine ⟨htmp, rfl, fun h hh => ?_⟩
      rw [← Option.some.inj hh]
      exact (not_not.mp hsame).symm

theorem rollBack_calls {now : Now} {why : String} :
    (host.rollBack record now why).Calls (StoreCall.OfItem record.id) := by
  refine (Prog.Calls.ignore (removeItem_ofItem (f := .data _) rfl)).bind fun _ => ?_
  refine (Prog.Calls.ignore (StoreCall.ReadOnly.ofItem (c := .syncItems) trivial)).bind fun _ => ?_
  exact save_calls { record with
    state := .rolledBack
    updatedAt := now.1
    notes := record.notes ++ ["rolled back: " ++ why] }

theorem rollBack_meets {stop : Disk → Prop} {post : Unit → Disk → Prop} {now : Now} {why : String}
    {e : RemediationError} (hid : record.id = id) (hw : SameButItem id w w₁)
    (hstop : ∀ w', SameButItem id w w' → stop w') :
    (host.rollBack record now why >>= fun _ => Prog.throw e : StoreProg Unit).Meets mayFail stop
      (fun _ => SameButItem id w) post w₁ := by
  have hcalls : (host.rollBack record now why).Calls (StoreCall.OfItem id) := hid ▸ rollBack_calls
  refine Prog.meets_bind.mpr ?_
  exact (hcalls.meets (keeps_sameButItem w) hw).mono hstop (fun _ _ h => h) fun _ _ h => h

/-- The original is removed by one call; before it, and when it fails, only files of the item differ. -/
theorem removeOriginal_meets (hid : record.id = id) (hw : SameButItem id w w₁) :
    (host.removeOriginal req d record key).Meets mayFail
      (fun w' => SameButItem id w w' ∨ w₁.outside key ≠ none ∧ w' = (w₁.removeFile key).2)
      (fun _ => SameButItem id w)
      (fun _ w' => w₁.outside key ≠ none ∧ w' = (w₁.removeFile key).2) w₁ := by
  unfold Host.removeOriginal
  refine Prog.meets_bind.mpr (Prog.meets_ask (StoreCall.ReadOnly.keeps (c := .statFile key) trivial w₁)
    rfl (fun _ h => .inl (h ▸ hw)) ?_ ?_)
  -- the original cannot be looked at: roll back
  · intro _ e w' hw'
    obtain rfl : w₁ = w' := hw'.symm
    exact rollBack_meets hid hw fun _ => .inl
  · rintro r w' - hw'
    obtain rfl : w₁ = w' := hw'.symm
    dsimp only
    split_ifs
    -- it is not the file that was copied any more
    · exact rollBack_meets hid hw fun _ => .inl
    · refine Prog.meets_ask_bind (fun n => ?_) (fun _ e _ => rollBack_meets hid hw fun _ => .inl)
        fun r w' hremoved => ?_
      · change SameButItem id w (if n = 0 then w₁ else (w₁.removeFile key).2) ∨
          _ ∧ (if n = 0 then w₁ else (w₁.removeFile key).2) = _
        -- a stop before the call takes effect, or after it
        by_cases hn : n = 0
        · exact .inl ((if_pos hn).symm ▸ hw)
        · rw [if_neg hn]
          by_cases hnone : w₁.outside key = none
          · have hsame : (w₁.removeFile key).2 = w₁ := by rw [Disk.removeFile, hnone]
            exact .inl (hsame.symm ▸ hw)
          · exact .inr ⟨hnone, rfl⟩
      · change w₁.removeFile key = (r, w') at hremoved
        cases hnode : w₁.outside key with
        | none =>
          rw [Disk.removeFile, hnode] at hremoved
          obtain ⟨rfl, rfl⟩ := Prod.mk.inj hremoved
          simp only [hnode] at *
          exact rollBack_meets hid hw fun _ => .inl
        | some node =>
          have hr : r = .ok () := by
            rw [Disk.removeFile, hnode] at hremoved
            exact (Prod.mk.inj hremoved).1.symm
          subst hr
          exact ⟨by simp, (congrArg Prod.snd hremoved).symm⟩

/-! ### What is given and what is taken -/

/-- Until the original is removed, what was given stays where it was. -/
theorem Host.AtRest.given (h : host.AtRest ids L w) (hid : id ∉ ids) (req : QuarantineRequest)
    (hw : SameButItem id w w') :
    ∃ L', Moves (givenTo w req id) L L' ∧ host.AtRest (id :: ids) L' w' := by
  cases hgiven : givenTo w req id with
  | none => exact ⟨L, rfl, h.sameButItem hid hw⟩
  | some r =>
    obtain ⟨key, -, hr⟩ := Option.bind_eq_some_iff.mp hgiven
    obtain ⟨content, hcontent, rfl⟩ := Option.map_eq_some_iff.mp hr
    exact ⟨L.give key content, .given key content id L, (h.give hcontent).sameButItem hid hw⟩

theorem removeFile_gone (w : Disk) (key : FileKey) : (w.removeFile key).2.outside key = none := by
  cases hnode : w.outside key with
  | none => rw [Disk.removeFile, hnode, hnode]
  | some node => simp [Disk.removeFile, hnode, Disk.relink, Disk.setFile]

theorem removeFile_items (w : Disk) (key : FileKey) (f : ItemFile) :
    (w.removeFile key).2.items.lookup f = w.items.lookup f :=
  Disk.apply_items (c := .removeFile key) not_false

theorem removeFile_contentAt {k : FileKey} (hk : k ≠ key) :
    (w.removeFile key).2.contentAt k = w.contentAt k :=
  Disk.apply_contentAt (c := .removeFile key) hk

/-- The original is removed when its copy and its record are in place: from here on the deposit is in the
item. -/
theorem Host.AtRest.take (h : host.AtRest ids L w) (hid : id ∉ ids) (hw : SameButItem id w w₁)
    (hcontent : w.contentAt key = some content) (hrid : record.id = id)
    (hrecord : host.recordAt w₁ id = some record) (hkey : ∀ k, host.originalKey record = some k → k = key)
    (hstored : host.StoredAs w₁ id content) :
    host.Interrupted (id :: ids) ((L.give key content).take key id) [record] (w₁.removeFile key).2 := by
  -- no file of the store is touched by the removal
  have hjson (id' : QuarantineId) := removeFile_items w₁ key (.json id')
  -- deposits in other items were there before
  have hsame {d : Deposit FileKey QuarantineId Bytes} {id' : QuarantineId}
      (hd : d ∈ (L.give key content).take key id) (hplace : d.place = .stored id') (hne : id' ≠ id) :
      d ∈ L := by
    rcases Ledger.mem_move.mp hd with ⟨hd, -⟩ | ⟨b, -, -, rfl⟩
    · rcases List.mem_append.mp hd with hd | hd
      · exact hd
      · rw [List.mem_singleton.mp hd] at hplace
        cases hplace
    · cases hplace
      exact absurd rfl hne
  -- and other items that are pending still hold none
  have hpending (id' : QuarantineId) (r : QuarantineRecord)
      (hr : host.recordAt (w₁.removeFile key).2 id' = some r) (hstate : r.state = .pending)
      (hne : id' ≠ id) : ∀ d ∈ (L.give key content).take key id, d.place ≠ .stored id' := by
    intro d hd hplace
    rw [recordAt_congr (hjson id'), recordAt_congr (hw.items (.json id') hne)] at hr
    exact h.resolved id' r hr hstate d (hsame hd hplace hne) hplace
  refine ⟨⟨⟨fun d hd => ?_, fun id' hid' => ?_⟩, fun id' r hr hstate hd => ?_⟩, ?_, ?_⟩
  · rcases Ledger.mem_move.mp hd with ⟨hd, hplace⟩ | ⟨b, hb, hplace, rfl⟩
    · rcases List.mem_append.mp hd with hd | hd
      · have hkept := h.kept d hd
        unfold Host.Kept at hkept ⊢
        split
        · rename_i k hk
          rw [hk] at hkept hplace
          rw [removeFile_contentAt fun heq => hplace (by rw [heq]), Disk.contentAt, hw.outside]
          exact hkept
        · rename_i id' hid'
          rw [hid'] at hkept
          have hne := h.stored_ne hid hd hid'
          exact (Host.StoredAs.congr hkept (hw.items (.json id') hne) (hw.items (.data id') hne)).congr
            (removeFile_items w₁ key _) (removeFile_items w₁ key _)
        · trivial
      · rw [List.mem_singleton.mp hd] at hplace
        exact absurd rfl hplace
    -- what moved into the item is what was at the original's name
    · have hb' : b.content = content := by
        rcases List.mem_append.mp hb with hb | hb
        · have hkept := h.kept b hb
          rw [Host.Kept, hplace] at hkept
          exact Option.some.inj (hkept.symm.trans hcontent)
        · rw [List.mem_singleton.mp hb]
      change host.StoredAs _ id b.content
      rw [hb']
      exact hstored.congr (removeFile_items w₁ key _) (removeFile_items w₁ key _)
  · by_cases hne : id' = id
    · exact List.mem_cons.mpr (.inl hne)
    · rw [hjson id', hw.items (.json id') hne] at hid'
      exact List.mem_cons_of_mem _ (h.drawn id' hid')
  -- the item is pending, and its original is gone
  · by_cases hne : id' = id
    · rw [hne, recordAt_congr (hjson id), hrecord] at hr
      cases hr
      unfold Host.presentAt
      cases hk : host.originalKey record with
      | none => rfl
      | some k =>
        rw [hkey k hk]
        simp only [removeFile_gone]
    · obtain ⟨d, hd, hplace⟩ := hd
      exact absurd hplace (hpending id' r hr hstate hne d hd)
  · intro r hr
    rw [List.mem_singleton.mp hr, hrid, recordAt_congr (hjson id)]
    exact hrecord
  · intro id' r hr hstate hnot
    rw [List.map_singleton, List.mem_singleton, hrid] at hnot
    exact hpending id' r hr hstate hnot

/-! ### The whole call -/

theorem renameData_ofItem : StoreCall.OfItem id (.renameItem (.dataTmp id) (.data id)) := by
  refine ⟨fun f hf => ?_, fun _ hkey => hkey.elim⟩
  rcases hf with rfl | rfl <;> rfl

theorem pendingRecord_key {st : FileNode} {sha256 : Sha256Digest} {copied : ℕ} :
    Host.recordKey (host.pendingRecord req d st sha256 copied) = some d.key.1 := by
  simp [Host.recordKey, Host.pendingRecord, unhex_hexEncode, d.key.2]

theorem pendingRecord_originalKey {st : FileNode} {sha256 : Sha256Digest} {copied : ℕ}
    {parent : NativePath} {name : Bytes} {k : FileKey} (hsplit : splitChecked req.path = .ok (parent, name))
    (h : host.originalKey (host.pendingRecord req d st sha256 copied) = some k) :
    k = parent.components ++ [name] := by
  have hpath : nativePath (host.pendingRecord req d st sha256 copied).original.path = some req.path :=
    nativePath_fromPath req.path
  unfold Host.originalKey at h
  rw [hpath] at h
  dsimp only at h
  rw [hsplit] at h
  dsimp only at h
  split at h
  · cases h
  · exact (Option.some.inj h).symm

/-- The copy and its record are put into the store. -/
def Host.storeCopy (host : Host) (req : QuarantineRequest) (d : Draws) (st : FileNode) :
    StoreProg QuarantineRecord := do
  let (sha256, copied) ← host.copyOriginal req d st
  let record := host.pendingRecord req d st sha256 copied
  host.save record
  (StoreCall.renameItem (.dataTmp d.id) (.data d.id)).orErr (.io "rename" (host.itemPath (.data d.id)))
  StoreCall.syncItems.orErr (.io "sync" host.root)
  pure record

/-- The record of an item whose original is gone. -/
def takenRecord (req : QuarantineRequest) (d : Draws) (record : QuarantineRecord) : QuarantineRecord :=
  { record with
    state := .quarantined
    updatedAt := d.later.1
    notes := record.notes ++ processNotes req d }

/-- What is left to do when the original is gone. -/
def Host.finishQuarantine (host : Host) (store : QuarantineStore) (req : QuarantineRequest) (d : Draws)
    (parent : NativePath) (record : QuarantineRecord) : StoreProg (QuarantineStore × QuarantineRecord) := do
  (StoreCall.syncDir parent.components).orErr (.io "sync" parent)
  host.save (takenRecord req d record)
  let store ← host.auditEvent store d.audited "quarantine" (some d.id) (some req.path)
    (some record.original.sha256) (.ok none)
  pure (store, takenRecord req d record)

/-- The call in its parts: the checks, the copy, the removal of the original, and the rest. -/
theorem quarantineInner_eq (store : QuarantineStore) : host.quarantineInner store req d =
    (host.openOriginal req).bind fun (parent, key, st) =>
      (host.storeCopy req d st).bind fun record =>
        (host.removeOriginal req d record key).bind fun _ => host.finishQuarantine store req d parent record := by
  unfold Host.storeCopy
  change Prog.bind _ _ = _
  congr 1
  funext opened
  simp only [Prog.bind_assoc, bind]
  rfl

theorem storeCopy_calls {st : FileNode} : (host.storeCopy req d st).Calls (StoreCall.OfItem d.id) := by
  refine copyOriginal_calls.bind fun (sha256, copied) => ?_
  refine (save_calls (host.pendingRecord req d st sha256 copied)).bind fun _ => ?_
  refine (Prog.Calls.request renameData_ofItem).bind fun _ => ?_
  exact (Prog.Calls.request (StoreCall.ReadOnly.ofItem (c := .syncItems) trivial)).bind fun _ => trivial

/-- The copy is what was read, and the record says so. -/
theorem storeCopy_returns {st : FileNode} : (host.storeCopy req d st).Returns mayFail (fun record w' =>
    record = host.pendingRecord req d st (host.sha256 st.content) st.content.length ∧
      (∃ data, host.records.toVecPretty record = .ok data) ∧ host.recordAt w' d.id = some record ∧
      host.StoredAs w' d.id st.content ∧ ∀ h, req.expectedSha256 = some h → host.sha256 st.content = h) w := by
  unfold Host.storeCopy
  refine Prog.Returns.bind (copyOriginal_returns.mono fun (sha256, copied) w₁ hcopied => ?_)
  obtain ⟨htmp, hr, hexpected⟩ := hcopied
  obtain ⟨rfl, rfl⟩ := Prod.mk.inj hr
  dsimp only
  generalize hrecord : host.pendingRecord req d st (host.sha256 st.content) st.content.length = record
  have hrid : record.id = d.id := by rw [← hrecord]; rfl
  refine Prog.Returns.bind (save_returns.mono fun _ w₂ hsaved => ?_)
  obtain ⟨data, hdata, hjson, hother⟩ := hsaved
  refine Prog.Returns.bind (Prog.returns_request fun _ w₃ hrename => ?_)
  obtain ⟨file, hfile, rfl⟩ := renameItem_eq_ok hrename
  refine Prog.Returns.bind (Prog.returns_request fun _ _ hsync => ?_)
  cases hsync
  -- naming the copy leaves the record as it was saved
  have hrecordAt : host.recordAt ((w₂.eraseItem (.dataTmp d.id)).setItem (.data d.id) file) d.id = some record := by
    refine recordAt_of_written (?_ : _ = some data) hdata
    rw [Disk.setItem_lookup, if_neg (by simp), Disk.eraseItem_lookup, if_neg (by simp), ← hrid, hjson]
  refine ⟨rfl, ⟨data, hdata⟩, hrecordAt, ?_, hexpected⟩
  refine ⟨record, d.key.1, file, hrecordAt, hrecord ▸ pendingRecord_key, ?_, ?_, ?_⟩
  · rw [Disk.setItem_lookup, if_pos rfl]
  · rw [hother _ (by simp) (by simp), htmp] at hfile
    rw [← Option.some.inj hfile, decoded_encoded]
  · rw [← hrecord]
    rfl

/-- A quarantine call takes what it was given or leaves it where it was, and either way leaves the store
to be recovered if it stops, and at rest if it returns. -/
theorem quarantineInner_meets {store : QuarantineStore} (h : host.AtRest ids L w) (hid : d.id ∉ ids) :
    (host.quarantineInner store req d).Meets StoreCall.mayFail
      (fun w' => ∃ L', Moves (givenTo w req d.id) L L' ∧ host.Recoverable (d.id :: ids) L' w')
      (fun _ w' => ∃ L', Moves (givenTo w req d.id) L L' ∧ host.AtRest (d.id :: ids) L' w')
      (fun _ w' => ∃ L', Moves (givenTo w req d.id) L L' ∧ host.AtRest (d.id :: ids) L' w') w := by
  have hrest : ∀ w', SameButItem d.id w w' →
      ∃ L', Moves (givenTo w req d.id) L L' ∧ host.AtRest (d.id :: ids) L' w' :=
    fun w' hw' => h.given hid req hw'
  have hstop : ∀ w', SameButItem d.id w w' →
      ∃ L', Moves (givenTo w req d.id) L L' ∧ host.Recoverable (d.id :: ids) L' w' := by
    intro w' hw'
    obtain ⟨L', hL', hrest⟩ := hrest w' hw'
    exact ⟨L', hL', hrest.recoverable⟩
  rw [quarantineInner_eq]
  -- up to the removal of the original only files of the item change
  refine Prog.meets_bind.mpr ((openOriginal_calls.meets_and (J := SameButItem d.id w)
    (fun c hc => keeps_sameButItem w c hc.ofItem) (.refl _ w) openOriginal_returns).mono
    hstop (fun _ => hrest) ?_)
  rintro ⟨parent, key, st⟩ w₁ ⟨hw₁, name, hsplit, hkey, hst⟩
  refine Prog.meets_bind.mpr ((storeCopy_calls.meets_and (keeps_sameButItem w) hw₁
    storeCopy_returns).mono hstop (fun _ => hrest) ?_)
  rintro record w₄ ⟨hw₄, hrecord, hdata, hrecordAt, hstored, -⟩
  -- the copy and its record are in place
  dsimp only at hsplit hkey hst
  have hrid : record.id = d.id := by rw [hrecord]; rfl
  have hcontent : w.contentAt key = some st.content := by rw [Disk.contentAt, hst]; rfl
  have hgiven : givenTo w req d.id = some (.quarantine key st.content d.id) := by
    rw [givenTo, fileKey, hsplit]
    change Option.map _ (w.contentAt (parent.components ++ [name])) = _
    rw [← hkey, hcontent]
    rfl
  have htake := h.take hid hw₄ hcontent hrid hrecordAt
    (fun k hk => (pendingRecord_originalKey hsplit (hrecord ▸ hk)).trans hkey.symm) hstored
  refine Prog.meets_bind.mpr ((removeOriginal_meets hrid hw₄).mono ?_ (fun _ => hrest) ?_)
  · rintro w' (hw' | ⟨-, rfl⟩)
    · exact hstop w' hw'
    · exact ⟨_, hgiven ▸ .taken key st.content d.id L, htake.toRecoverable⟩
  rintro - w' ⟨-, rfl⟩
  have hmoves : Moves (givenTo w req d.id) L ((L.give key st.content).take key d.id) :=
    hgiven ▸ .taken key st.content d.id L
  have hrecover (w' : Disk)
      (hw' : host.Recoverable (d.id :: ids) ((L.give key st.content).take key d.id) w') :
      ∃ L', Moves (givenTo w req d.id) L L' ∧ host.Recoverable (d.id :: ids) L' w' := ⟨_, hmoves, hw'⟩
  have htaken (w' : Disk)
      (hw' : host.AtRest (d.id :: ids) ((L.give key st.content).take key d.id) w') :
      ∃ L', Moves (givenTo w req d.id) L L' ∧ host.AtRest (d.id :: ids) L' w' := ⟨_, hmoves, hw'⟩
  have hwritable := (host.records.toVecPretty_writable record).mpr hdata
  refine Prog.meets_bind.mpr (Prog.meets_keeping (keeps_interrupted (.syncDir _)
    (StoreCall.ReadOnly.scratch trivial)) htake (fun _ h => hrecover _ h.toRecoverable) (fun h => by cases h)
    (fun _ h => by cases h) fun _ w₆ _ hw₆ => ?_)
  have hresolves : QuarantineRecord.Resolves { record with
      state := .quarantined
      updatedAt := d.later.1
      notes := record.notes ++ processNotes req d } record := ⟨rfl, rfl, rfl, by simp⟩
  refine Prog.meets_bind.mpr ((hw₆.save_meets (by simp) hresolves
    (.inl ⟨⟨hwritable.1, d.later.2, hwritable.2.2⟩, fun c hc => by simp [StoreCall.mayFail, hc]⟩)
    fun _ h => h.atRest).mono hrecover (fun _ => htaken) fun _ w₇ hw₇ => ?_)
  exact Prog.meets_bind.mpr (((appendEntry_calls _ _).meets keeps_atRest hw₇.atRest).mono
    (fun _ h => hrecover _ h.recoverable) (fun _ => htaken) fun _ => htaken)

theorem quarantine_meets {store : QuarantineStore} (h : host.AtRest ids L w) (hid : d.id ∉ ids) :
    (host.quarantine store req d).Meets StoreCall.mayFail
      (fun w' => ∃ L', Moves (givenTo w req d.id) L L' ∧ host.Recoverable (d.id :: ids) L' w')
      (fun _ _ => False)
      (fun _ w' => ∃ L', Moves (givenTo w req d.id) L L' ∧ host.AtRest (d.id :: ids) L' w') w := by
  unfold Host.quarantine
  refine Prog.meets_bind.mpr (Prog.meets_attempt.mpr ((quarantineInner_meets h hid).mono
    (fun _ h => h) ?_ fun _ _ h => h))
  rintro e w' ⟨L', hL', hw'⟩
  refine Prog.meets_bind.mpr (Prog.meets_attempt.mpr (((appendEntry_calls _ _).meets keeps_atRest
    hw').mono (fun _ h => ⟨L', hL', h.recoverable⟩) ?_ ?_))
  · exact fun _ _ h => ⟨L', hL', h⟩
  · exact fun _ _ h => ⟨L', hL', h⟩

end AbyssalWarden

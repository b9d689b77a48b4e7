import AbyssalWarden.LifecycleCalls

/-! A quarantine call, the calls as their users see them, and opening the store, which resolves what was
interrupted. -/
namespace AbyssalWarden

variable {host : Host} {ids todo : List QuarantineId} {w w' : Disk} {id : QuarantineId}
  {record old : QuarantineRecord} {g g' g₁ : Progress} {req : QuarantineRequest} {d : Draws}
  {store : QuarantineStore} {entry : AuditEntry} {now : Now} {key : FileKey}

/-! ### Quarantine -/

theorem writeEncoded_quiet {content k : Bytes} {max : ℕ} {path : NativePath} :
    (host.writeEncoded id content k max path).Calls StoreCall.Quiet := by
  refine (Prog.Calls.request trivial).bind fun _ => (Prog.Calls.request trivial).bind fun _ => ?_
  refine Prog.Calls.bind (Prog.Calls.forEach (fun _ _ => ?_) _ _) fun _ => ?_
  · exact (Prog.Calls.ofExcept _).bind fun _ => (Prog.Calls.request trivial).bind fun _ => trivial
  · refine (Prog.Calls.request trivial).bind fun _ => decodeFile_quiet.bind fun _ => ?_
    exact (Prog.Calls.ofExcept _).bind fun _ => trivial

theorem copyOriginal_quiet {st : FileNode} : (host.copyOriginal req d st).Calls StoreCall.Quiet := by
  have hremove : (StoreCall.ignored (.removeItem (.dataTmp d.id))).Calls StoreCall.Quiet := Prog.Calls.ignore trivial
  refine (writeEncoded_quiet.orCleanup hremove).bind fun copied => ?_
  obtain ⟨sha256, copied⟩ := copied
  cases req.expectedSha256 with
  | none => trivial
  | some expected =>
    dsimp only
    split
    · exact hremove.bind fun _ => trivial
    · trivial

/-- The stored file of a pending item is removed, if it is there. -/
theorem discard_runs (h : host.Working ids todo g w) (hstate : host.stateAt w id = some .pending) :
    (StoreCall.ignored (.removeItem (.data id))).MeetsWith never host.note (host.Ordered ids) (fun _ _ _ => False)
      (fun _ g' w' => g' = g ∧ host.Working ids todo g w' ∧ (∀ id, host.recordAt w' id = host.recordAt w id) ∧
        w'.items.lookup (.data id) = none) g w := by
  have hstutter : host.note g ⟨.removeItem (.data id), w, w⟩ = g :=
    note_stutter (c := .removeItem (.data id)) fun _ h => by cases h
  have hbefore : host.Ordered ids (host.note g ⟨.removeItem (.data id), w, w⟩) w := hstutter.symm ▸ h.toOrdered
  -- the file is missing, and the call does nothing; or it is there, and goes
  cases hfile : w.items.lookup (.data id) with
  | none =>
    have happly : w.removeItem (.data id) = (.error .noent, w) := by rw [Disk.removeItem, hfile]
    refine ⟨fun n => ?_, (fun h => by cases h), ?_⟩
    · change host.Ordered ids (host.note g ⟨_, w, if n = 0 then w else (w.removeItem (.data id)).2⟩)
        (if n = 0 then w else (w.removeItem (.data id)).2)
      rw [happly, ite_self]
      exact hbefore
    · have happly' : storeSystem.apply (.removeItem (.data id)) w = (.error .noent, w) := happly
      rw [happly']
      exact ⟨hstutter, h, fun _ => rfl, hfile⟩
  | some file =>
    have happly : w.removeItem (.data id) = (.ok (), w.eraseItem (.data id)) := by rw [Disk.removeItem, hfile]
    have hnote : host.note g ⟨.removeItem (.data id), w, w.eraseItem (.data id)⟩ = g :=
      (note_erase (by simp [hfile])).trans (if_neg (by simp [hstate]))
    have hworking : host.Working ids todo g (w.eraseItem (.data id)) :=
      h.dataChanged hstate (fun f _ hf => by rw [Disk.eraseItem_lookup, if_neg hf]) rfl
    refine ⟨fun n => ?_, (fun h => by cases h), ?_⟩
    · change host.Ordered ids (host.note g ⟨_, w, if n = 0 then w else (w.removeItem (.data id)).2⟩)
        (if n = 0 then w else (w.removeItem (.data id)).2)
      rw [happly]
      -- a stop before the call takes effect, or after it
      by_cases hn : n = 0
      · rw [if_pos hn]
        exact hbefore
      · rw [if_neg hn, hnote]
        exact hworking.toOrdered
    · have happly' : storeSystem.apply (.removeItem (.data id)) w = (.ok (), w.eraseItem (.data id)) := happly
      rw [happly']
      refine ⟨hnote, hworking, fun id' => recordAt_congr (eraseItem_json w id id'), ?_⟩
      rw [Disk.eraseItem_lookup, if_pos rfl]

/-- The copy of a pending item gets its name. -/
theorem renameData_runs {onError : Errno → RemediationError} {file : Bytes} (h : host.Working ids todo g w)
    (hstate : host.stateAt w id = some .pending) (hfile : w.items.lookup (.dataTmp id) = some file) :
    ((StoreCall.renameItem (.dataTmp id) (.data id)).orErr onError).MeetsWith never host.note (host.Ordered ids)
      (fun _ _ _ => False) (fun _ g' w' => g' = g ∧ host.Working ids todo g w' ∧
        (∀ id, host.recordAt w' id = host.recordAt w id) ∧ w'.items.lookup (.data id) = some file) g w := by
  have happly : w.renameItem (.dataTmp id) (.data id) =
      (.ok (), (w.eraseItem (.dataTmp id)).setItem (.data id) file) := by rw [Disk.renameItem, hfile]
  have happly' : storeSystem.apply (.renameItem (.dataTmp id) (.data id)) w =
      (.ok (), (w.eraseItem (.dataTmp id)).setItem (.data id) file) := happly
  have hlookup (f : ItemFile) (htmp : ¬ f.IsTmp) (hf : f ≠ .data id) :
      ((w.eraseItem (.dataTmp id)).setItem (.data id) file).items.lookup f = w.items.lookup f := by
    have hne : f ≠ .dataTmp id := by
      rintro rfl
      exact htmp trivial
    rw [Disk.setItem_lookup, if_neg hf, Disk.eraseItem_lookup, if_neg hne]
  have hrecord (id' : QuarantineId) : host.recordAt ((w.eraseItem (.dataTmp id)).setItem (.data id) file) id' =
      host.recordAt w id' := recordAt_congr (hlookup _ (json_not_tmp id') (by simp))
  have hworking := h.dataChanged hstate hlookup rfl
  -- the call touches no record
  have hnote : host.note g ⟨.renameItem (.dataTmp id) (.data id), w,
      (w.eraseItem (.dataTmp id)).setItem (.data id) file⟩ = g := by
    refine note_eq rfl rfl fun id' => ?_
    rw [Host.stateAt, Host.stateAt, hrecord]
    exact .same _
  -- it is stopped somewhere, or it succeeds: it cannot fail
  refine Prog.meetsWith_request (fun n => ?_) (fun h => by cases h) (fun e w' h => ?_) fun _ w' h => ?_
  · change host.Ordered ids (host.note g ⟨_, w, if n = 0 then w else (w.renameItem _ _).2⟩)
      (if n = 0 then w else (w.renameItem _ _).2)
    rw [happly]
    by_cases hn : n = 0
    · rw [if_pos hn, note_stutter (c := .renameItem _ _) fun _ h => by cases h]
      exact h.toOrdered
    · rw [if_neg hn, hnote]
      exact hworking.toOrdered
  · rw [happly'] at h
    cases h
  · rw [happly'] at h
    cases h
    refine ⟨hnote, hworking, hrecord, ?_⟩
    rw [Disk.setItem_lookup, if_pos rfl]

theorem Host.Working.draw (h : host.Working ids todo g w) (id : QuarantineId) :
    host.Working (id :: ids) todo g w where
  toOrdered := ⟨fun id' hid' => List.mem_cons_of_mem _ (h.drawn id' hid'), h.writable, h.data, h.half, h.log,
    h.lawful⟩
  pending := h.pending
  lineEnd := h.lineEnd

/-- The copy of a file was put into the store under its identifier, and is still pending. -/
structure Host.CopyPending (host : Host) (ids : List QuarantineId) (g : Progress) (req : QuarantineRequest) (d : Draws)
    (record : QuarantineRecord) (w' : Disk) : Prop where
  working : host.Working (d.id :: ids) [d.id] g w'
  id : record.id = d.id
  state : record.state = .pending
  writable : record.Writable
  recordAt : host.recordAt w' d.id = some record
  copy : host.copyAt w' record (.data d.id) = some record.original.sha256

theorem Host.CopyPending.view (h : host.CopyPending ids g req d record w) (hw : SameView w w') :
    host.CopyPending ids g req d record w' where
  working := h.working.view hw
  id := h.id
  state := h.state
  writable := h.writable
  recordAt := (hw.recordAt d.id).trans h.recordAt
  copy := (copyAt_congr (hw.items _ (data_not_tmp d.id))).trans h.copy

theorem storeCopy_runs {st : FileNode} (h : host.Working ids [] g w) (hfresh : d.id ∉ ids) :
    (host.storeCopy req d st).MeetsWith never host.note (host.Ordered (d.id :: ids))
      (fun _ => host.Settled (d.id :: ids) [] g)
      (fun record g' w' => g' = g ∧ host.CopyPending ids g req d record w') g w := by
  have hdraw := h.draw d.id
  -- a drawn identifier is new: there is no record yet
  have hnone : host.stateAt w d.id = none := by
    have hlookup : w.items.lookup (.json d.id) = none := by
      by_contra hne
      exact hfresh (h.drawn d.id hne)
    rw [Host.stateAt, Host.recordAt, hlookup]
    rfl
  unfold Host.storeCopy
  refine Prog.meetsWith_bind.mpr ((hdraw.quiet copyOriginal_quiet (copyOriginal_returns)).mono
    (fun _ _ h => h) ?_ ?_)
  · rintro _ g' w' ⟨rfl, hw, -⟩
    exact (hdraw.view hw).settled
  rintro _ g' w₁ ⟨rfl, hw₁, htmp, rfl, -⟩
  dsimp only
  generalize hrecord : host.pendingRecord req d st (host.sha256 st.content) st.content.length = record
  have hrid : record.id = d.id := by rw [← hrecord]; rfl
  have hstate : record.state = .pending := by rw [← hrecord]; rfl
  have hworking := hdraw.view hw₁
  -- the life of the item begins with its pending record
  have hlife : Lifecycle (host.stateAt w₁ record.id) (some record.state) := by
    rw [hrid, hw₁.stateAt, hnone, hstate]
    exact .begun
  have hsave := hworking.save record [d.id] hlife (hrid ▸ List.mem_cons_self) (fun heq => by simp [hstate] at heq)
    (fun heq => by simp [hstate] at heq) (fun _ h _ => absurd h List.not_mem_nil)
    fun _ => hrid ▸ List.mem_singleton_self _
  refine Prog.meetsWith_bind.mpr ((hsave.and save_returns).mono (fun _ _ h => h.1) ?_ ?_)
  · rintro _ g₂ w₂ ⟨⟨rfl, hw₂, -⟩, -⟩
    exact hw₂.settled
  rintro _ g₂ w₂ ⟨⟨rfl, hw₂, hrecordAt, -⟩, data, hdata, -, hother⟩
  have hsaved : g'.saved record = g' := by
    have hother : ∀ id ∈ g'.halfDone, id ≠ record.id := by
      rintro id hid rfl
      have hstate := (hworking.half _ hid).1
      rw [hw₁.stateAt, hrid, hnone] at hstate
      cases hstate
    have hfilter : g'.halfDone.filter (· ≠ record.id) = g'.halfDone :=
      List.filter_eq_self.mpr fun id hid => decide_eq_true (hother id hid)
    rw [Progress.saved, if_pos hstate, hfilter]
  rw [hsaved] at hw₂ ⊢
  rw [hrid] at hrecordAt
  have hfile : w₂.items.lookup (.dataTmp d.id) = some (encoded d.key.1 st.content) := by
    rw [hother _ (by simp) (by simp), htmp]
  refine Prog.meetsWith_bind.mpr ((renameData_runs hw₂ (by rw [stateAt_of_recordAt hrecordAt, hstate]) hfile).mono
    (fun _ _ h => h) (fun _ _ _ h => h.elim) ?_)
  rintro _ g₃ w₃ ⟨rfl, hw₃, hsame, hfile₃⟩
  have hcopied : host.CopyPending ids g₃ req d record w₃ := by
    refine ⟨hw₃, hrid, hstate, (host.records.toVecPretty_writable record).mpr ⟨data, hdata⟩,
      (hsame d.id).trans hrecordAt, ?_⟩
    have hkey : Host.recordKey record = some d.key.1 := hrecord ▸ pendingRecord_key
    rw [Host.copyAt, hkey, Option.bind_some, hfile₃, Option.bind_some, decoded_encoded, ← hrecord]
    rfl
  refine Prog.meetsWith_bind.mpr ((hw₃.sure (c := .syncItems) trivial fun _ h => by cases h).mono (fun _ _ h => h)
    (fun _ _ _ h => h.elim) ?_)
  rintro _ g₄ w₄ ⟨rfl, hw₄, -⟩
  exact ⟨rfl, hcopied.view hw₄⟩

theorem Host.Ordered.asked {ε : Type} {c : StoreCall} (h : host.Ordered ids g w) (hc : c.Quiet) :
    (Prog.ask (S := storeSystem) c : Prog storeSystem ε _).MeetsWith never host.note (host.Ordered ids)
      (fun _ _ _ => False) (fun a g' w' => g' = g ∧ SameView w w' ∧ w.apply c = (a, w')) g w := by
  have hm : (Prog.ask (S := storeSystem) c : Prog storeSystem ε _).Meets never (fun _ => True) (fun _ _ => False)
      (fun a w' => w.apply c = (a, w')) w :=
    ⟨fun _ => trivial, (fun h => by cases h), rfl⟩
  exact (h.quiet (Prog.Calls.ask hc) hm).mono (fun _ _ h => h) (fun _ _ _ h => h.2.2) fun _ _ _ h => h

/-- The original is still what was copied, so the copy is not given up. -/
theorem removeOriginal_runs {st : FileNode} (h : host.CopyPending ids g req d record w) (hst : w.outside key = some st)
    (hdev : record.original.dev = st.dev) (hino : record.original.ino = st.ino) :
    (host.removeOriginal req d record key).MeetsWith never host.note (host.Ordered (d.id :: ids))
      (fun _ _ _ => False) (fun _ g' w' => g' = g ∧ host.CopyPending ids g req d record w') g w := by
  unfold Host.removeOriginal
  refine Prog.meetsWith_bind.mpr ((h.working.asked (c := .statFile key) trivial).mono (fun _ _ h => h)
    (fun _ _ _ h => h) ?_)
  rintro now g₁ w₁ ⟨rfl, -, happly⟩
  obtain ⟨rfl, rfl⟩ := Prod.mk.inj ((Disk.statFile_apply hst).symm.trans happly)
  dsimp only
  rw [if_neg (by simp [hdev, hino])]
  refine Prog.meetsWith_bind.mpr ((h.working.asked (c := .removeFile key) trivial).mono (fun _ _ h => h)
    (fun _ _ _ h => h) ?_)
  rintro removed g₂ w₂ ⟨rfl, hw₂, happly⟩
  obtain ⟨rfl, -⟩ := Prod.mk.inj ((Disk.removeFile_apply hst).symm.trans happly)
  exact ⟨rfl, h.view hw₂⟩

theorem finishQuarantine_runs {parent : NativePath} (h : host.CopyPending ids g req d record w) :
    (host.finishQuarantine store req d parent record).MeetsWith never host.note (host.Ordered (d.id :: ids))
      (fun _ => host.Settled (d.id :: ids) [] g) (fun _ => host.Settled (d.id :: ids) [] g) g w := by
  unfold Host.finishQuarantine
  -- the directory is synced, the final record saved, and the entry appended
  refine Prog.meetsWith_bind.mpr ((h.working.sure (c := .syncDir _) trivial fun _ h => by cases h).mono
    (fun _ _ h => h) (fun _ _ _ h => h.elim) ?_)
  rintro _ g₁ w₁ ⟨rfl, hw₁, -⟩
  have h₁ := h.view hw₁
  refine Prog.meetsWith_bind.mpr ((h₁.working.save (takenRecord req d record) [] ?_ ?_ (fun _ => ?_)
    (fun h => by simp [takenRecord] at h) ?_ fun h => by cases h).mono (fun _ _ h => h) ?_ ?_)
  · change Lifecycle (host.stateAt w₁ record.id) (some .quarantined)
    rw [h.id, stateAt_of_recordAt h₁.recordAt, h.state]
    exact .quarantined
  · exact h.id ▸ List.mem_cons_self
  · change host.copyAt w₁ record (.data record.id) = some record.original.sha256
    rw [h.id]
    exact h₁.copy
  · intro id hid hne
    exact absurd ((List.mem_singleton.mp hid).trans h.id.symm) hne
  -- the record can be written, so saving it is not refused
  · rintro _ g' w' ⟨-, -, hnot⟩
    exact absurd ⟨h.writable.1, d.later.2, h.writable.2.2⟩ hnot
  · rintro _ g' w' ⟨rfl, hw', hrecord', -⟩
    have hfinished : host.Finished (d.id :: ids) [] g₁ (takenRecord req d record)
        (g₁.saved (takenRecord req d record)) w' := hw'.finished hrecord' (fun _ => .inr) rfl
    have hannounces : Host.Announces (takenRecord req d record) (takenRecord req d record).id
        (host.auditEntry store d.audited "quarantine" (some d.id) (some req.path) (some record.original.sha256)
          (.ok none)) :=
      ⟨congrArg (fun id : QuarantineId => some id.text) h.id.symm, rfl, .inl rfl⟩
    refine Prog.meetsWith_bind.mpr ((hfinished.audit hannounces d.audited.2).mono (fun _ _ h => h)
      (fun _ _ _ h => h) fun _ _ _ h => h.1)

theorem quarantineInner_runs (h : host.Working ids [] g w) (hfresh : d.id ∉ ids) :
    (host.quarantineInner store req d).MeetsWith never host.note (host.Ordered (d.id :: ids))
      (fun _ => host.Settled (d.id :: ids) [] g) (fun _ => host.Settled (d.id :: ids) [] g) g w := by
  rw [quarantineInner_eq]
  have hdraw := h.draw d.id
  refine Prog.meetsWith_bind.mpr ((hdraw.quiet (openOriginal_calls.mono fun _ hc => hc.quiet)
    ((openOriginal_calls.meets_and (fun _ hc => hc.keeps w) rfl openOriginal_returns).mono (fun _ _ => trivial)
      (fun _ _ h => h) fun _ _ h => h)).mono (fun _ _ h => h) ?_ ?_)
  · rintro _ g' w' ⟨rfl, hw, -⟩
    exact (hdraw.view hw).settled
  rintro ⟨parent, key, st⟩ g₁ w₁ ⟨rfl, -, rfl, name, -, -, hst⟩
  -- the files outside the store stay as they are while the copy is made
  refine Prog.meetsWith_bind.mpr (((storeCopy_runs h hfresh).and (storeCopy_calls.meets_and (keeps_sameButItem w₁)
    (.refl _ w₁) storeCopy_returns)).mono (fun _ _ h => h.1) (fun _ _ _ h => h.1) ?_)
  rintro record g₂ w₂ ⟨⟨rfl, hcopied⟩, hsame, hrecord, -⟩
  have hst₂ : w₂.outside key = some st := by rw [hsame.outside, hst]
  refine Prog.meetsWith_bind.mpr ((removeOriginal_runs hcopied hst₂ ?_ ?_).mono (fun _ _ h => h) (fun _ _ _ h => h.elim) ?_)
  · rw [hrecord]
    rfl
  · rw [hrecord]
    rfl
  rintro _ g₃ w₃ ⟨rfl, hcopied⟩
  exact finishQuarantine_runs hcopied

theorem quarantine_runs (h : host.Working ids [] g w) (hfresh : d.id ∉ ids) :
    (host.quarantine store req d).MeetsWith never host.note (host.Ordered (d.id :: ids)) (fun _ _ _ => False)
      (fun _ => host.Settled (d.id :: ids) [] g) g w := by
  unfold Host.quarantine
  refine Prog.meetsWith_bind.mpr (Prog.meetsWith_attempt.mpr ((quarantineInner_runs h hfresh).mono
    (fun _ _ h => h) ?_ fun _ _ _ h => h))
  -- the error is audited
  intro e g' w' hsettled
  exact Prog.meetsWith_bind.mpr (Prog.meetsWith_attempt.mpr (hsettled.audit.mono (fun _ _ h => h)
    (fun _ _ _ h => h) fun _ _ _ h => h))

/-! ### The calls as their users see them -/

theorem audited_runs {α : Type} {inner : StoreProg α} {action : String} {detail : α → Option String}
    (h : inner.MeetsWith never host.note (host.Ordered ids) (fun _ => host.Settled ids [] g)
      (fun _ g' w' => ∃ record, host.Finished ids [] g record g' w' ∧ record.id = id ∧
        (record.state = .restored ∧ action = "restore" ∨ record.state = .deleted ∧ action = "delete")) g w) :
    (host.audited store inner now action id detail).MeetsWith never host.note (host.Ordered ids)
      (fun _ _ _ => False) (fun _ => host.Settled ids [] g) g w := by
  unfold Host.audited
  refine Prog.meetsWith_bind.mpr (Prog.meetsWith_attempt.mpr (h.mono (fun _ _ h => h) ?_ ?_))
  · intro e g' w' hsettled
    refine Prog.meetsWith_bind.mpr (Prog.meetsWith_attempt.mpr (hsettled.audit.mono (fun _ _ h => h) ?_ ?_))
    · exact fun _ _ _ h => h
    · exact fun _ _ _ h => h
  · rintro a g' w' ⟨record, hfinished, rfl, haction⟩
    refine Prog.meetsWith_bind.mpr (Prog.meetsWith_attempt.mpr ((hfinished.audit ?_ now.2).mono (fun _ _ h => h)
      (fun _ _ _ h => h) fun _ _ _ h => h.1))
    rcases haction with ⟨hstate, rfl⟩ | ⟨hstate, rfl⟩
    · rw [Host.Announces, hstate]
      exact ⟨rfl, rfl, rfl⟩
    · rw [Host.Announces, hstate]
      exact ⟨rfl, rfl, rfl⟩

end AbyssalWarden

import AbyssalWarden.FaultFree
import AbyssalWarden.Processes
import AbyssalWarden.QuarantineOutcome
import AbyssalWarden.StoreRun

/-! What a quarantine leaves behind when one of its calls fails before the original is gone. -/
namespace AbyssalWarden

/-- The call, up to where the processes are killed. -/
def Host.untilKilled (host : Host) (req : QuarantineRequest) (d : Draws) : StoreProg Unit :=
  (host.takeOriginal req d).bind fun (parent, _) =>
    (StoreCall.syncDir parent.components).orErr (.io "sync" parent)

/-- What a quarantine does to the processes that run the file: they are paused when the file is open. A call
that returns an error drops the guard, and one that is stopped does not come to that. -/
def Host.processesAfter (host : Host) (deliver : Delivery) (req : QuarantineRequest) (d : Draws)
    (faults : List (Fault Errno)) (w : Disk) (ps : Processes) : Processes :=
  match (host.openOriginal req).run anyFails faults w with
  | (.ok _, _) =>
    if req.killProcesses = true ∧ d.users ≠ [] then
      let (paused, _, ps) := Paused.pause deliver d.users ps
      match (host.untilKilled req d).run anyFails faults w with
      | (.ok _, _) => (paused.kill deliver ps).2
      | (.error _, _) => paused.drop deliver ps
      | (.stopped, _) => ps
    else ps
  | _ => ps

/-- There is neither a copy nor a pending record of the item. -/
structure Host.NoTrace (host : Host) (id : QuarantineId) (w : Disk) : Prop where
  data : w.items.lookup (.data id) = none
  dataTmp : w.items.lookup (.dataTmp id) = none
  resolved : ∀ record, host.recordAt w id = some record → record.state ≠ .pending

/-- The original is untouched, the processes that were paused run again, and no trace of the item is left. -/
structure Host.NothingLeft (host : Host) (id : QuarantineId) (w w' : Disk) (ps ps' : Processes) : Prop extends
    Host.NoTrace host id w' where
  original : w'.outside = w.outside
  resumed : ∀ pid, ps pid ≠ .stopped → ps' pid = ps pid

/-- The calls whose failure is cleaned up after: those on the original, and those that write the copy and
read it back. Not the ones of the journal, of the rename of the copy, and of the cleanup itself. -/
def StoreCall.cleanedUp : StoreCall → Bool
  | .openFile _ | .statFile _ | .removeFile _ | .createItem _ | .readItem _ => true
  | .appendItem (.dataTmp _) _ | .syncItem (.dataTmp _) => true
  | _ => false

variable {host : Host} {mayFail : StoreCall → Bool} {req : QuarantineRequest} {d : Draws} {store : QuarantineStore}
  {record : QuarantineRecord} {w w' : Disk} {id : QuarantineId} {key : FileKey}

/-- What a failing call comes to: an error, with or without a trace of the item. -/
def FailedEnd (host : Host) {α : Type} (id : QuarantineId) (c : StoreCall)
    (r : Outcome RemediationError α × Disk) : Prop :=
  ∃ e w', r = (.error e, w') ∧ (host.NoTrace id w' ↔ c.cleanedUp = true)

theorem FailedEnd.clean {α : Type} {c : StoreCall} {e : RemediationError} (hc : c.cleanedUp = true)
    (h : host.NoTrace id w) : FailedEnd host (α := α) id c (.error e, w) :=
  ⟨e, w, rfl, iff_of_true h hc⟩

theorem FailedEnd.unclean {α : Type} {c : StoreCall} {e : RemediationError} (hc : c.cleanedUp = false)
    (h : ¬ host.NoTrace id w) : FailedEnd host (α := α) id c (.error e, w) :=
  ⟨e, w, rfl, iff_of_false h (by simp [hc])⟩

theorem FailedEnd.goOn {α β : Type} {c : StoreCall} {f : α → StoreProg β}
    {r : Outcome RemediationError α × Disk} (h : FailedEnd host id c r) :
    FailedEnd host id c (Prog.goOn mayFail f r) := by
  obtain ⟨e, w', rfl, hiff⟩ := h
  exact ⟨e, w', rfl, hiff⟩

/-- The program's calls, followed by others, end so. -/
theorem failsOnce_goOn {α β : Type} {p : StoreProg α} {f : α → StoreProg β}
    (h : p.FailsOnce mayFail (FailedEnd host id) w) :
    p.FailsOnce mayFail (fun c r => FailedEnd host id c (Prog.goOn mayFail f r)) w :=
  h.mono fun _ _ hr => hr.goOn

/-- An item that is new. -/
def Disk.NewItem (w : Disk) (id : QuarantineId) : Prop := ∀ f : ItemFile, f.id = id → w.items.lookup f = none

theorem Disk.NewItem.noTrace (h : w.NewItem id) : host.NoTrace id w where
  data := h _ rfl
  dataTmp := h _ rfl
  resolved record hrecord := by
    obtain ⟨data, hdata, -⟩ := recordAt_eq_some hrecord
    rw [h _ rfl] at hdata
    cases hdata

/-! ### The checks -/

theorem openOriginal_strict : (host.openOriginal req).Strict := by
  refine (Prog.Strict.ofExcept _).bind fun _ => ?_
  refine (Prog.Strict.ofExcept _).bind fun _ => (Prog.Strict.ofExcept _).bind fun _ => ?_
  refine (Prog.Strict.ofExcept _).bind fun _ => (Prog.Strict.ofExcept _).bind fun _ => ?_
  refine Prog.Strict.request.bind fun _ => (Prog.Strict.ofExcept _).bind fun _ => ?_
  exact (Prog.Strict.ofExcept _).bind fun _ => (Prog.Strict.ofExcept _).bind fun _ => trivial

theorem openOriginal_opens : (host.openOriginal req).Calls fun c => ∃ key, c = StoreCall.openFile key := by
  refine (Prog.Calls.ofExcept _).bind fun _ => ?_
  refine (Prog.Calls.ofExcept _).bind fun _ => (Prog.Calls.ofExcept _).bind fun _ => ?_
  refine (Prog.Calls.ofExcept _).bind fun _ => (Prog.Calls.ofExcept _).bind fun _ => ?_
  refine (Prog.Calls.request ⟨_, rfl⟩).bind fun _ => (Prog.Calls.ofExcept _).bind fun _ => ?_
  exact (Prog.Calls.ofExcept _).bind fun _ => (Prog.Calls.ofExcept _).bind fun _ => trivial

theorem openOriginal_failsOnce (hnew : w.NewItem id) :
    (host.openOriginal req).FailsOnce mayFail (FailedEnd host id) w := by
  refine openOriginal_strict.failsOnce openOriginal_opens (J := (· = w)) ?_ rfl ?_
  · rintro c ⟨key, rfl⟩
    exact StoreCall.ReadOnly.keeps (c := .openFile key) trivial w
  · rintro c e w' ⟨key, rfl⟩ rfl
    exact .clean rfl hnew.noTrace

/-! ### The copy -/

/-- The call writes the copy or reads it back. -/
structure StoreCall.Copies (id : QuarantineId) (c : StoreCall) : Prop where
  cleanedUp : c.cleanedUp = true
  items : ∀ f, c.WritesItem f → f = .dataTmp id

theorem decodeFile_strict {f : ItemFile} {k : Bytes} : (host.decodeFile id f k none).Strict := by
  refine Prog.Strict.request.bind fun _ => (Prog.Strict.ofExcept _).bind fun _ => ?_
  refine (Prog.Strict.ofExcept _).bind fun _ => ?_
  exact (Prog.Strict.forEach (fun _ _ => by unfold Host.decodePiece; trivial) _ _).bind fun _ => trivial

theorem writeEncoded_strict {content k : Bytes} {max : ℕ} {path : NativePath} :
    (host.writeEncoded id content k max path).Strict := by
  refine Prog.Strict.request.bind fun _ => Prog.Strict.request.bind fun _ => ?_
  refine Prog.Strict.bind (Prog.Strict.forEach (fun _ _ => ?_) _ _) fun _ => ?_
  · exact (Prog.Strict.ofExcept _).bind fun _ => Prog.Strict.request.bind fun _ => trivial
  · refine Prog.Strict.request.bind fun _ => decodeFile_strict.bind fun _ => ?_
    exact (Prog.Strict.ofExcept _).bind fun _ => trivial

theorem writeEncoded_copies {content k : Bytes} {max : ℕ} {path : NativePath} :
    (host.writeEncoded id content k max path).Calls (StoreCall.Copies id) := by
  have hread : (host.decodeFile id (.dataTmp id) k none).Calls (StoreCall.Copies id) := by
    refine (Prog.Calls.request ⟨rfl, fun _ h => h.elim⟩).bind fun _ => (Prog.Calls.ofExcept _).bind fun _ => ?_
    refine (Prog.Calls.ofExcept _).bind fun _ => ?_
    exact (Prog.Calls.forEach (fun _ _ => by unfold Host.decodePiece; trivial) _ _).bind fun _ => trivial
  refine (Prog.Calls.request ⟨rfl, fun _ h => h⟩).bind fun _ => ?_
  refine (Prog.Calls.request ⟨rfl, fun _ h => h⟩).bind fun _ => ?_
  refine Prog.Calls.bind (Prog.Calls.forEach (fun _ _ => ?_) _ _) fun _ => ?_
  · refine (Prog.Calls.ofExcept _).bind fun _ => ?_
    exact (Prog.Calls.request ⟨rfl, fun _ h => h⟩).bind fun _ => trivial
  · refine (Prog.Calls.request ⟨rfl, fun _ h => h.elim⟩).bind fun _ => hread.bind fun _ => ?_
    exact (Prog.Calls.ofExcept _).bind fun _ => trivial

/-- But for the copy the item is still new. -/
def Disk.OnlyCopy (id : QuarantineId) (w : Disk) : Prop :=
  ∀ f : ItemFile, f.id = id → f ≠ .dataTmp id → w.items.lookup f = none

theorem keeps_onlyCopy (c : StoreCall) (hc : c.Copies id) :
    Prog.Keeps storeSystem (Disk.OnlyCopy id) c := by
  refine keeps_of_apply (P := fun c => ∀ f, c.WritesItem f → f = .dataTmp id) ?_ ?_ c hc.items
  · exact fun c n hc f hf => hc f (StoreCall.cut_writesItem.mp hf)
  · intro c w hc hw f hf hne
    rw [Disk.apply_items fun h => hne (hc f h), hw f hf hne]

/-! ### What is left of a failed copy -/

theorem removeItem_lookup {f g : ItemFile} : (w.removeItem f).2.items.lookup g = if g = f then none else w.items.lookup g := by
  unfold Disk.removeItem
  split
  · rename_i hnone
    by_cases hg : g = f
    · rw [if_pos hg, hg, hnone]
    · rw [if_neg hg]
  · exact Disk.eraseItem_lookup w f g

theorem Disk.OnlyCopy.removed (h : w.OnlyCopy id) : host.NoTrace id (w.removeItem (.dataTmp id)).2 where
  data := by
    rw [removeItem_lookup, if_neg (by simp)]
    exact h _ rfl (by simp)
  dataTmp := by rw [removeItem_lookup, if_pos rfl]
  resolved record hrecord := by
    obtain ⟨data, hdata, -⟩ := recordAt_eq_some hrecord
    rw [removeItem_lookup, if_neg (by simp), h _ rfl (by simp)] at hdata
    cases hdata

/-- Writing the copy, with the cleanup of its errors. -/
theorem writeEncoded_failsOnce {content k : Bytes} {max : ℕ} {path : NativePath} (hnew : w.NewItem id)
    (hmax : content.length ≤ max) :
    ((host.writeEncoded id content k max path).orCleanup (StoreCall.removeItem (.dataTmp id)).ignored).FailsOnce
      mayFail (FailedEnd host id) w := by
  have honly : w.OnlyCopy id := fun f hf _ => hnew f hf
  refine Prog.failsOnce_bind (Prog.failsOnce_attempt ?_) ?_
  · refine writeEncoded_strict.failsOnce writeEncoded_copies keeps_onlyCopy honly fun c e w' hc hw' => ?_
    exact .clean hc.cleanedUp hw'.removed
  · intro r w' hrun
    obtain ⟨a, w₁, hwritten, -⟩ := (writeEncoded_total host k path (hnew _ rfl) hmax).run mayFail
    rw [Prog.run_nil_attempt, hwritten] at hrun
    cases hrun
    trivial

theorem not_noTrace_of_dataTmp (h : w.items.lookup (.dataTmp id) ≠ none) : ¬ host.NoTrace id w :=
  fun htrace => h htrace.dataTmp

theorem not_noTrace_of_data (h : w.items.lookup (.data id) ≠ none) : ¬ host.NoTrace id w :=
  fun htrace => h htrace.data

theorem copyOriginal_failsOnce {st : FileNode} (hnew : w.NewItem d.id) (hsize : st.content.length ≤ req.maxSize) :
    (host.copyOriginal req d st).FailsOnce mayFail (FailedEnd host d.id) w := by
  refine Prog.failsOnce_bind (failsOnce_goOn (writeEncoded_failsOnce hnew hsize)) fun r w' hrun => ?_
  obtain ⟨sha256, copied⟩ := r
  have hcopied := (writeEncoded_returns (w := w).orCleanup _).of_run hrun
  cases req.expectedSha256 with
  | none => trivial
  | some expected =>
    dsimp only
    split
    · -- the copy is removed, if the call that removes it does not fail
      refine ⟨fun _ e n => ?_, trivial⟩
      refine .unclean rfl (not_noTrace_of_dataTmp ?_)
      change w'.items.lookup (.dataTmp d.id) ≠ none
      rw [hcopied.1]
      simp
    · trivial

/-! ### The journal -/

/-- The call is one of the journal's, and leaves the copy alone. -/
structure StoreCall.Saves (id : QuarantineId) (c : StoreCall) : Prop where
  cleanedUp : c.cleanedUp = false
  items : ¬ c.WritesItem (.dataTmp id)

theorem save_strict (record : QuarantineRecord) : (host.save record).Strict := by
  refine (Prog.Strict.ofExcept _).bind fun _ => Prog.Strict.request.bind fun _ => ?_
  refine Prog.Strict.request.bind fun _ => Prog.Strict.request.bind fun _ => ?_
  exact Prog.Strict.request.bind fun _ => Prog.Strict.request

theorem save_saves (record : QuarantineRecord) : (host.save record).Calls (StoreCall.Saves id) := by
  refine (Prog.Calls.ofExcept _).bind fun _ => (Prog.Calls.request ⟨rfl, nofun⟩).bind fun _ => ?_
  refine (Prog.Calls.request ⟨rfl, nofun⟩).bind fun _ => (Prog.Calls.request ⟨rfl, not_false⟩).bind fun _ => ?_
  refine (Prog.Calls.request ⟨rfl, fun h => ?_⟩).bind fun _ => Prog.Calls.request ⟨rfl, not_false⟩
  cases h with
  | inl h => cases h
  | inr h => cases h

theorem keeps_copy (c : StoreCall) (hc : c.Saves id) :
    Prog.Keeps storeSystem (fun w => w.items.lookup (.dataTmp id) ≠ none) c := by
  refine keeps_of_apply (P := fun c => ¬ c.WritesItem (.dataTmp id)) ?_ ?_ c hc.items
  · exact fun c n hc h => hc (StoreCall.cut_writesItem.mp h)
  · intro c w hc hw
    rwa [Disk.apply_items hc]

/-- A record that cannot be saved leaves the copy behind. -/
theorem save_failsOnce (hcopy : w.items.lookup (.dataTmp id) ≠ none) :
    (host.save record).FailsOnce mayFail (FailedEnd host id) w := by
  refine (save_strict record).failsOnce (save_saves record) keeps_copy hcopy fun c e w' hc hw' => ?_
  exact .unclean hc.cleanedUp (not_noTrace_of_dataTmp hw')

theorem storeCopy_failsOnce {st : FileNode} (hnew : w.NewItem d.id) (hsize : st.content.length ≤ req.maxSize) :
    (host.storeCopy req d st).FailsOnce mayFail (FailedEnd host d.id) w := by
  unfold Host.storeCopy
  refine Prog.failsOnce_bind (failsOnce_goOn (copyOriginal_failsOnce hnew hsize)) fun r w₁ hrun => ?_
  obtain ⟨htmp, -, -⟩ := copyOriginal_returns.of_run hrun
  have hcopy : w₁.items.lookup (.dataTmp d.id) ≠ none := by simp [htmp]
  refine Prog.failsOnce_bind (failsOnce_goOn (save_failsOnce hcopy)) fun u w₂ hsaved => ?_
  obtain ⟨data, -, -, hother⟩ := save_returns.of_run hsaved
  have hsame : w₂.items.lookup (.dataTmp d.id) = w₁.items.lookup (.dataTmp d.id) := hother _ (by simp) (by simp)
  have hcopy₂ : w₂.items.lookup (.dataTmp d.id) ≠ none := by rwa [hsame]
  -- the copy is renamed
  refine Prog.failsOnce_request_bind (fun e n => .unclean rfl (not_noTrace_of_dataTmp hcopy₂)) fun u w₃ hrename => ?_
  obtain ⟨file, -, rfl⟩ := renameItem_eq_ok hrename
  refine Prog.failsOnce_request_bind (fun e n => .unclean rfl (not_noTrace_of_data ?_)) fun _ _ _ => trivial
  change ((w₂.eraseItem (.dataTmp d.id)).setItem (.data d.id) file).items.lookup (.data d.id) ≠ none
  simp

/-! ### The original -/

/-- What is in place when the original is to be removed. -/
structure Host.Copied (host : Host) (req : QuarantineRequest) (d : Draws) (st : FileNode) (record : QuarantineRecord)
    (w : Disk) : Prop where
  pending : record = host.pendingRecord req d st (host.sha256 st.content) st.content.length
  written : ∃ data, host.records.toVecPretty record = .ok data
  dataTmp : w.items.lookup (.dataTmp d.id) = none

theorem storeCopy_copied {st : FileNode} :
    (host.storeCopy req d st).Returns mayFail (host.Copied req d st) w := by
  have htmp : (host.storeCopy req d st).Returns mayFail
      (fun _ w' => w'.items.lookup (.dataTmp d.id) = none) w := by
    unfold Host.storeCopy
    refine Prog.Returns.bind (copyOriginal_returns.mono fun r w₁ _ => ?_)
    refine Prog.Returns.bind (save_returns.mono fun _ w₂ _ => ?_)
    refine Prog.Returns.bind (Prog.returns_request fun _ w₃ hrename => ?_)
    obtain ⟨file, -, rfl⟩ := renameItem_eq_ok hrename
    refine Prog.Returns.bind (Prog.returns_request fun _ _ hsync => ?_)
    cases hsync
    change (((w₂.eraseItem (.dataTmp d.id)).setItem (.data d.id) file).items.lookup (.dataTmp d.id)) = none
    simp
  refine (Prog.Meets.and htmp storeCopy_returns).mono (fun _ _ => trivial) (fun _ _ _ => trivial) fun record w' h => ?_
  obtain ⟨htmp, hrecord, hwritten, -⟩ := h
  exact ⟨hrecord, hwritten, htmp⟩

/-- A roll back that nothing disturbs leaves no trace. -/
theorem rollBack_total (now : Now) (why : String) (hwritten : ∃ data, host.records.toVecPretty record = .ok data)
    (htmp : w.items.lookup (.dataTmp record.id) = none) :
    (host.rollBack record now why).Total (fun _ w' => host.NoTrace record.id w') w := by
  have hwritable := (host.records.toVecPretty_writable record).mpr hwritten
  let rolledBack : QuarantineRecord := { record with
    state := .rolledBack
    updatedAt := now.1
    notes := record.notes ++ ["rolled back: " ++ why] }
  have hrolled : ∃ data, host.records.toVecPretty rolledBack = .ok data :=
    (host.records.toVecPretty_writable rolledBack).mp ⟨hwritable.1, now.2, hwritable.2.2⟩
  let w₁ := (w.removeItem (.data record.id)).2
  have hdata : w₁.items.lookup (.data record.id) = none := by rw [removeItem_lookup, if_pos rfl]
  have htmp₁ : w₁.items.lookup (.dataTmp record.id) = none := by rw [removeItem_lookup, if_neg (by simp), htmp]
  refine ⟨fun _ => trivial, nofun, fun _ => trivial, nofun, ?_⟩
  refine ((save_total hrolled).and (save_returns (w := w₁))).mono (fun _ _ => trivial)
    (fun _ _ h => h.1) fun _ w' h => ?_
  obtain ⟨-, data, hdata', hjson, hother⟩ := h
  refine ⟨?_, ?_, fun r hr => ?_⟩
  · rw [hother _ (by simp) (by simp), hdata]
  · rw [hother _ (by simp) (by simp), htmp₁]
  · rw [recordAt_of_written hjson hdata'] at hr
    cases hr
    simp [rolledBack]

theorem rollBack_failedEnd {α : Type} {now : Now} {why : String} {c : StoreCall} {e : RemediationError}
    (hwritten : ∃ data, host.records.toVecPretty record = .ok data)
    (htmp : w.items.lookup (.dataTmp record.id) = none) (hc : c.cleanedUp = true) :
    FailedEnd host record.id c
      (((host.rollBack record now why).bind fun _ => (Prog.throw e : StoreProg α)).run mayFail [] w) := by
  obtain ⟨u, w', hrun, htrace⟩ := (rollBack_total now why hwritten htmp).run mayFail
  rw [Prog.run_nil_bind, hrun]
  exact .clean hc htrace

theorem removeOriginal_failsOnce {st : FileNode} (hcopied : host.Copied req d st record w)
    (hst : w.outside key = some st) :
    (host.removeOriginal req d record key).FailsOnce mayFail (FailedEnd host d.id) w := by
  have hid : record.id = d.id := by rw [hcopied.pending]; rfl
  have htmp : w.items.lookup (.dataTmp record.id) = none := hid ▸ hcopied.dataTmp
  have hsame : (decide (st.dev = record.original.dev) && decide (st.ino = record.original.ino)) = true := by
    rw [hcopied.pending]
    simp [Host.pendingRecord]
  have hrolls {c : StoreCall} {why : String} {e : RemediationError} (hc : c.cleanedUp = true) :
      FailedEnd host d.id c (((host.rollBack record d.later why).bind fun _ =>
        (Prog.throw e : StoreProg Unit)).run mayFail [] w) :=
    hid ▸ rollBack_failedEnd hcopied.written htmp hc
  -- the original is looked at once more
  refine Prog.failsOnce_ask_bind (fun e n => hrolls rfl) fun r w' hstat => ?_
  obtain ⟨rfl, rfl⟩ := Prod.mk.inj ((Disk.statFile_apply hst).symm.trans hstat)
  dsimp only
  rw [if_neg (by simp [hsame])]
  -- and removed
  refine Prog.failsOnce_ask_bind (fun e n => hrolls rfl) fun r w' hremove => ?_
  obtain ⟨rfl, rfl⟩ := Prod.mk.inj ((Disk.removeFile_apply hst).symm.trans hremove)
  trivial

/-! ### The whole call -/

/-- The open file is no larger than the request allows. -/
theorem openOriginal_size : (host.openOriginal req).Returns mayFail
    (fun r _ => r.2.2.content.length ≤ req.maxSize) w := by
  unfold Host.openOriginal
  refine Prog.Returns.bind (Prog.returns_ofExcept fun _ _ => ?_)
  refine Prog.Returns.bind (Prog.returns_ofExcept fun _ _ => Prog.Returns.bind (Prog.returns_ofExcept fun _ _ => ?_))
  refine Prog.Returns.bind (Prog.returns_ofExcept fun _ _ => Prog.Returns.bind (Prog.returns_ofExcept fun _ _ => ?_))
  refine Prog.Returns.bind (Prog.returns_request fun _ _ _ => Prog.Returns.bind (Prog.returns_ofExcept fun _ _ => ?_))
  refine Prog.Returns.bind (Prog.returns_ofExcept fun _ hsize => Prog.Returns.bind (Prog.returns_ofExcept fun _ _ => ?_))
  rw [refuseIf_eq_ok, Nat.not_lt] at hsize
  exact hsize

theorem takeOriginal_failsOnce (host : Host) (req : QuarantineRequest) (hnew : w.NewItem d.id) :
    (host.takeOriginal req d).FailsOnce mayFail (FailedEnd host d.id) w := by
  refine Prog.failsOnce_bind (failsOnce_goOn (openOriginal_failsOnce hnew)) fun r w₁ hrun => ?_
  have hsame : (Prog.run mayFail (host.openOriginal req) [] w).2 = w :=
    openOriginal_calls.run_keeps (J := (· = w)) (fun c hc => hc.keeps w) rfl
  rw [hrun] at hsame
  obtain rfl : w₁ = w := hsame
  obtain ⟨name, -, -, hst⟩ := openOriginal_returns.of_run hrun
  have hsize := openOriginal_size.of_run hrun
  -- the copy
  refine Prog.failsOnce_bind (failsOnce_goOn (storeCopy_failsOnce hnew hsize)) fun record w₂ hcopy => ?_
  have hcopied := storeCopy_copied.of_run hcopy
  have hitem : SameButItem d.id w₁ (Prog.run mayFail (host.storeCopy req d r.2.2) [] w₁).2 :=
    storeCopy_calls.run_keeps (keeps_sameButItem w₁) (.refl _ w₁)
  rw [hcopy] at hitem
  refine Prog.failsOnce_bind (failsOnce_goOn (removeOriginal_failsOnce hcopied ?_)) fun _ _ _ => trivial
  rw [hitem.outside, hst]

/-- The audit of a failed quarantine changes neither the files nor the items, and an error is returned. -/
theorem failureAudit_total (host : Host) (req : QuarantineRequest) (d : Draws) (store : QuarantineStore)
    (e : RemediationError) (w₁ : Disk) :
    ((host.auditEvent store d.audited "quarantine" none (some req.path)
      req.expectedSha256 (.error e.text)).attempt.bind fun audited => match audited with
        | .ok store => Prog.ret (store, .error e)
        | .error e => Prog.ret (store, .error e) :
      Prog storeSystem Empty (QuarantineStore × Except RemediationError QuarantineRecord)).Total
      (fun r w' => (∃ err, r.2 = .error err) ∧ w'.outside = w₁.outside ∧ w'.items = w₁.items) w₁ := by
  refine Prog.meets_bind.mpr (Prog.meets_attempt.mpr (((appendEntry_audits store _).meets (keeps_files w₁)
    ⟨rfl, rfl⟩).mono (fun _ _ => trivial) ?_ ?_))
  · exact fun e' _ hw' => ⟨⟨e', rfl⟩, hw'⟩
  · exact fun _ _ hw' => ⟨⟨e, rfl⟩, hw'⟩

/-- A call that did not take the original returns an error, and its audit changes neither the original nor
the items. -/
theorem quarantine_failed (store : QuarantineStore) {faults : List (Fault Errno)} {e : RemediationError} {w₁ : Disk}
    (hrun : (host.takeOriginal req d).run anyFails faults w = (.error e, w₁))
    (hleft : (host.takeOriginal req d).left anyFails faults w = []) :
    ∃ store' err w', (host.quarantine store req d).run anyFails faults w = (.ok (store', .error err), w') ∧
      w'.outside = w₁.outside ∧ w'.items = w₁.items := by
  have hinner : (host.quarantineInner store req d).run anyFails faults w = (.error e, w₁) := by
    rw [quarantineInner_eq_take, Prog.run_bind, hrun]
  -- the fault is used up by the call that failed
  have htrace : (host.quarantineInner store req d).left anyFails faults w = [] := by
    unfold Prog.left at hleft ⊢
    rw [quarantineInner_eq_take, Prog.trace_bind, hrun, List.append_nil]
    exact hleft
  have haudit := failureAudit_total host req d store e w₁
  obtain ⟨r, w', haudited, ⟨err, hr⟩, hfiles⟩ := haudit.run anyFails
  obtain ⟨store', result⟩ := r
  obtain rfl : result = .error err := hr
  refine ⟨store', err, w', ?_, hfiles⟩
  unfold Host.quarantine
  change (Prog.bind (S := storeSystem) _ _).run anyFails faults w = _
  rw [Prog.run_bind, Prog.run_attempt, hinner]
  dsimp only
  rw [Prog.left, Prog.trace_attempt]
  change Prog.run _ _ ((host.quarantineInner store req d).left anyFails faults w) _ = _
  rw [htrace]
  exact haudited

/-- The processes are as before if the original was not taken. -/
theorem processesAfter_failed {deliver : Delivery} {faults : List (Fault Errno)} {ps : Processes} {pid : ℕ}
    {e : RemediationError} {w₁ : Disk} (hcont : ∀ pid, deliver pid .cont = .ok ())
    (hrun : (host.takeOriginal req d).run anyFails faults w = (.error e, w₁)) (hpid : ps pid ≠ .stopped) :
    host.processesAfter deliver req d faults w ps pid = ps pid := by
  have huntil : (host.untilKilled req d).run anyFails faults w = (.error e, w₁) := by
    rw [Host.untilKilled, Prog.run_bind, hrun]
  unfold Host.processesAfter
  rw [huntil]
  generalize (host.openOriginal req).run anyFails faults w = opened
  obtain ⟨outcome, w₂⟩ := opened
  cases outcome with
  | ok r =>
    dsimp only
    split
    · exact pause_drop d.users hcont pid hpid
    · rfl
  | error e' => rfl
  | stopped => rfl

theorem Host.NoTrace.congr (h : w'.items = w.items) : host.NoTrace id w' ↔ host.NoTrace id w := by
  have hrecord : host.recordAt w' id = host.recordAt w id := recordAt_congr (by rw [h])
  constructor
  · exact fun ⟨hdata, htmp, hresolved⟩ => ⟨h ▸ hdata, h ▸ htmp, hrecord ▸ hresolved⟩
  · exact fun ⟨hdata, htmp, hresolved⟩ => ⟨h ▸ hdata, h ▸ htmp, hrecord ▸ hresolved⟩

/-- Whichever call fails before the original is gone, the quarantine returns an error, and it leaves nothing
behind if and only if that call is one it cleans up after. -/
theorem failed_call_cleaned_iff (host : Host) (store : QuarantineStore) (req : QuarantineRequest) (d : Draws)
    (deliver : Delivery) (w : Disk) (ps : Processes) (hcont : ∀ pid, deliver pid .cont = .ok ())
    (hnew : w.NewItem d.id) (k : ℕ) (st : Step storeSystem)
    (hst : ((host.takeOriginal req d).trace anyFails [] w)[k]? = some st) (e : Errno) (reached : ℕ) :
    ∃ store' err w', (host.quarantine store req d).run anyFails (failsAt k e reached) w =
        (.ok (store', .error err), w') ∧
      (host.NothingLeft d.id w w' ps (host.processesAfter deliver req d (failsAt k e reached) w ps) ↔
        st.call.cleanedUp = true) := by
  obtain ⟨err, w₁, hrun, htrace⟩ := (takeOriginal_failsOnce host req hnew).run hst rfl e reached
  have hmeets : (host.takeOriginal req d).Meets anyFails (fun _ => True) (fun _ => SameButItem d.id w)
    (fun r w' => host.Took req d w w' r.2) w := takeOriginal_meets
  have hsame := Prog.run_ends hmeets (failsAt k e reached)
  rw [hrun] at hsame
  have hleft := Prog.left_failsAt hst rfl e reached
  obtain ⟨store', err', w', hquarantine, houtside, hitems⟩ := quarantine_failed store hrun hleft
  refine ⟨store', err', w', hquarantine, ?_⟩
  rw [← htrace, ← Host.NoTrace.congr hitems]
  constructor
  · exact fun h => h.toNoTrace
  · exact fun h => ⟨h, houtside.trans hsame.outside, fun pid hpid => processesAfter_failed hcont hrun hpid⟩

/-- A store with an empty log. -/
def newStore : QuarantineStore := ⟨.genesis, none, []⟩

def ioError : Errno := .other "Input/output error (os error 5)"

/-- The copy of the sample cannot be synced. -/
theorem failed_sync_cleaned : ∃ store' err w',
    (sampleHost.quarantine newStore sampleRequest sampleDraws).run anyFails (failsAt 4 ioError 0) sampleState.disk =
        (.ok (store', .error err), w') ∧
      sampleHost.NothingLeft sampleId sampleState.disk w' (fun _ => .running)
        (sampleHost.processesAfter (fun _ _ => .ok ()) sampleRequest sampleDraws (failsAt 4 ioError 0) sampleState.disk
          fun _ => .running) := by
  have hcall : (((sampleHost.takeOriginal sampleRequest sampleDraws).trace anyFails [] sampleState.disk)[4]?).map
      (·.call.cleanedUp) = some true := by decide
  obtain ⟨st, hst, hcleaned⟩ := Option.map_eq_some_iff.mp hcall
  obtain ⟨store', err, w', hrun, hiff⟩ := failed_call_cleaned_iff sampleHost newStore sampleRequest sampleDraws
    (fun _ _ => .ok ()) sampleState.disk (fun _ => .running) (fun _ => rfl) (fun _ _ => rfl) 4 st hst ioError 0
  exact ⟨store', err, w', hrun, hiff.mpr hcleaned⟩

/-- The copy of the sample cannot be renamed: it is still there, and its record is pending. -/
theorem failed_rename_leaves_copy : ∃ store' err w',
    (sampleHost.quarantine newStore sampleRequest sampleDraws).run anyFails (failsAt 11 ioError 0) sampleState.disk =
        (.ok (store', .error err), w') ∧
      w'.outside sampleKey ≠ none ∧ w'.items.lookup (.dataTmp sampleId) ≠ none ∧
      sampleHost.recordAt w' sampleId = some (sampleRecord .pending) := by
  have hcall : (((sampleHost.takeOriginal sampleRequest sampleDraws).trace anyFails [] sampleState.disk)[11]?).isSome =
      true := by decide
  obtain ⟨st, hst⟩ := Option.isSome_iff_exists.mp hcall
  have hnew : sampleState.disk.NewItem sampleDraws.id := fun _ _ => rfl
  obtain ⟨e, w₁, hrun, -⟩ := (takeOriginal_failsOnce sampleHost sampleRequest hnew).run hst rfl ioError 0
  have hfiles : (((sampleHost.takeOriginal sampleRequest sampleDraws).run anyFails (failsAt 11 ioError 0)
      sampleState.disk).2.outside sampleKey).isSome = true ∧
      (((sampleHost.takeOriginal sampleRequest sampleDraws).run anyFails (failsAt 11 ioError 0)
        sampleState.disk).2.items.lookup (.dataTmp sampleId)).isSome = true ∧
      sampleHost.recordAt ((sampleHost.takeOriginal sampleRequest sampleDraws).run anyFails (failsAt 11 ioError 0)
        sampleState.disk).2 sampleId = some (sampleRecord .pending) := by decide +kernel
  rw [hrun] at hfiles
  obtain ⟨hpresent, htmp, hrecord⟩ := hfiles
  obtain ⟨store', err, w', hquarantine, houtside, hitems⟩ := quarantine_failed newStore hrun
    (Prog.left_failsAt hst rfl ioError 0)
  refine ⟨store', err, w', hquarantine, ?_, ?_, ?_⟩
  · rw [houtside]
    exact Option.isSome_iff_ne_none.mp hpresent
  · rw [hitems]
    exact Option.isSome_iff_ne_none.mp htmp
  · rw [← hrecord]
    exact recordAt_congr (by rw [hitems])

end AbyssalWarden

import AbyssalWarden.RestoreRetry
import AbyssalWarden.WindowsStore

/-! What a Windows restore leaves in the target directory. Its temporary file is opened to write and not to delete,
so that deleting it through its handle never succeeds. -/
namespace AbyssalWarden

variable {host : WindowsHost} {mayFail : VolumeCall → Bool} {v v' : Volume} {id : QuarantineId}
  {record : QuarantineRecord} {store : QuarantineStore}

/-! ### Calls that leave files alone -/

/-- The call changes no file outside the store. -/
def VolumeCall.LeavesFiles : VolumeCall → Prop
  | .store c => ∀ key, ¬ c.WritesFile key
  | .deleteByHandle _ access => .delete ∉ access
  | _ => True

/-- The call takes no name of a file outside the store away. -/
def VolumeCall.LeavesNames : VolumeCall → Prop
  | .store (.removeFile _) => False
  | .store (.renameNew _ _) => False
  | .deleteByHandle _ access => .delete ∉ access
  | _ => True

theorem deleteByHandle_denied {key : FileKey} {access : List Access} (h : .delete ∉ access) :
    v.deleteByHandle key access = (.error accessDenied, v) := if_neg h

/-- What a call that changes nothing keeps. -/
theorem keeps_of_same {J : Volume → Prop} {c : VolumeCall} (hstore : ∀ c', c ≠ .store c')
    (h : ∀ v : Volume, (v.apply c).2 = v) : Prog.Keeps windowsSystem J c where
  torn n v hv := by
    have htorn : v.torn n c = if n = 0 then v else (v.apply c).2 := by
      cases c with
      | store c => exact absurd rfl (hstore c)
      | _ => rfl
    change J (v.torn n c)
    rw [htorn, h v, ite_self]
    exact hv
  failed n v hv := by
    have hfailed : v.failed n c = v := by
      cases c with
      | store c => exact absurd rfl (hstore c)
      | _ => rfl
    change J (v.failed n c)
    rw [hfailed]
    exact hv
  apply v hv := by
    change J (v.apply c).2
    rw [h v]
    exact hv

theorem keeps_outside (o : FileKey → Option FileNode) (c : VolumeCall) (hc : c.LeavesFiles) :
    Prog.Keeps windowsSystem (fun v => v.disk.outside = o) c := by
  cases c with
  | store c =>
    have hstore : Prog.Keeps storeSystem (fun w : Disk => w.outside = o) c := by
      refine keeps_of_apply (P := fun c => ∀ key, ¬ c.WritesFile key) (fun c n hc key hkey => ?_)
        (fun c w hc hw => ?_) c hc
      · exact hc key (StoreCall.cut_writesFile.mp hkey)
      · rw [Disk.apply_outside hc]
        exact hw
    exact hstore.within volumePart
  | deleteByHandle key access =>
    exact keeps_of_same nofun fun v => congrArg Prod.snd (deleteByHandle_denied hc)
  | openPinned key | readPinned key | information key => exact keeps_of_same nofun fun v => rfl

/-- A name that is there stays. -/
theorem apply_name {c : StoreCall} {w : Disk} {key : FileKey} (hc : (VolumeCall.store c).LeavesNames)
    (h : w.outside key ≠ none) : (w.apply c).2.outside key ≠ none := by
  have hset (k : FileKey) (node : FileNode) : (w.setFile k (some node)).outside key ≠ none := by
    change Function.update w.outside k (some node) key ≠ none
    rw [Function.update_apply]
    split
    · exact Option.some_ne_none _
    · exact h
  have hmap (k : FileKey) (f : FileNode → FileNode) : (w.mapFile k f).outside key ≠ none := by
    change Function.update w.outside k ((w.outside k).map f) key ≠ none
    rw [Function.update_apply]
    split
    · rename_i hkey
      rw [← hkey]
      simpa using h
    · exact h
  have hwritten (hfiles : ∀ k, ¬ c.WritesFile k) : (w.apply c).2.outside key ≠ none := by
    rw [Disk.apply_outside hfiles]
    exact h
  -- two calls can take a name away, and they are none of these
  cases c with
  | removeFile k => exact hc.elim
  | renameNew source target => exact hc.elim
  | createFile k node =>
    simp only [Disk.apply, Disk.createFile]
    split
    · exact h
    · exact hset k node
  | appendFile k data => exact hmap k _
  | chmodFile k mode => exact hmap k _
  | chownFile k uid gid => exact hmap k _
  | linkFile source target =>
    simp only [Disk.apply, Disk.linkFile]
    split
    · exact h
    · exact h
    · simpa [Disk.relink] using hset target _
  | _ => exact hwritten fun _ h => by cases h

theorem keeps_name (key : FileKey) (c : VolumeCall) (hc : c.LeavesNames) :
    Prog.Keeps windowsSystem (fun v => v.disk.outside key ≠ none) c := by
  cases c with
  | store c =>
    have hstore : Prog.Keeps storeSystem (fun w : Disk => w.outside key ≠ none) c := by
      refine keeps_of_apply (P := fun c => (VolumeCall.store c).LeavesNames) (fun c n hc => ?_)
        (fun c w hc hw => apply_name hc hw) c hc
      cases c <;> exact hc
    exact hstore.within volumePart
  | deleteByHandle key access =>
    exact keeps_of_same nofun fun v => congrArg Prod.snd (deleteByHandle_denied hc)
  | openPinned key | readPinned key | information key => exact keeps_of_same nofun fun v => rfl

theorem VolumeCall.LeavesFiles.names {c : VolumeCall} (h : c.LeavesFiles) : c.LeavesNames := by
  cases c with
  | store c =>
    cases c with
    | removeFile key => exact h key rfl
    | renameNew source target => exact h source (.inl rfl)
    | _ => trivial
  | deleteByHandle key access => exact h
  | openPinned key | readPinned key | information key => trivial

/-! ### The parts of a restore -/

theorem auditEvent_leaves {now : Now} {action : String} {item : Option QuarantineId} {path : Option NativePath}
    {sha256 : Option Sha256Digest} {outcome : Except String (Option String)} :
    (host.auditEvent store now action item path sha256 outcome).Calls VolumeCall.LeavesFiles := by
  refine ((appendEntry_calls _ _).within volumePart).mono fun c hc => ?_
  obtain ⟨c', rfl, hscratch⟩ := hc
  exact hscratch.files

theorem windowsSave_leaves : (host.save record).Calls VolumeCall.LeavesFiles := by
  refine (Prog.Calls.ofExcept _).bind fun data => (Prog.Calls.request fun _ => not_false).bind fun _ => ?_
  refine (Prog.Calls.request fun _ => not_false).bind fun _ => (Prog.Calls.request fun _ => not_false).bind fun _ => ?_
  exact Prog.Calls.request fun _ => not_false

/-- Decoding into a file takes no name away. -/
theorem decodeTo_leaves {key : Bytes} {out : Option FileKey} :
    (host.decodeTo id key out).Calls VolumeCall.LeavesNames := by
  have hdecode : (host.base.decodeFile id (.data id) key out).Calls fun c => (VolumeCall.store c).LeavesNames := by
    refine (Prog.Calls.request trivial).bind fun _ => (Prog.Calls.ofExcept _).bind fun _ => ?_
    refine (Prog.Calls.ofExcept _).bind fun _ => (Prog.Calls.forEach (fun acc piece => ?_) _ _).bind fun _ => trivial
    unfold Host.decodePiece
    cases out with
    | none => trivial
    | some target => exact (Prog.Calls.request trivial).bind fun _ => trivial
  refine (hdecode.within volumePart).mono fun c hc => ?_
  obtain ⟨c', rfl, hleaves⟩ := hc
  exact hleaves

theorem cleanup_leaves {tmp : FileKey} : (WindowsHost.cleanup tmp).Calls VolumeCall.LeavesFiles :=
  Prog.Calls.ignore (by decide : Access.delete ∉ WindowsHost.restoreAccess)

theorem linkRestored_leaves {tmp target : NativePath} :
    (host.linkRestored tmp target).Calls VolumeCall.LeavesNames := by
  have hcleanup : (WindowsHost.cleanup (host.entry tmp)).Calls VolumeCall.LeavesNames :=
    cleanup_leaves.mono fun _ hc => hc.names
  refine (Prog.Calls.ask trivial).bind fun linked => ?_
  cases linked with
  | ok _ => exact hcleanup
  | error e => exact hcleanup.bind fun _ => trivial

theorem finishRestore_leaves {d : WindowsDraws} {key : Bytes} {tmp target : NativePath} :
    (host.finishRestore id record d key tmp target).Calls VolumeCall.LeavesNames := by
  have hwrite : (host.writeRestored id record key tmp).Calls VolumeCall.LeavesNames := by
    refine decodeTo_leaves.bind fun _ => (Prog.Calls.ofExcept _).bind fun _ => ?_
    exact Prog.Calls.request trivial
  refine (hwrite.orCleanup (cleanup_leaves.mono fun _ hc => hc.names)).bind fun _ => ?_
  refine linkRestored_leaves.bind fun _ => (Prog.Calls.request trivial).bind fun _ => ?_
  exact (windowsSave_leaves.mono fun _ hc => hc.names).bind fun _ => trivial

/-! ### A whole restore -/

/-- A restore that leaves one name: no temporary file, one link to a restored file, and after an error every file
as it was. -/
structure WindowsHost.OneName (host : WindowsHost) (tmp : NativePath) (before after : Volume)
    (result : Except WindowsError NativePath) : Prop where
  noTemporary : after.disk.outside (host.entry tmp) = none
  restored : ∀ target, result = .ok target →
    ∃ node, after.disk.outside (host.entry target) = some node ∧ node.nlink = 1
  refused : ∀ e, result = .error e → after.disk.outside = before.disk.outside

/-- One of the first two calls fails: the record is read, and the temporary file created. -/
def FailsEarly (faults : List (Fault Errno)) : Prop := ∃ i < 2, ∃ e n, faults[i]? = some (.fails e n)

theorem failsEarly_iff {faults : List (Fault Errno)} :
    FailsEarly faults ↔ (∃ e n, faults.head? = some (.fails e n)) ∨ ∃ e n, faults.tail.head? = some (.fails e n) := by
  rw [List.head?_eq_getElem?, List.head?_eq_getElem?, List.getElem?_tail]
  constructor
  · rintro ⟨i, hi, hfails⟩
    interval_cases i
    · exact .inl hfails
    · exact .inr hfails
  · rintro (hfails | hfails)
    · exact ⟨0, by decide, hfails⟩
    · exact ⟨1, by decide, hfails⟩

/-- What the checks before the temporary file come to. -/
theorem prepareRestore_eq {destDir : Option NativePath} {targetDir : NativePath} {name : Bytes}
    (hstate : record.state = .quarantined) (htarget : host.restoreTarget id record destDir = .ok (targetDir, name)) :
    (∃ e, host.prepareRestore id record destDir = .error e ∧
        ¬ (host.checkTargetDir record targetDir (host.paths.join targetDir name) = .ok () ∧
          Host.recordKey record ≠ none)) ∨
      ∃ key, host.prepareRestore id record destDir = .ok (targetDir, host.paths.join targetDir name, key) ∧
        host.checkTargetDir record targetDir (host.paths.join targetDir name) = .ok () ∧
        Host.recordKey record ≠ none := by
  unfold WindowsHost.prepareRestore
  rw [refuseIf, if_neg (not_not.mpr hstate), htarget]
  cases hcheck : host.checkTargetDir record targetDir (host.paths.join targetDir name) with
  | error e => exact .inl ⟨e, by simp only [bind, Except.bind, hcheck], by simp⟩
  | ok _ =>
    cases hkey : Host.recordKey record with
    | none => exact .inl ⟨.corrupt id "invalid key", by simp only [bind, Except.bind, hcheck], by simp⟩
    | some key => exact .inr ⟨key, by simp only [bind, Except.bind, hcheck], rfl, by simp⟩

/-- The temporary file is created. -/
structure WindowsHost.Creates (host : WindowsHost) (id : QuarantineId) (record : QuarantineRecord)
    (targetDir : NativePath) (name : Bytes) (faults : List (Fault Errno)) (v : Volume) : Prop where
  absent : v.disk.outside (host.entry (host.restoreTmp id targetDir)) = none
  allowed : host.checkTargetDir record targetDir (host.paths.join targetDir name) = .ok ()
  key : Host.recordKey record ≠ none
  succeeds : ¬ FailsEarly faults

/-- How a call of a restore may end, if `creates` says whether the temporary file is created. -/
def EndsWith (tmp : FileKey) (creates : Prop) (before : Volume) {α : Type} : Outcome WindowsError α × Volume → Prop
  | (.stopped, _) => True
  | (.ok _, after) => creates ∧ after.disk.outside tmp ≠ none
  | (.error _, after) => creates ∧ after.disk.outside tmp ≠ none ∨ ¬ creates ∧ after.disk.outside = before.disk.outside

/-- A call that takes place, and what follows. -/
theorem Prog.run_request_bind {σ E ε α : Type} {S : System σ E} {mayFail : S.Call → Bool} {c : S.Call}
    {onError : E → ε} {f : S.Answer c → Prog S ε α} {s s' : σ} {a : S.Answer c} (happly : S.apply c s = (.ok a, s'))
    {faults : List (Fault E)} (hnone : faults.head?.getD .none = .none) :
    ((Prog.request c onError).bind f).run mayFail faults s = (f a).run mayFail faults.tail s' := by
  have hnext (rest : List (Fault E)) :
      ((Prog.ofExcept ((S.apply c s).1.mapError onError)).bind f).run mayFail rest (S.apply c s).2 =
        (f a).run mayFail rest s' := by
    rw [happly]
    rfl
  cases faults with
  | nil => exact hnext []
  | cons fault faults =>
    obtain rfl : fault = .none := hnone
    exact hnext faults

theorem EndsWith.congr {tmp : FileKey} {creates creates' : Prop} {α : Type} {ended : Outcome WindowsError α × Volume}
    (h : EndsWith tmp creates v ended) (hiff : creates ↔ creates') : EndsWith tmp creates' v ended :=
  propext hiff ▸ h

/-- The temporary file is created unless it is there or the call fails, and then it stays. -/
theorem create_endsWith {α : Type} {tmp : FileKey} {node : FileNode} {onError : Errno → WindowsError}
    {f : Unit → WindowsProg α} (hf : ∀ u, (f u).Calls VolumeCall.LeavesNames) (faults : List (Fault Errno)) :
    EndsWith tmp (v.disk.outside tmp = none ∧ ¬ ∃ e n, faults.head? = some (.fails e n)) v
      ((((VolumeCall.store (.createFile tmp node)).orErr onError).bind f).run (fun _ => true) faults v) := by
  -- the call takes place
  have hcreate (rest : List (Fault Errno)) : EndsWith tmp (v.disk.outside tmp = none) v
      (((Prog.ofExcept ((v.disk.createFile tmp node).1.mapError onError)).bind f).run (fun _ => true) rest
        { v with disk := (v.disk.createFile tmp node).2 }) := by
    cases habsent : v.disk.outside tmp with
    | some other =>
      rw [Disk.createFile, habsent]
      exact .inr ⟨by simp, rfl⟩
    | none =>
      have hthere : (v.disk.setFile tmp (some node)).outside tmp ≠ none := by
        rw [Disk.setFile_outside]
        exact Option.some_ne_none _
      have hkept : ((f ()).run (fun _ => true) rest { v with disk := v.disk.setFile tmp (some node) }).2.disk.outside tmp ≠
          none := (hf ()).run_keeps (keeps_name tmp) hthere
      rw [Disk.createFile, habsent]
      change EndsWith _ _ _ ((f ()).run (fun _ => true) rest { v with disk := v.disk.setFile tmp (some node) })
      generalize (f ()).run (fun _ => true) rest { v with disk := v.disk.setFile tmp (some node) } = ended at hkept ⊢
      obtain ⟨outcome, v'⟩ := ended
      cases outcome with
      | ok a => exact ⟨rfl, hkept⟩
      | error e => exact .inl ⟨rfl, hkept⟩
      | stopped => trivial
  cases faults with
  | nil => exact (hcreate []).congr (by simp)
  | cons fault faults =>
    cases fault with
    | none => exact (hcreate faults).congr (by simp)
    | stops n => trivial
    | fails e n => exact .inr ⟨fun h => h.2 ⟨e, n, rfl⟩, rfl⟩

/-- What follows once the record was read. -/
theorem prepared_endsWith {destDir : Option NativePath} {d : WindowsDraws} {targetDir : NativePath} {name : Bytes}
    (hstate : record.state = .quarantined) (htarget : host.restoreTarget id record destDir = .ok (targetDir, name))
    (faults : List (Fault Errno)) :
    EndsWith (host.entry (host.restoreTmp id targetDir))
      (v.disk.outside (host.entry (host.restoreTmp id targetDir)) = none ∧
        host.checkTargetDir record targetDir (host.paths.join targetDir name) = .ok () ∧
        Host.recordKey record ≠ none ∧ ¬ ∃ e n, faults.head? = some (.fails e n)) v
      (((Prog.ofExcept ((host.prepareRestore id record destDir).mapError .common)).bind
        (host.createRestored id record d)).run (fun _ => true) faults v) := by
  rcases prepareRestore_eq hstate htarget with ⟨e, hrefused, hnot⟩ | ⟨key, hprepared, hcheck, hkey⟩
  · rw [hrefused]
    exact .inr ⟨fun h => hnot ⟨h.2.1, h.2.2.1⟩, rfl⟩
  · rw [hprepared]
    exact (create_endsWith (fun _ => finishRestore_leaves) faults).congr (by simp [hcheck, hkey])

theorem windowsRestoreInner_eq (destDir : Option NativePath) (d : WindowsDraws) : host.restoreInner id destDir d =
    ((VolumeCall.store (.readItem (.json id))).orErr fun e => if e = .noent then .common (.unknownItem id)
      else .common (.io "read" (host.itemPath (.json id)) e)).bind fun data =>
    (Prog.ofExcept ((host.base.parseRecord id data).mapError .common)).bind fun record =>
    (Prog.ofExcept ((host.prepareRestore id record destDir).mapError .common)).bind
      (host.createRestored id record d) :=
  Prog.bind_assoc _ _ _

/-- A restore either creates its temporary file, which then stays, or fails and changes nothing outside the store. -/
theorem restoreInner_endsWith {destDir : Option NativePath} {d : WindowsDraws} {data : Bytes} {targetDir : NativePath}
    {name : Bytes} (hdata : v.disk.items.lookup (.json id) = some data)
    (hparse : host.base.parseRecord id data = .ok record) (hstate : record.state = .quarantined)
    (htarget : host.restoreTarget id record destDir = .ok (targetDir, name)) (faults : List (Fault Errno)) :
    EndsWith (host.entry (host.restoreTmp id targetDir)) (host.Creates id record targetDir name faults v) v
      ((host.restoreInner id destDir d).run (fun _ => true) faults v) := by
  have hread : v.apply (.store (.readItem (.json id))) = (.ok data, v) := by
    change ((v.disk.items.lookup (.json id)).elim (Except.error Errno.noent) Except.ok, v) = _
    rw [hdata]
    rfl
  -- the record is read
  have hreads (hnone : faults.head?.getD .none = .none) :
      EndsWith (host.entry (host.restoreTmp id targetDir)) (host.Creates id record targetDir name faults v) v
        ((host.restoreInner id destDir d).run (fun _ => true) faults v) := by
    have hcreates : (v.disk.outside (host.entry (host.restoreTmp id targetDir)) = none ∧
        host.checkTargetDir record targetDir (host.paths.join targetDir name) = .ok () ∧
        Host.recordKey record ≠ none ∧ ¬ ∃ e n, faults.tail.head? = some (.fails e n)) ↔
        host.Creates id record targetDir name faults v := by
      refine ⟨fun h => ⟨h.1, h.2.1, h.2.2.1, fun hearly => ?_⟩, fun h => ⟨h.absent, h.allowed, h.key, fun hfails =>
        h.succeeds (failsEarly_iff.mpr (.inr hfails))⟩⟩
      rcases failsEarly_iff.mp hearly with ⟨e, n, hhead⟩ | hfails
      · rw [hhead] at hnone
        cases hnone
      · exact h.2.2.2 hfails
    rw [windowsRestoreInner_eq, Prog.run_request_bind (S := windowsSystem) hread hnone, hparse]
    exact (prepared_endsWith hstate htarget faults.tail).congr hcreates
  cases faults with
  | nil => exact hreads rfl
  | cons fault faults =>
    cases fault with
    | none => exact hreads rfl
    | stops n => trivial
    | fails e n => exact .inr ⟨fun h => h.succeeds (failsEarly_iff.mpr (.inl ⟨e, n, rfl⟩)), rfl⟩

/-- What an audited call does with its result. -/
def WindowsHost.auditResult {α : Type} (host : WindowsHost) (store : QuarantineStore) (now : Now) (action : String)
    (id : QuarantineId) (detail : α → Option String) (r : Except WindowsError α) :
    Prog windowsSystem Empty (QuarantineStore × Except WindowsError α) :=
  (host.auditEvent store now action (some id) none none ((r.map detail).mapError WindowsError.text)).attempt.bind
    fun audited => match audited with
      | .ok store => pure (store, r)
      | .error e => pure (store, .error e)

/-- The audit leaves the files alone, and can only replace the result by an error. -/
theorem auditResult_run {α : Type} {now : Now} {action : String} {detail : α → Option String}
    {store store' : QuarantineStore} {r result : Except WindowsError α} {faults : List (Fault Errno)}
    (hrun : (host.auditResult store now action id detail r).run mayFail faults v = (.ok (store', result), v')) :
    v'.disk.outside = v.disk.outside ∧ (result = r ∨ ∃ e, result = .error e) := by
  have hcalls : (host.auditResult store now action id detail r).Calls VolumeCall.LeavesFiles := by
    refine auditEvent_leaves.attempt.bind fun audited => ?_
    cases audited <;> trivial
  have hkept : ((host.auditResult store now action id detail r).run mayFail faults v).2.disk.outside = v.disk.outside :=
    hcalls.run_keeps (keeps_outside _) rfl
  have hreturns : (host.auditResult store now action id detail r).Returns mayFail
      (fun out _ => out.2 = r ∨ ∃ e, out.2 = .error e) v := by
    refine Prog.Returns.bind ((Prog.returns_const trivial _).mono fun audited v₂ _ => ?_)
    cases audited with
    | ok store => exact .inl rfl
    | error e => exact .inr ⟨e, rfl⟩
  rw [hrun] at hkept
  exact ⟨hkept, hreturns.of_run hrun⟩

/-- An audited call that returns did so before its audit, which leaves the files alone and can only add an error. -/
theorem audited_run {α : Type} {inner : WindowsProg α} {now : Now} {action : String} {detail : α → Option String}
    {store' : QuarantineStore} {result : Except WindowsError α} {faults : List (Fault Errno)}
    (hrun : (host.audited store inner now action id detail).run mayFail faults v = (.ok (store', result), v')) :
    ∃ outcome v₁, inner.run mayFail faults v = (outcome, v₁) ∧ v'.disk.outside = v₁.disk.outside ∧
      (∀ a, result = .ok a → outcome = .ok a) ∧ outcome ≠ .stopped := by
  have hbind : (host.audited store inner now action id detail).run mayFail faults v =
      (inner.attempt.bind (host.auditResult store now action id detail)).run mayFail faults v := rfl
  rw [hbind, Prog.run_bind, Prog.run_attempt] at hrun
  generalize inner.run mayFail faults v = ended at hrun ⊢
  obtain ⟨outcome, v₁⟩ := ended
  refine ⟨outcome, v₁, rfl, ?_⟩
  cases outcome with
  | stopped => cases hrun
  | ok a =>
    obtain ⟨houtside, hresult⟩ := auditResult_run hrun
    refine ⟨houtside, fun b hb => ?_, fun h => by cases h⟩
    rcases hresult with heq | ⟨e, heq⟩
    · rw [heq] at hb
      rw [Except.ok.inj hb]
    · rw [heq] at hb
      cases hb
  | error e =>
    obtain ⟨houtside, hresult⟩ := auditResult_run hrun
    refine ⟨houtside, fun b hb => ?_, fun h => by cases h⟩
    rcases hresult with heq | ⟨e', heq⟩
    · rw [heq] at hb
      cases hb
    · rw [heq] at hb
      cases hb

/-- A restore that returns leaves one name if and only if it never made its temporary file, and there was none
before: a check refused, or reading the record or creating the file failed. -/
theorem restore_one_name_iff (host : WindowsHost) (store store' : QuarantineStore) (id : QuarantineId)
    (record : QuarantineRecord) (destDir : Option NativePath) (d : WindowsDraws) (faults : List (Fault Errno))
    (v v' : Volume) (data : Bytes) (targetDir : NativePath) (name : Bytes) (result : Except WindowsError NativePath)
    (hdata : v.disk.items.lookup (.json id) = some data)
    (hparse : host.base.parseRecord id data = .ok record) (hstate : record.state = .quarantined)
    (htarget : host.restoreTarget id record destDir = .ok (targetDir, name))
    (hrun : (host.restore store id destDir d).run (fun _ => true) faults v = (.ok (store', result), v')) :
    host.OneName (host.restoreTmp id targetDir) v v' result ↔
      v.disk.outside (host.entry (host.restoreTmp id targetDir)) = none ∧
        (host.checkTargetDir record targetDir (host.paths.join targetDir name) ≠ .ok () ∨
          Host.recordKey record = none ∨ FailsEarly faults) := by
  have hinner := restoreInner_endsWith (d := d) hdata hparse hstate htarget faults
  obtain ⟨outcome, v₁, hinnerRun, houtside, hresult, hstopped⟩ := audited_run hrun
  rw [hinnerRun] at hinner
  have hcreates : host.Creates id record targetDir name faults v ↔
      v.disk.outside (host.entry (host.restoreTmp id targetDir)) = none ∧
        host.checkTargetDir record targetDir (host.paths.join targetDir name) = .ok () ∧
        Host.recordKey record ≠ none ∧ ¬ FailsEarly faults :=
    ⟨fun h => ⟨h.absent, h.allowed, h.key, h.succeeds⟩, fun h => ⟨h.1, h.2.1, h.2.2.1, h.2.2.2⟩⟩
  constructor
  · intro hone
    -- the temporary file is gone, so it was never made
    have hgone : v₁.disk.outside (host.entry (host.restoreTmp id targetDir)) = none := houtside ▸ hone.noTemporary
    cases outcome with
    | stopped => exact absurd rfl hstopped
    | ok target => exact absurd hgone hinner.2
    | error e =>
      rcases hinner with ⟨-, hthere⟩ | ⟨hnot, hsame⟩
      · exact absurd hgone hthere
      · have habsent : v.disk.outside (host.entry (host.restoreTmp id targetDir)) = none := hsame ▸ hgone
        rw [hcreates] at hnot
        tauto
  · rintro ⟨habsent, hearly⟩
    have hnot : ¬ host.Creates id record targetDir name faults v := by
      rw [hcreates]
      tauto
    cases outcome with
    | stopped => exact absurd rfl hstopped
    | ok target => exact absurd hinner.1 hnot
    | error e =>
      rcases hinner with ⟨hcreated, -⟩ | ⟨-, hsame⟩
      · exact absurd hcreated hnot
      · refine ⟨by rw [houtside, hsame, habsent], fun target htarget => ?_, fun _ _ => houtside.trans hsame⟩
        cases hresult target htarget

/-! ### A sample -/

def backslash : UInt8 := 0x5C

def everyOther : Bytes → Bytes
  | b :: _ :: rest => b :: everyOther rest
  | _ => []

theorem everyOther_flatMap (path : Bytes) : everyOther (path.flatMap fun b => [b, 0]) = path := by
  induction path with
  | nil => rfl
  | cons b rest ih => exact congrArg (b :: ·) ih

/-- Paths of ASCII characters on a drive. -/
def drivePaths : WindowsPaths where
  isAbsolute path := match path with
    | _ :: 0x3A :: 0x5C :: _ => true
    | _ => false
  components path := match path.splitOn backslash with
    | drive :: names => .prefix_ drive :: .rootDir :: (names.filter (· ≠ [])).map fun name =>
        if name = [0x2E, 0x2E] then .parentDir else .normal name
    | [] => []
  parent path := some ((path.reverse.dropWhile (· ≠ backslash)).drop 1).reverse
  join path name := path ++ [backslash] ++ name
  toStringLossy := fromUtf8Lossy
  encodeWide path := path.flatMap fun b => [b, 0]
  fromWide bytes := some (everyOther bytes)
  fromWide_encodeWide path := congrArg some (everyOther_flatMap path)

def windowsUser : String := "S-1-5-21-1-2-3-1001"

/-- A drive on which only the user may write. -/
def driveHost (records : RecordCodec) (entries : EntryCodec) : WindowsHost where
  base := { rootHost sampleDigests records entries with
    root := NativePath.ofString "C:\\ProgramData\\AbyssalWarden\\quarantine" }
  paths := drivePaths
  userSid := windowsUser
  entry path := path.splitOn backslash
  finalPath key := .ok (NativePath.ofString "\\\\?\\" ++ [backslash].intercalate key)
  directory path := .ok ⟨true, false, .ok path⟩
  security _ := .ok (some ⟨some windowsUser, false, some [⟨true, false, 0x1F01FF, windowsUser⟩]⟩)
  protectedRoots := ["C:\\Windows".toList]

def windowsSamplePath : NativePath := NativePath.ofString "C:\\Users\\u\\sample.bin"

/-- The sample's record in a state. -/
def windowsRecord (state : ItemState) (restoredTo : Option ObservedPath) (notes : List String) : QuarantineRecord where
  formatVersion := 1
  id := sampleId
  state := state
  original :=
    { path := ⟨"C:\\Users\\u\\sample.bin", none⟩
      size := 2
      sha256 := sampleSha256
      mode := 0x20
      uid := 0
      gid := 0
      dev := 1
      ino := 7
      ownerSid := some windowsUser
      modified := some epoch }
  keyHex := "000102030405060708090a0b0c0d0e0f101112131415161718191a1b1c1d1e1f"
  reason := ⟨none, none, none, none, none, none⟩
  actorUid := 0
  createdAt := epoch
  updatedAt := epoch
  restoredTo := restoredTo
  notes := notes

def windowsJson (state rest : String) : Bytes :=
  ("\x7b\n  \"format_version\": 1,\n  \"id\": \"0123456789abcdef0123456789abcdef\",\n  \"state\": \"" ++
  state ++ "\",\n  \"original\": \x7b\n    \"path\": \x7b\n      \"text\": " ++
  "\"C:\\\\Users\\\\u\\\\sample.bin\"\n    \x7d,\n    \"size\": 2,\n    \"sha256\": " ++
  "\"9b8db510ef42b8ed54a3712636fda55a4f8cfcd5493e20b74ab00cd4f3979f2d\",\n    \"mode\": 32,\n" ++
  "    \"uid\": 0,\n    \"gid\": 0,\n    \"dev\": 1,\n    \"ino\": 7,\n" ++
  "    \"owner_sid\": \"S-1-5-21-1-2-3-1001\",\n" ++
  "    \"modified\": \"1970-01-01T00:00:00Z\"\n  \x7d,\n  \"key_hex\": " ++
  "\"000102030405060708090a0b0c0d0e0f101112131415161718191a1b1c1d1e1f\",\n  \"reason\": \x7b\x7d,\n" ++
  "  \"actor_uid\": 0,\n  \"created_at\": \"1970-01-01T00:00:00Z\",\n" ++
  "  \"updated_at\": \"1970-01-01T00:00:00Z\"" ++ rest ++ "\n\x7d").toUTF8.data.toList

def windowsStoredJson : Bytes := windowsJson "quarantined" ""

def windowsRestored : QuarantineRecord :=
  windowsRecord .restored (some ⟨"C:\\Users\\u\\sample.bin", none⟩) ["file owner and attributes were not restored"]

def windowsRestoredJson : Bytes := windowsJson "restored"
  (",\n  \"restored_to\": \x7b\n    \"text\": \"C:\\\\Users\\\\u\\\\sample.bin\"\n  \x7d,\n  \"notes\": [\n" ++
  "    \"file owner and attributes were not restored\"\n  ]")

def windowsRestoreEntry (outcome detail : String) : AuditEntry where
  seq := 1
  time := epoch
  actorUid := 0
  actorSid := some windowsUser
  onBehalfOf := none
  action := "restore"
  item := some "0123456789abcdef0123456789abcdef"
  path := none
  sha256 := none
  outcome := outcome
  detail := some detail
  prev := genesis

def windowsRestoreLine (outcome detail : String) : Bytes :=
  ("\x7b\"seq\":1,\"time\":\"1970-01-01T00:00:00Z\",\"actor_uid\":0,\"actor_sid\":\"S-1-5-21-1-2-3-1001\"," ++
  "\"action\":\"restore\",\"item\":\"0123456789abcdef0123456789abcdef\",\"outcome\":\"" ++ outcome ++ "\"," ++
  "\"detail\":\"" ++ detail ++ "\",\"prev\":" ++
  "\"0000000000000000000000000000000000000000000000000000000000000000\"\x7d").toUTF8.data.toList

def windowsRestoreLines : List (AuditEntry × Bytes) :=
  [(windowsRestoreEntry "ok" "restored to C:\\Users\\u\\sample.bin",
      windowsRestoreLine "ok" "restored to C:\\\\Users\\\\u\\\\sample.bin"),
    (windowsRestoreEntry "error" "create C:\\Users\\u\\.aw-restore-0123456789abcdef0123456789abcdef: Access is denied. (os error 5)",
      windowsRestoreLine "error"
        "create C:\\\\Users\\\\u\\\\.aw-restore-0123456789abcdef0123456789abcdef: Access is denied. (os error 5)")]

def windowsRestoreHost : WindowsHost :=
  driveHost
    (RecordCodec.ofTable [(windowsRecord .quarantined none [], windowsStoredJson), (windowsRestored, windowsRestoredJson)]
      (by decide) (by decide) (by decide))
    (EntryCodec.ofTableOrBlanks windowsRestoreLines (by decide +kernel) (by decide +kernel) (by decide +kernel))

def windowsDraws : WindowsDraws where
  id := sampleId
  key := sampleDraws.key
  modified := some epoch
  processes := []
  terminated := []
  dev := 1
  index := 8
  mtime := 0
  now := sampleNow
  later := sampleNow
  audited := sampleNow

/-- The sample in the store. -/
def windowsStored : Volume where
  disk := { emptyDisk with items := ((∅ : AList fun _ : ItemFile => Bytes).insert (.json sampleId)
      windowsStoredJson).insert (.data sampleId) (encoded sampleDraws.key.1 sampleFile.content) }
  refusal _ := none

def windowsRequest : QuarantineRequest := { sampleRequest with path := windowsSamplePath }

def windowsUserDir : NativePath := NativePath.ofString "C:\\Users\\u"

/-- What a restore of the sample returns, and what it leaves. -/
def windowsRestoreSample (faults : List (Fault Errno)) :
    Option (QuarantineStore × Except WindowsError NativePath × Volume) :=
  match (windowsRestoreHost.restore ⟨.genesis, none, []⟩ sampleId none windowsDraws).run (fun _ => true) faults
      windowsStored with
  | (.ok (store, result), v) => some (store, result, v)
  | _ => none

theorem windowsRestoreSample_run {faults : List (Fault Errno)} {store : QuarantineStore}
    {result : Except WindowsError NativePath} (h : windowsRestoreSample faults = some (store, result, v)) :
    (windowsRestoreHost.restore ⟨.genesis, none, []⟩ sampleId none windowsDraws).run (fun _ => true) faults
      windowsStored = (.ok (store, result), v) := by
  unfold windowsRestoreSample at h
  split at h
  · rename_i hrun
    cases h
    exact hrun
  · cases h

/-- The temporary file of the sample cannot be created, and nothing is left. -/
theorem restore_one_name_sample : ∃ store result v,
    windowsRestoreSample (failsAt 1 accessDenied 0) = some (store, result, v) ∧
    windowsRestoreHost.OneName (windowsRestoreHost.restoreTmp sampleId windowsUserDir) windowsStored v result := by
  have hreturns : (windowsRestoreSample (failsAt 1 accessDenied 0)).isSome = true := by decide +kernel
  obtain ⟨⟨store, result, v⟩, hsample⟩ := Option.isSome_iff_exists.mp hreturns
  refine ⟨store, result, v, hsample, (restore_one_name_iff windowsRestoreHost ⟨.genesis, none, []⟩ store sampleId
    (windowsRecord .quarantined none []) none windowsDraws (failsAt 1 accessDenied 0) windowsStored v windowsStoredJson
    windowsUserDir (NativePath.ofString "sample.bin") result (by decide +kernel) (eq_ok_of_toOption (by decide +kernel))
    rfl (eq_ok_of_toOption (by decide)) (windowsRestoreSample_run hsample)).mpr ?_⟩
  exact ⟨rfl, .inr (.inr ⟨1, by decide, accessDenied, 0, rfl⟩)⟩

/-- The sample is restored, and has two names: it cannot be quarantined again. -/
theorem restored_sample_two_names : ∃ store target v,
    windowsRestoreSample [] = some (store, .ok target, v) ∧
    ¬ windowsRestoreHost.OneName (windowsRestoreHost.restoreTmp sampleId windowsUserDir) windowsStored v (.ok target) ∧
    ((windowsRestoreHost.openOriginal windowsRequest).run (fun _ => true) [] v).1 =
      .error (.common (.hardLinked windowsSamplePath 2)) := by
  have hsample : (windowsRestoreSample []).any (fun (_, result, v) => result.toOption.isSome &&
      (v.disk.outside (windowsRestoreHost.entry (windowsRestoreHost.restoreTmp sampleId windowsUserDir))).isSome &&
      match ((windowsRestoreHost.openOriginal windowsRequest).run (fun _ => true) [] v).1 with
        | .error (.common (.hardLinked path links)) => path = windowsSamplePath && links = 2
        | _ => false) = true := by decide +kernel
  obtain ⟨⟨store, result, v⟩, hreturned, hfacts⟩ := (Option.any_eq_true _ _).mp hsample
  obtain ⟨hfacts, hrefused⟩ := Bool.and_eq_true_iff.mp hfacts
  obtain ⟨hok, hthere⟩ := Bool.and_eq_true_iff.mp hfacts
  obtain ⟨target, htarget⟩ := Option.isSome_iff_exists.mp hok
  obtain rfl := eq_ok_of_toOption htarget
  refine ⟨store, target, v, hreturned, fun hone => ?_, ?_⟩
  · rw [hone.noTemporary] at hthere
    cases hthere
  · split at hrefused
    · rename_i path links heq
      obtain ⟨hpath, hlinks⟩ := Bool.and_eq_true_iff.mp hrefused
      rw [heq, of_decide_eq_true hpath, of_decide_eq_true hlinks]
    · cases hrefused

end AbyssalWarden

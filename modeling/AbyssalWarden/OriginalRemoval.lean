import AbyssalWarden.QuarantineSpec
import AbyssalWarden.Remediation

/-! What the store has checked when it removes an original, with other processes at work on the files outside it. -/
namespace AbyssalWarden

variable {host : Host} {mayFail : StoreCall → Bool} {req : QuarantineRequest} {d : Draws} {id : QuarantineId}
  {w w' : Disk} {key : FileKey} {opened : FileNode} {faults : List (Fault Errno)}

/-! ### Calls that leave the files outside the store alone -/

def StoreCall.LeavesFiles (c : StoreCall) : Prop := ∀ k, ¬ c.WritesFile k

/-- The call neither changes the files outside the store nor looks at them. -/
def StoreCall.Inside : StoreCall → Prop
  | .createItem _ | .truncateItem _ | .appendItem _ _ | .syncItem _ | .readItem _ | .renameItem _ _
  | .removeItem _ | .syncItems | .listItems | .appendAudit _ | .syncAudit | .readAudit => True
  | _ => False

theorem changeFiles_apply {c : StoreCall} (hc : c.Inside) (g : Files → Files) :
    (changeFiles g w).apply c = ((w.apply c).1, changeFiles g (w.apply c).2) := by
  cases c with
  | createItem f =>
    simp only [Disk.apply, Disk.createItem, changeFiles]
    split <;> rfl
  | appendItem f data =>
    simp only [Disk.apply, Disk.appendItem, changeFiles]
    split <;> rfl
  | renameItem source target =>
    simp only [Disk.apply, Disk.renameItem, changeFiles]
    split <;> rfl
  | removeItem f =>
    simp only [Disk.apply, Disk.removeItem, changeFiles]
    split <;> rfl
  | truncateItem f | syncItem f | readItem f | syncItems | listItems | appendAudit data | syncAudit | readAudit => rfl
  | _ => exact hc.elim

theorem changeFiles_failed {c : StoreCall} (hc : c.Inside) (g : Files → Files) (n : ℕ) :
    (changeFiles g w).failed n c = changeFiles g (w.failed n c) := by
  cases c with
  | appendItem f data =>
    simp only [Disk.failed, Disk.appendItem, changeFiles]
    split <;> rfl
  | createItem f | renameItem source target | removeItem f | truncateItem f | syncItem f | readItem f | syncItems
  | listItems | appendAudit data | syncAudit | readAudit => rfl
  | _ => exact hc.elim

/-- The same store, whatever the files outside it. -/
def SameStore (w w' : Disk) : Prop := ∃ g, w' = changeFiles g w

theorem blind_inside : Prog.Blind storeSystem changeFiles StoreCall.Inside SameStore where
  acts g w w' h := by
    obtain ⟨g', rfl⟩ := h
    exact ⟨g ∘ g', rfl⟩
  answer c hc w w' h := by
    obtain ⟨g, rfl⟩ := h
    change ((changeFiles g w).apply c).1 = _
    rw [changeFiles_apply hc g]
  apply c hc w w' h := by
    obtain ⟨g, rfl⟩ := h
    exact ⟨g, congrArg Prod.snd (changeFiles_apply hc g)⟩
  failed c hc n w w' h := by
    obtain ⟨g, rfl⟩ := h
    exact ⟨g, changeFiles_failed hc g n⟩

theorem SameStore.refl (w : Disk) : SameStore w w := ⟨id, rfl⟩

theorem SameStore.items (h : SameStore w w') : w'.items = w.items := by
  obtain ⟨g, rfl⟩ := h
  rfl

theorem SameStore.storedAs {content : Bytes} (h : SameStore w w') (hs : host.StoredAs w id content) :
    host.StoredAs w' id content :=
  Host.StoredAs.congr hs (by rw [h.items]) (by rw [h.items])

/-! ### The parts of the call -/

theorem decodeFile_inside {f : ItemFile} {k : Bytes} :
    (host.decodeFile id f k none).Calls StoreCall.Inside := by
  refine (Prog.Calls.request trivial).bind fun _ => (Prog.Calls.ofExcept _).bind fun _ => ?_
  refine (Prog.Calls.ofExcept _).bind fun _ => ?_
  exact (Prog.Calls.forEach (fun _ _ => by unfold Host.decodePiece; trivial) _ _).bind fun _ => trivial

theorem writeEncoded_inside {content k : Bytes} {max : ℕ} {path : NativePath} :
    (host.writeEncoded id content k max path).Calls StoreCall.Inside := by
  refine (Prog.Calls.request trivial).bind fun _ => (Prog.Calls.request trivial).bind fun _ => ?_
  refine Prog.Calls.bind (Prog.Calls.forEach (fun _ _ => ?_) _ _) fun _ => ?_
  · refine (Prog.Calls.ofExcept _).bind fun _ => ?_
    exact (Prog.Calls.request trivial).bind fun _ => trivial
  · refine (Prog.Calls.request trivial).bind fun _ => ?_
    exact decodeFile_inside.bind fun _ => (Prog.Calls.ofExcept _).bind fun _ => trivial

theorem copyOriginal_inside {st : FileNode} : (host.copyOriginal req d st).Calls StoreCall.Inside := by
  have hremove : (StoreCall.ignored (.removeItem (.dataTmp d.id))).Calls StoreCall.Inside :=
    Prog.Calls.ignore trivial
  refine (writeEncoded_inside.orCleanup hremove).bind fun (sha256, copied) => ?_
  cases req.expectedSha256 with
  | none => trivial
  | some expected =>
    dsimp only
    split
    · exact hremove.bind fun _ => trivial
    · trivial

theorem save_inside (record : QuarantineRecord) : (host.save record).Calls StoreCall.Inside := by
  refine (Prog.Calls.ofExcept _).bind fun _ => (Prog.Calls.request trivial).bind fun _ => ?_
  refine (Prog.Calls.request trivial).bind fun _ => (Prog.Calls.request trivial).bind fun _ => ?_
  exact (Prog.Calls.request trivial).bind fun _ => Prog.Calls.request trivial

theorem storeCopy_inside {st : FileNode} : (host.storeCopy req d st).Calls StoreCall.Inside := by
  refine copyOriginal_inside.bind fun (sha256, copied) => ?_
  refine (save_inside (host.pendingRecord req d st sha256 copied)).bind fun _ => ?_
  exact (Prog.Calls.request trivial).bind fun _ => (Prog.Calls.request trivial).bind fun _ => trivial

/-! ### What has been checked -/

/-- What the call of a step met, when another process had made its change. -/
def Step.met (st : Step sharedSystem) : Disk := (metBy changeFiles (isRemoval st.call) st.before).1

/-- What the store checks of a path before it opens the file. -/
structure Host.PathChecked (host : Host) (req : QuarantineRequest) (parent : NativePath) (name : Bytes) : Prop where
  split : splitChecked req.path = .ok (parent, name)
  allowed : req.allowProtected = false → req.path.isProtected = false
  outside : req.path.startsWith host.root = false
  dir : ∃ dir, host.openDir parent.components = .ok dir ∧ (dir.dev, dir.ino) ≠ host.rootDir ∧
    (dir.dev, dir.ino) ≠ host.itemsDir

/-- What the store checks of an open file. -/
structure QuarantineRequest.FileChecked (req : QuarantineRequest) (node : FileNode) : Prop where
  regular : node.kind = .regular
  size : node.content.length ≤ req.maxSize
  links : node.nlink ≤ 1

/-- What is known when a step removes the original of a request. The steps are those of the whole call. -/
structure Host.RemovalChecked (host : Host) (req : QuarantineRequest) (d : Draws) (others : List (Files → Files))
    (steps : List (Step sharedSystem)) (st : Step sharedSystem) (parent : NativePath) (name : Bytes)
    (opened : FileNode) : Prop where
  path : host.PathChecked req parent name
  call : st.call = .removeFile (parent.components ++ [name])
  file : req.FileChecked opened
  opening : ∃ o ∈ steps, o.call = .openFile (parent.components ++ [name]) ∧
    o.met.outside (parent.components ++ [name]) = some opened
  same : ∃ node, st.met.outside (parent.components ++ [name]) = some node ∧ node.dev = opened.dev ∧
    node.ino = opened.ino
  expected : ∀ h, req.expectedSha256 = some h → host.sha256 opened.content = h
  stored : host.StoredAs st.met d.id opened.content
  /-- No other process touched the file in the meantime, so it is the one that was opened. -/
  untouched : (∀ g ∈ others, ∀ files : Files, g files (parent.components ++ [name]) =
    files (parent.components ++ [name])) → st.met.outside (parent.components ++ [name]) = some opened

/-- The path's checks, as one. -/
theorem rejectStoreDir_eq_ok {dir : DirStat} {path : NativePath} {u : Unit} :
    host.rejectStoreDir dir path = .ok u ↔ (dir.dev, dir.ino) ≠ host.rootDir ∧ (dir.dev, dir.ino) ≠ host.itemsDir := by
  unfold Host.rejectStoreDir
  rw [refuseIf_eq_ok, not_or]

theorem openDirNoSymlinks_eq_ok {path : NativePath} {dir : DirStat} :
    host.openDirNoSymlinks path = .ok dir ↔ host.openDir path.components = .ok dir := by
  unfold Host.openDirNoSymlinks
  split <;> simp_all

variable {others : List (Files → Files)} {t : Disk × List (Files → Files)}

/-- The file at `key` is the one that was opened, unless one of the others touched it. -/
def Unreplaced (others : List (Files → Files)) (key : FileKey) (opened : FileNode)
    (t : Disk × List (Files → Files)) : Prop :=
  t.2 ⊆ others ∧
    ((∀ g ∈ others, ∀ files : Files, g files key = files key) → t.1.outside key = some opened)

/-- What the checks come to, with the steps so far. -/
structure Host.Opened (host : Host) (req : QuarantineRequest) (others : List (Files → Files))
    (r : NativePath × FileKey × FileNode) (steps : List (Step sharedSystem)) (t : Disk × List (Files → Files)) : Prop where
  path : ∃ name, host.PathChecked req r.1 name ∧ r.2.1 = r.1.components ++ [name]
  file : req.FileChecked r.2.2
  opening : ∃ o ∈ steps, o.call = .openFile r.2.1 ∧ o.met.outside r.2.1 = some r.2.2
  untouched : Unreplaced others r.2.1 r.2.2 t

theorem openFile_eq_ok {st : FileNode} (h : w.openFile key = .ok st) : w.outside key = some st := by
  unfold Disk.openFile at h
  split at h
  · cases h
  · rename_i node hnode
    split at h
    · cases h
    · rw [hnode, Except.ok.inj h]

theorem openOriginal_opened : Prog.MeetsWith (S := sharedSystem) mayFail (fun g st => g ++ [st])
    (fun _ _ => True) (host.openOriginal req).shared (fun _ _ _ => True) (host.Opened req t.2) [] t := by
  unfold Host.openOriginal Prog.shared
  rw [Prog.amid_monad_bind, Prog.amid_ofExcept]
  refine Prog.meetsWith_bind.mpr (Prog.meetsWith_ofExcept.mpr ⟨fun (parent, name) hsplit => ?_, fun _ _ => trivial⟩)
  dsimp only
  simp only [Prog.amid_monad_bind, Prog.amid_ofExcept]
  refine Prog.meetsWith_bind.mpr (Prog.meetsWith_ofExcept.mpr ⟨fun _ hprotected => ?_, fun _ _ => trivial⟩)
  refine Prog.meetsWith_bind.mpr (Prog.meetsWith_ofExcept.mpr ⟨fun _ hinside => ?_, fun _ _ => trivial⟩)
  refine Prog.meetsWith_bind.mpr (Prog.meetsWith_ofExcept.mpr ⟨fun dir hdir => ?_, fun _ _ => trivial⟩)
  refine Prog.meetsWith_bind.mpr (Prog.meetsWith_ofExcept.mpr ⟨fun _ hstore => ?_, fun _ _ => trivial⟩)
  refine Prog.meetsWith_bind.mpr (Prog.meetsWith_amid_request (S := storeSystem) (c := .openFile _) (fun _ => trivial) (fun _ _ _ => trivial)
    (fun _ _ _ => trivial) fun st t' hopen => ?_)
  refine Prog.meetsWith_bind.mpr (Prog.meetsWith_ofExcept.mpr ⟨fun _ hregular => ?_, fun _ _ => trivial⟩)
  refine Prog.meetsWith_bind.mpr (Prog.meetsWith_ofExcept.mpr ⟨fun _ hsize => ?_, fun _ _ => trivial⟩)
  refine Prog.meetsWith_bind.mpr (Prog.meetsWith_ofExcept.mpr ⟨fun _ hlinks => ?_, fun _ _ => trivial⟩)
  rw [mapError_eq_ok, openDirNoSymlinks_eq_ok] at hdir
  rw [rejectStoreDir_eq_ok] at hstore
  simp only [refuseIf_eq_ok, not_and, not_not, Nat.not_lt, Bool.not_eq_true] at hprotected hinside hregular hsize hlinks
  obtain ⟨hst, rfl⟩ := Prod.mk.inj hopen
  have hnode := openFile_eq_ok hst
  refine ⟨⟨name, ⟨hsplit, hprotected, hinside, dir, hdir, hstore⟩, rfl⟩, ⟨hregular, hsize, hlinks⟩, ?_, ?_⟩
  · exact ⟨_, List.mem_append_right _ (List.mem_singleton_self _), rfl, hnode⟩
  · exact ⟨metBy_others _ _ _, fun _ => hnode⟩

/-! ### The steps of the call -/

theorem StoreCall.LeavesFiles.keeps {c : StoreCall} (hc : c.LeavesFiles) (files : Files) :
    Prog.Keeps storeSystem (·.outside = files) c :=
  keeps_of_apply (P := StoreCall.LeavesFiles) (fun _ _ hc k hk => hc k (StoreCall.cut_writesFile.mp hk))
    (fun _ _ hc hw => (Disk.apply_outside hc).trans hw) c hc

theorem Unreplaced.met (h : Unreplaced others key opened t) (b : Bool) :
    Unreplaced others key opened (metBy changeFiles b t) := by
  refine ⟨List.Subset.trans (metBy_others _ _ _) h.1, fun hothers => ?_⟩
  have hopened := h.2 hothers
  obtain ⟨w, later⟩ := t
  cases later with
  | nil => exact hopened
  | cons g later =>
    rw [metBy]
    split
    · exact hopened
    · exact (hothers g (h.1 List.mem_cons_self) w.outside).trans hopened

theorem Unreplaced.congr (h : Unreplaced others key opened t) {w : Disk} (hw : w.outside = t.1.outside) :
    Unreplaced others key opened (w, t.2) :=
  ⟨h.1, fun hothers => (congrFun hw key).trans (h.2 hothers)⟩

theorem keeps_unreplaced (c : StoreCall) (hc : c.LeavesFiles) :
    Prog.Keeps sharedSystem (Unreplaced others key opened) c where
  torn n _ ht := (ht.met _).congr ((hc.keeps _).torn n _ rfl)
  failed n _ ht := (ht.met _).congr ((hc.keeps _).failed n _ rfl)
  apply _ ht := (ht.met _).congr ((hc.keeps _).apply _ rfl)

/-- Removing the original: the name still refers to the file that was copied. -/
theorem removeOriginal_removes {record : QuarantineRecord} {st : Step sharedSystem}
    (h : st ∈ Prog.trace (S := sharedSystem) mayFail (host.removeOriginal req d record key).shared faults t) :
    st.call.LeavesFiles ∨ st.call = .removeFile key ∧ st.before = metBy changeFiles false t ∧
      ∃ node, st.before.1.outside key = some node ∧ node.dev = record.original.dev ∧
        node.ino = record.original.ino := by
  -- rolling back touches files of the item only
  have hrollBack (now : Now) (why : String) (e : RemediationError) (left : List (Fault Errno))
      (t' : Disk × List (Files → Files))
      (hst : st ∈ Prog.trace (S := sharedSystem) mayFail
        (host.rollBack record now why >>= fun _ => Prog.throw e : StoreProg Unit).shared left t') :
      st.call.LeavesFiles := by
    have hcalls : (host.rollBack record now why >>= fun _ => Prog.throw e : StoreProg Unit).Calls
        (StoreCall.OfItem record.id) := rollBack_calls.bind fun _ => trivial
    exact (hcalls.amid.trace st hst).1.files
  unfold Host.removeOriginal Prog.shared at h
  rw [Prog.amid_monad_bind] at h
  -- the file is looked at, then removed, and rolled back where either fails
  cases Prog.mem_trace_bind h with
  | inl hstat =>
    rw [(Prog.mem_trace_ask hstat).1]
    exact .inl fun _ => id
  | inr hrest =>
    obtain ⟨r, t', left, hrun, hst⟩ := hrest
    have hstat := Prog.ask_returns.of_run hrun
    dsimp only at hst
    split_ifs at hst with hsame
    · exact .inl (hrollBack _ _ _ _ _ hst)
    · rw [Prog.amid_monad_bind] at hst
      cases Prog.mem_trace_bind hst with
      | inl hremoval =>
        obtain ⟨hcall, hbefore⟩ := Prog.mem_trace_ask hremoval
        refine .inr ⟨hcall, ?_⟩
        rw [hbefore]
        -- the removal is reached only where device and inode are those of the copy
        cases hstat with
        | inr herror =>
          obtain ⟨e, rfl⟩ := herror
          exact absurd rfl hsame
        | inl happly =>
          obtain ⟨hr, rfl⟩ := Prod.mk.inj happly
          refine ⟨rfl, ?_⟩
          change ∃ node, (metBy changeFiles false t).1.outside key = some node ∧ _
          cases hnode : (metBy changeFiles false t).1.outside key with
          | none =>
            have hr' : r = .error .noent := by rw [← hr]; exact congrArg (Option.elim · _ _) hnode
            rw [hr'] at hsame
            exact absurd rfl hsame
          | some node =>
            have hr' : r = .ok (node.dev, node.ino) := by rw [← hr]; exact congrArg (Option.elim · _ _) hnode
            rw [hr'] at hsame
            simp only [Bool.and_eq_false_iff, decide_eq_false_iff_not, not_or, not_not] at hsame
            exact ⟨node, rfl, hsame⟩
      | inr hrest =>
        obtain ⟨removed, t'', left', -, hst⟩ := hrest
        cases removed with
        | ok u => exact absurd hst List.not_mem_nil
        | error e => exact .inl (hrollBack _ _ _ _ _ hst)

theorem finishQuarantine_leaves {store : QuarantineStore} {parent : NativePath} {record : QuarantineRecord} :
    (host.finishQuarantine store req d parent record).Calls StoreCall.LeavesFiles := by
  refine (Prog.Calls.request (fun _ => id)).bind fun _ => ?_
  refine ((save_calls (takenRecord req d record)).mono fun _ hc => hc.files).bind fun _ => ?_
  exact ((appendEntry_calls store _).mono fun _ hc => hc.files).bind fun _ => trivial

theorem quarantineInner_removes {store : QuarantineStore} {st : Step sharedSystem}
    (h : st ∈ Prog.trace (S := sharedSystem) mayFail (host.quarantineInner store req d).shared faults t) :
    st.call.LeavesFiles ∨ ∃ parent name opened, host.RemovalChecked req d t.2
      (Prog.trace (S := sharedSystem) mayFail (host.quarantineInner store req d).shared faults t) st parent name opened := by
  generalize hsteps : Prog.trace (S := sharedSystem) mayFail (host.quarantineInner store req d).shared faults t = steps at *
  rw [quarantineInner_eq, Prog.shared, Prog.amid_bind] at hsteps
  rw [← hsteps] at h
  -- the call by its parts: opening, copying, removing, finishing
  cases Prog.mem_trace_bind h with
  | inl hopen => exact .inl ((openOriginal_calls.amid.trace st hopen).1.scratch.files)
  | inr hrest =>
    obtain ⟨⟨parent, key, opened⟩, t₁, left₁, hrun₁, hst⟩ := hrest
    have hopened := openOriginal_opened.of_run hrun₁
    dsimp only at hst
    rw [Prog.amid_bind] at hst
    cases Prog.mem_trace_bind hst with
    | inl hcopy => exact .inl (storeCopy_calls.amid.trace st hcopy).1.files
    | inr hrest =>
      obtain ⟨record, t₂, left₂, hrun₂, hst⟩ := hrest
      have hcopied := (blind_inside.returns storeCopy_inside storeCopy_returns (.refl t₁.1)).of_run hrun₂
      obtain ⟨w', hsame, hrecord, -, -, hstored, hexpected⟩ := hcopied
      -- until the removal nothing but the others changes the file that was opened
      have hunreplaced := Prog.Returns.of_run (((storeCopy_calls.mono fun _ hc => hc.files).amid.meets
        keeps_unreplaced hopened.untouched).mono (fun _ _ => trivial) (fun _ _ _ => trivial) fun _ _ h => h) hrun₂
      rw [Prog.amid_bind] at hst
      cases Prog.mem_trace_bind hst with
      | inl hremove =>
        refine (removeOriginal_removes hremove).imp_right fun ⟨hcall, hbefore, node, hnode, hdev, hino⟩ => ?_
        obtain ⟨name, hpath, hkey⟩ := hopened.path
        dsimp only at hpath hkey
        -- the others' change comes before the call, and the call meets it
        have hmet : st.met = (metBy changeFiles false t₂).1 := by
          rw [Step.met, hcall, isRemoval, metBy_guarded, hbefore]
        have hbeforeMet : st.before.1 = st.met := by rw [hmet, hbefore]
        refine ⟨parent, name, opened, hpath, hkey ▸ hcall, hopened.file, ?_, ?_, hexpected, ?_, ?_⟩
        · obtain ⟨o, ho, hcallo, hfound⟩ := hopened.opening
          rw [← hkey]
          exact ⟨o, hsteps ▸ Prog.mem_trace_bind_left ho, hcallo, hfound⟩
        · rw [← hkey, ← hbeforeMet]
          refine ⟨node, hnode, ?_⟩
          rw [hrecord] at hdev hino
          exact ⟨hdev, hino⟩
        · rw [hmet]
          exact (blind_inside.met hsame false).storedAs hstored
        · rw [← hkey, hmet]
          exact (hunreplaced.met false).2
      | inr hrest =>
        obtain ⟨-, t₃, left₃, -, hst⟩ := hrest
        exact .inl (finishQuarantine_leaves.amid.trace st hst).1

/-- The audit of a failed quarantine touches no file. -/
theorem failureAudit_calls (store : QuarantineStore) {e : RemediationError} :
    ((host.auditEvent store d.audited "quarantine" none (some req.path) req.expectedSha256
      (.error e.text)).attempt >>= fun audited => match audited with
        | .ok store => pure (store, .error e)
        | .error e => pure (store, .error e) :
      Prog storeSystem Empty (QuarantineStore × Except RemediationError QuarantineRecord)).Calls StoreCall.Scratch := by
  refine (appendEntry_calls store _).attempt.bind fun audited => ?_
  cases audited with
  | ok store => trivial
  | error e => trivial

/-- Whatever a quarantine call meets, the only file it removes is the original, and that has been checked. -/
theorem quarantine_removes {store : QuarantineStore} {st : Step sharedSystem}
    (h : st ∈ Prog.trace (S := sharedSystem) mayFail (host.quarantine store req d).shared faults t) :
    st.call.LeavesFiles ∨ ∃ parent name opened, host.RemovalChecked req d t.2
      (Prog.trace (S := sharedSystem) mayFail (host.quarantine store req d).shared faults t) st parent name opened := by
  have hprefix : ∀ st ∈ Prog.trace (S := sharedSystem) mayFail (host.quarantineInner store req d).shared faults t,
      st ∈ Prog.trace (S := sharedSystem) mayFail (host.quarantine store req d).shared faults t := by
    intro st hst
    unfold Host.quarantine Prog.shared
    rw [Prog.amid_monad_bind, Prog.amid_attempt]
    apply Prog.mem_trace_bind_left
    rw [Prog.trace_attempt]
    exact hst
  -- a step is of the quarantine itself or of the audit of its failure
  have hcases : st ∈ Prog.trace (S := sharedSystem) mayFail (host.quarantineInner store req d).shared faults t ∨
      st.call.LeavesFiles := by
    unfold Host.quarantine Prog.shared at h
    rw [Prog.amid_monad_bind, Prog.amid_attempt] at h
    refine (Prog.mem_trace_bind h).imp (fun hinner => ?_) fun hrest => ?_
    · rw [Prog.trace_attempt] at hinner
      exact hinner
    · obtain ⟨result, t', left, -, hst⟩ := hrest
      cases result with
      | ok r => exact absurd hst List.not_mem_nil
      | error e =>
        exact ((failureAudit_calls store).amid.trace st hst).1.files
  cases hcases with
  | inr hleaves => exact .inl hleaves
  | inl hinner =>
    refine (quarantineInner_removes hinner).imp_right fun hremoval => ?_
    obtain ⟨parent, name, opened, hchecked⟩ := hremoval
    obtain ⟨o, ho, hopening⟩ := hchecked.opening
    exact ⟨parent, name, opened, { hchecked with opening := ⟨o, hprefix o ho, hopening⟩ }⟩

end AbyssalWarden

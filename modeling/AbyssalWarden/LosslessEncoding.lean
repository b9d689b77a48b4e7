import AbyssalWarden.RestoreSpec
import AbyssalWarden.OriginalRemoval
import AbyssalWarden.FaultFree

/-! The stored form of a content loses nothing, in whatever pieces the source and the stored file are read: what is
decoded is what was encoded, with its hash and length, and a restore writes the recorded content or fails. -/
namespace AbyssalWarden

/-- The pieces the bytes of a file are read in. -/
structure Split where
  pieces : Bytes → List Bytes
  flatten_pieces : ∀ data, (pieces data).flatten = data

/-- The same host, with its files read in other pieces. -/
def Host.reading (host : Host) (split : Split) : Host :=
  { host with pieces := split.pieces, flatten_pieces := split.flatten_pieces }

/-- The byte of the repeated key that falls on the byte `i` of a content. -/
def Key.at (key : Key) (i : ℕ) : UInt8 := key.1.get ⟨i % keyLen, by rw [key.2]; exact Nat.mod_lt i (by decide)⟩

/-- The stored form of a content: the header, and the content XORed with the repeated key. -/
def Key.stored (key : Key) (content : Bytes) : Bytes := dataMagic ++ content.mapIdx fun i b => b ^^^ key.at i

variable {host : Host} {mayFail : StoreCall → Bool} {w w' : Disk} {id : QuarantineId} {key : Key} {content : Bytes}
  {record : QuarantineRecord} {f : ItemFile} {out : Option FileKey}

/-- The code's XOR from offset 0 on is the one with the repeated key. -/
theorem encoded_eq_stored (key : Key) (content : Bytes) : encoded key.1 content = key.stored content := by
  have hbyte (i : ℕ) : key.1.getD ((0 + i) % key.1.length) 0 = key.at i := by
    have hlt : i % keyLen < key.1.length := by
      rw [key.2]
      exact Nat.mod_lt i (by decide)
    rw [Nat.zero_add, key.2, List.getD, List.getElem?_eq_getElem hlt]
    rfl
  unfold encoded Key.stored xorInPlace
  simp only [hbyte]

theorem decoded_stored (key : Key) (content : Bytes) : decoded key.1 (key.stored content) = some content := by
  rw [← encoded_eq_stored]
  exact decoded_encoded content

/-! ### Decoding -/

/-- The file decodes to the content, and the content is all that the output gets. -/
theorem decodeFile_decodes (host : Host) (hf : w.items.lookup f = some (key.stored content))
    (hout : ∀ target ∈ out, w.contentAt target = some []) :
    (host.decodeFile id f key.1 out).Returns mayFail (fun r w' => r = (host.sha256 content, content.length) ∧
      ∀ target ∈ out, w'.contentAt target = some content) w := by
  have hplain {file plain : Bytes} (hfile : w.items.lookup f = some file) (hdecoded : decoded key.1 file = some plain) :
      plain = content := by
    rw [hf] at hfile
    rw [← Option.some.inj hfile, decoded_stored] at hdecoded
    exact (Option.some.inj hdecoded).symm
  cases out with
  | none =>
    apply decodeFile_returns.mono
    intro r w' h
    obtain ⟨-, file, plain, hfile, hdecoded, hr⟩ := h
    rw [hr, hplain hfile hdecoded]
    exact ⟨rfl, nofun⟩
  | some target =>
    apply (decodeFile_written (hout target rfl)).mono
    intro r w' h
    obtain ⟨file, plain, hfile, hdecoded, hcontent, hr⟩ := h
    obtain rfl := hplain hfile hdecoded
    refine ⟨hr, fun k hk => ?_⟩
    rw [← Option.some.inj hk]
    exact hcontent

/-- When no call fails, decoding it does not fail either. -/
theorem decodeFile_total_of_stored (host : Host) (hf : w.items.lookup f = some (key.stored content)) :
    (host.decodeFile id f key.1 out).Total (fun _ _ => True) w := by
  have hread : w.apply (.readItem f) = (.ok (key.stored content), w) := by
    rw [Disk.apply, hf]
    rfl
  have hlength : ¬ (key.stored content).length < dataMagic.length := by
    rw [Key.stored, List.length_append]
    omega
  have hmagic : (key.stored content).take dataMagic.length = dataMagic := List.take_left' rfl
  refine Prog.total_request_bind hread (total_refuse hlength (total_refuse (not_not.mpr hmagic) ?_))
  have hloop {path : NativePath} (pieces : List Bytes) (acc : Bytes × ℕ) :
      (Prog.forEach (Host.decodePiece key.1 out path) acc pieces).Total (fun _ _ => True) w := by
    apply Prog.meets_forEach (I := fun _ _ _ => True)
    · intro acc piece rest w' _
      cases out with
      | none => trivial
      | some target => exact Prog.total_request_bind (S := storeSystem) (c := StoreCall.appendFile _ _) rfl trivial
    · trivial
  exact Prog.meets_bind.mpr ((hloop _ _).mono (fun _ h => h) (fun _ _ h => h) fun _ _ _ => trivial)

/-! ### Restoring -/

theorem keeps_contentAt {target : FileKey} {content : Option Bytes} (c : StoreCall) (hc : c.LeavesFiles) :
    Prog.Keeps storeSystem (fun w => w.contentAt target = content) c := by
  apply keeps_of_apply (P := StoreCall.LeavesFiles) (J := fun w => w.contentAt target = content) _ _ c hc
  · exact fun c n hc k hk => hc k (StoreCall.cut_writesFile.mp hk)
  · intro c w hc hw
    exact (Disk.apply_contentAt (hc target)).trans hw

/-- What is under the target of a restore that returns: the content of the recorded hash, decoded from the stored
file with the recorded key. -/
def Host.PutBack (host : Host) (id : QuarantineId) (destDir : Option NativePath) (w : Disk) (path : NativePath)
    (w' : Disk) : Prop :=
  ∃ record dir name k file content, host.recordAt w id = some record ∧
    Host.restoreTarget id record destDir = .ok (dir, name, path) ∧ Host.recordKey record = some k ∧
    w.items.lookup (.data id) = some file ∧ decoded k file = some content ∧
    host.sha256 content = record.original.sha256 ∧ w'.contentAt (dir.components ++ [name]) = some content

theorem restoreInner_putBack {destDir : Option NativePath} {d : Draws} :
    (host.restoreInner id destDir d).Returns mayFail (host.PutBack id destDir w) w := by
  unfold Host.restoreInner
  refine Prog.Returns.bind (((get_meets id w).mono (fun _ _ => trivial) (fun _ _ _ => trivial)) fun record w₀ hget => ?_)
  obtain ⟨rfl, hrecord, -⟩ := hget
  refine Prog.Returns.bind (Prog.returns_ofExcept fun _ _ => ?_)
  refine Prog.Returns.bind (Prog.returns_ofExcept fun parts hparts => ?_)
  obtain ⟨dir, name, path⟩ := parts
  refine Prog.Returns.bind (Prog.returns_ofExcept fun _ _ => ?_)
  cases hk : Host.recordKey record with
  | none => trivial
  | some k =>
    dsimp only
    -- the temporary file is new, so it holds the decoded content and nothing else
    refine Prog.Returns.bind (Prog.returns_request fun _ w₁ hcreate => ?_)
    obtain ⟨hnone, hempty, hw₁⟩ := createFile_eq_ok hcreate
    have hcleanup : (StoreCall.removeFile (dir.components ++ [Host.restoreTmp id])).ignored.Calls
        (StoreCall.OfFile (dir.components ++ [Host.restoreTmp id])) := Prog.Calls.ignore removeFile_ofFile
    refine Prog.Returns.bind (((writeRestored_calls.orCleanup hcleanup).meets_and (keeps_sameButFile w₀) hw₁
      ((writeRestored_returns hempty).orCleanup _)).mono (fun _ _ => trivial) (fun _ _ _ => trivial) fun _ w₂ h => ?_)
    obtain ⟨hw₂, file, content, hfile, hdecoded, hcontent, hsha⟩ := h
    rw [hw₁.items] at hfile
    refine Prog.Returns.bind ((commitRestored_meets (hw₂.grown hnone) hnone hcontent).mono (fun _ _ => trivial)
      (fun _ _ _ => trivial) fun _ w₃ h => ?_)
    -- what follows leaves the file under the target
    let rest : StoreProg NativePath := do
      (StoreCall.syncDir dir.components).orErr (.io "sync" dir)
      (StoreCall.removeItem (.data id)).orErr (.io "remove" (host.itemPath (.data id)))
      host.save { record with
        state := .restored
        updatedAt := d.later.1
        restoredTo := some (ObservedPath.fromPath path)
        notes := record.notes ++ host.restoreNotes record }
      pure path
    have hleaves : rest.Calls StoreCall.LeavesFiles :=
      (Prog.Calls.request fun _ hk => hk.elim).bind fun _ => (Prog.Calls.request fun _ hk => hk.elim).bind fun _ =>
        ((save_calls _).mono fun _ hc => hc.files).bind fun _ => trivial
    have hreturns : rest.Returns mayFail (fun path' _ => path' = path) w₃ :=
      Prog.returns_of_last fun _ _ => Prog.returns_of_last fun _ _ => Prog.returns_of_last fun _ _ => rfl
    apply (hleaves.meets_and keeps_contentAt h.2 hreturns).mono (fun _ _ => trivial) (fun _ _ _ => trivial)
    intro path' w' hpath
    obtain ⟨hw', rfl⟩ := hpath
    exact ⟨record, dir, name, k, file, content, hrecord, hparts, hk, hfile, hdecoded, hsha, hw'⟩

/-- What a restore returns is told by the restore itself; the audit of it leaves the files alone. -/
theorem restore_putBack {store : QuarantineStore} {destDir : Option NativePath} {d : Draws} :
    (host.restore store id destDir d).Returns mayFail (fun r w' => ∀ path, r.2 = .ok path →
      host.PutBack id destDir w path w') w := by
  unfold Host.restore Host.audited
  apply Prog.Returns.bind
  apply Prog.meets_attempt.mpr
  apply Prog.Meets.mono restoreInner_putBack (fun _ _ => trivial)
  · intro e w₁ _
    apply Prog.returns_of_last
    intro audited w'
    cases audited <;> exact nofun
  · intro path w₁ hput
    apply Prog.Returns.bind
    have hleaves {entry : AuditEntry} : (host.appendEntry store entry).Calls StoreCall.LeavesFiles :=
      (appendEntry_calls _ _).mono fun _ hc => hc.files
    apply Prog.meets_attempt.mpr
    obtain ⟨record, dir, name, k, file, content, hrecord, hparts, hk, hfile, hdecoded, hsha, hcontent⟩ := hput
    apply (hleaves.meets keeps_contentAt hcontent).mono (fun _ _ => trivial)
    · exact fun e w' _ => nofun
    · intro store' w' hw' path' hpath
      rw [← Except.ok.inj hpath]
      exact ⟨record, dir, name, k, file, content, hrecord, hparts, hk, hfile, hdecoded, hsha, hw'⟩

/-! ### The claim -/

/-- What is written of a content and read back of it, whichever calls fail and in whatever pieces the files are
read. -/
structure Host.Lossless (host : Host) (key : Key) (content : Bytes) : Prop where
  /-- The file that is written, and what is returned of it. -/
  written : ∀ (split : Split) (id : QuarantineId) (max : ℕ) (path : NativePath) (mayFail : StoreCall → Bool)
    (faults : List (Fault Errno)) (w : Disk) (r : Sha256Digest × ℕ) (w' : Disk),
    ((host.reading split).writeEncoded id content key.1 max path).run mayFail faults w = (.ok r, w') →
      w'.items.lookup (.dataTmp id) = some (key.stored content) ∧ r = (host.sha256 content, content.length)
  /-- Nothing but a failing call keeps a content within the limit from being written. -/
  writes : ∀ (split : Split) (id : QuarantineId) (max : ℕ) (path : NativePath) (mayFail : StoreCall → Bool) (w : Disk),
    w.items.lookup (.dataTmp id) = none → content.length ≤ max →
      ∃ r w', ((host.reading split).writeEncoded id content key.1 max path).run mayFail [] w = (.ok r, w')
  /-- What is read of such a file, and what is written of it. -/
  decoded : ∀ (split : Split) (id : QuarantineId) (f : ItemFile) (out : Option FileKey) (mayFail : StoreCall → Bool)
    (faults : List (Fault Errno)) (w : Disk) (r : Sha256Digest × ℕ) (w' : Disk),
    w.items.lookup f = some (key.stored content) → (∀ target ∈ out, w.contentAt target = some []) →
      ((host.reading split).decodeFile id f key.1 out).run mayFail faults w = (.ok r, w') →
        r = (host.sha256 content, content.length) ∧ ∀ target ∈ out, w'.contentAt target = some content
  /-- Nothing but a failing call keeps it from being read. -/
  decodes : ∀ (split : Split) (id : QuarantineId) (f : ItemFile) (out : Option FileKey) (mayFail : StoreCall → Bool)
    (w : Disk), w.items.lookup f = some (key.stored content) →
      ∃ r w', ((host.reading split).decodeFile id f key.1 out).run mayFail [] w = (.ok r, w')
  /-- What a restore puts under its target has the recorded hash, and is the content if this is what was stored. -/
  restored : ∀ (split : Split) (store store' : QuarantineStore) (id : QuarantineId) (destDir : Option NativePath)
    (d : Draws) (mayFail : StoreCall → Bool) (faults : List (Fault Errno)) (w w' : Disk) (path : NativePath),
    ((host.reading split).restore store id destDir d).run mayFail faults w = (.ok (store', .ok path), w') →
      ∃ record dir name restored, host.recordAt w id = some record ∧
        Host.restoreTarget id record destDir = .ok (dir, name, path) ∧
        w'.contentAt (dir.components ++ [name]) = some restored ∧
        host.sha256 restored = record.original.sha256 ∧
        (Host.recordKey record = some key.1 → w.items.lookup (.data id) = some (key.stored content) →
          restored = content)

/-- The quarantine encoding is lossless. -/
theorem quarantine_encoding_lossless (host : Host) (key : Key) (content : Bytes) : host.Lossless key content where
  written split id max path mayFail faults w r w' hrun := by
    obtain ⟨hfile, hr⟩ := writeEncoded_returns.of_run hrun
    rw [encoded_eq_stored] at hfile
    exact ⟨hfile, hr⟩
  writes split id max path mayFail w hnew hmax := by
    obtain ⟨r, w', hrun, -⟩ := (writeEncoded_total (host.reading split) key.1 path hnew hmax).run mayFail
    exact ⟨r, w', hrun⟩
  decoded split id f out mayFail faults w r w' hf hout hrun :=
    (decodeFile_decodes (host.reading split) hf hout).of_run hrun
  decodes split id f out mayFail w hf := by
    obtain ⟨r, w', hrun, -⟩ := (decodeFile_total_of_stored (host.reading split) hf).run mayFail
    exact ⟨r, w', hrun⟩
  restored split store store' id destDir d mayFail faults w w' path hrun := by
    obtain ⟨record, dir, name, k, file, restored, hrecord, hparts, hk, hfile, hdecoded, hsha, hcontent⟩ :=
      restore_putBack.of_run hrun path rfl
    refine ⟨record, dir, name, restored, hrecord, hparts, hcontent, hsha, fun hkey hstored => ?_⟩
    rw [hkey] at hk
    rw [hstored] at hfile
    rw [← Option.some.inj hk, ← Option.some.inj hfile, decoded_stored] at hdecoded
    exact (Option.some.inj hdecoded).symm

end AbyssalWarden

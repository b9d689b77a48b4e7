import AbyssalWarden.NoDataLoss

/-! What recovery decides about one interrupted quarantine, whatever happened to the original. -/
namespace AbyssalWarden

variable {host : Host} {w w' : Disk} {f : ItemFile} {id : QuarantineId} {record : QuarantineRecord}
  {key : Bytes}

/-- Nothing fails. -/
def never (_ : StoreCall) : Bool := false

theorem refuseIf_eq_error {ε : Type} {p : Prop} [Decidable p] {e e' : ε} (h : refuseIf p e = .error e') :
    p := by
  by_contra hp
  rw [refuseIf, if_neg hp] at h
  cases h

/-- Decoding a file fails only if it is missing or has no header. -/
theorem decodeFile_meets : (host.decodeFile id f key none).Meets never (fun _ => True)
    (fun _ w' => w' = w ∧ ∀ file, w.items.lookup f = some file → decoded key file = none)
    (fun r w' => w' = w ∧ ∃ file plain, w.items.lookup f = some file ∧ decoded key file = some plain ∧
      r = (host.sha256 plain, plain.length)) w := by
  unfold Host.decodeFile
  refine Prog.meets_bind.mpr (Prog.meets_request (fun _ => trivial) nofun (fun e he => ?_)
    fun file hfile => ?_)
  · refine ⟨rfl, fun file hfile => ?_⟩
    have herror : (w.apply (.readItem f)).1 = .error e := he
    rw [Disk.apply, hfile] at herror
    cases herror
  · obtain ⟨hlookup, -⟩ := readItem_eq_ok (Prod.ext hfile rfl)
    -- the file is the one that was read, so it is decoded or not
    have hbad (hdecoded : decoded key file = none) :
        ∀ file, w.items.lookup f = some file → decoded key file = none := by
      intro file' hfile'
      rw [hlookup] at hfile'
      cases hfile'
      exact hdecoded
    refine Prog.meets_bind.mpr (Prog.meets_ofExcept.mpr ⟨fun _ _ => ?_, fun e he => ⟨rfl, ?_⟩⟩)
    · refine Prog.meets_bind.mpr (Prog.meets_ofExcept.mpr ⟨fun _ hmagic => ?_, fun e he => ⟨rfl, ?_⟩⟩)
      · rw [refuseIf_eq_ok, not_not] at hmagic
        refine Prog.meets_bind.mpr ((decodePieces_meets _).mono (fun _ h => h) (fun _ _ h => h)
          fun acc w' hacc => ?_)
        obtain ⟨rfl, rfl⟩ := hacc
        rw [host.flatten_pieces]
        refine ⟨rfl, file, _, hlookup, if_pos hmagic, ?_⟩
        simp only [xorInPlace_length]
      · exact hbad (if_neg (refuseIf_eq_error he))
    · apply hbad
      have hshort := refuseIf_eq_error he
      refine if_neg fun hmagic => ?_
      have hlen := congrArg List.length hmagic
      rw [List.length_take] at hlen
      omega

/-- What a file in `items/` decodes to with the key of the record. -/
def Host.copyAt (host : Host) (w : Disk) (record : QuarantineRecord) (f : ItemFile) :
    Option Sha256Digest :=
  (Host.recordKey record).bind fun key => (w.items.lookup f).bind fun file =>
    (decoded key file).map host.sha256

theorem copyVerified_meets : (host.copyVerified record).Meets never (fun _ => True) (fun _ _ => False)
    (fun verified w' => w' = w ∧ verified =
      decide (host.copyAt w record (.data record.id) = some record.original.sha256)) w := by
  unfold Host.copyVerified Host.copyAt
  cases Host.recordKey record with
  | none => exact ⟨rfl, rfl⟩
  | some key =>
    rw [Option.bind_some]
    refine Prog.meets_bind.mpr (Prog.meets_attempt.mpr (decodeFile_meets.mono (fun _ h => h) ?_ ?_))
    · intro e w' hfail
      obtain ⟨rfl, hnone⟩ := hfail
      refine ⟨rfl, (decide_eq_false ?_).symm⟩
      cases hfile : w'.items.lookup (.data record.id) with
      | none => simp
      | some file => simp [hnone file hfile]
    · intro r w' hr
      obtain ⟨rfl, file, plain, hfile, hplain, rfl⟩ := hr
      refine ⟨rfl, ?_⟩
      simp [hfile, hplain]

theorem originalPresent_meets : (host.originalPresent record).Meets never (fun _ => True)
    (fun _ _ => False) (fun present w' => w' = w ∧ present = host.presentAt w record) w := by
  unfold Host.originalPresent Host.presentAt
  cases host.originalKey record with
  | none => exact ⟨rfl, rfl⟩
  | some key =>
    refine Prog.meets_ask_bind (fun _ => trivial) nofun fun r w' happly => ?_
    change ((w.outside key).elim (.error .noent) fun node => .ok (node.dev, node.ino), w) = (r, w')
      at happly
    obtain ⟨rfl, rfl⟩ := Prod.mk.inj happly
    dsimp only
    cases w.outside key <;> exact ⟨rfl, rfl⟩

/-- The decision: by what is at the original path first, by the copy under its name next. -/
def Host.decision (host : Host) (w : Disk) (record : QuarantineRecord) : ItemState :=
  if host.presentAt w record = true then .rolledBack
  else if host.copyAt w record (.data record.id) = some record.original.sha256 then .quarantined
  else .failed

theorem resolvePending_decides : (host.resolvePending record).Meets never (fun _ => True)
    (fun _ _ => False) (fun outcome _ => outcome.1 = host.decision w record) w := by
  -- a call whose result is ignored decides nothing
  have hignore {c : StoreCall} {p : StoreProg (ItemState × String)} {s : Disk} {post}
      (hp : ∀ s', p.Meets never (fun _ => True) (fun _ _ => False) post s') :
      (c.ignored >>= fun _ => p).Meets never (fun _ => True) (fun _ _ => False) post s :=
    Prog.meets_bind.mpr ⟨fun _ => trivial, nofun, hp _⟩
  unfold Host.resolvePending
  refine Prog.meets_bind.mpr (originalPresent_meets.mono (fun _ h => h) (fun _ _ h => h)
    fun present w' hpresent => ?_)
  obtain ⟨rfl, rfl⟩ := hpresent
  split
  · rename_i hpresent
    refine hignore fun _ => hignore fun _ => hignore fun _ => ?_
    exact (if_pos hpresent).symm
  · rename_i hpresent
    refine Prog.meets_bind.mpr (copyVerified_meets.mono (fun _ h => h) (fun _ _ h => h)
      fun verified w'' hverified => ?_)
    obtain ⟨rfl, rfl⟩ := hverified
    by_cases hcopy : host.copyAt w'' record (.data record.id) = some record.original.sha256
    · rw [if_pos (decide_eq_true hcopy)]
      refine hignore fun _ => ?_
      change ItemState.quarantined = host.decision w'' record
      rw [Host.decision, if_neg hpresent, if_pos hcopy]
    · rw [if_neg (by simpa using hcopy)]
      change ItemState.failed = host.decision w'' record
      rw [Host.decision, if_neg hpresent, if_neg hcopy]

/-! ### When it is right -/

/-- A file with the recorded content is at the original path. -/
def Host.OriginalHolds (host : Host) (w : Disk) (record : QuarantineRecord) : Prop :=
  ∃ path key node, nativePath record.original.path = some path ∧ fileKey path = some key ∧
    w.outside key = some node ∧ node.kind = .regular ∧
    host.sha256 node.content = record.original.sha256

/-- An interrupted quarantine: the record is written, and the copy is under its temporary name or under
its own. -/
structure Host.CopyLeft (host : Host) (w : Disk) (record : QuarantineRecord) : Prop where
  pending : record.state = .pending
  listed : host.recordAt w record.id = some record
  copy : ∃ key content, Host.recordKey record = some key ∧
    host.sha256 content = record.original.sha256 ∧
    (w.items.lookup (.dataTmp record.id) = some (encoded key content) ∧
        w.items.lookup (.data record.id) = none ∨
      w.items.lookup (.dataTmp record.id) = none ∧
        w.items.lookup (.data record.id) = some (encoded key content))

/-- The copy is discarded only while the original holds what was recorded, and given up only if no file
in `items/` does. -/
def Host.DecidesRightly (host : Host) (w : Disk) (record : QuarantineRecord) : Prop :=
  ∃ outcome w', (host.resolvePending record).run never [] w = (.ok outcome, w') ∧
    (outcome.1 = .rolledBack → host.OriginalHolds w record) ∧
    (outcome.1 = .failed → ∀ f, host.copyAt w record f ≠ some record.original.sha256)

theorem decidesRightly_iff_decision :
    host.DecidesRightly w record ↔
      (host.decision w record = .rolledBack → host.OriginalHolds w record) ∧
        (host.decision w record = .failed →
          ∀ f, host.copyAt w record f ≠ some record.original.sha256) := by
  obtain ⟨outcome, w', hrun, houtcome⟩ := (resolvePending_decides (w := w)).run_nil
  rw [← houtcome]
  constructor
  · intro hright
    obtain ⟨outcome', w'', hrun', hright⟩ := hright
    rw [hrun] at hrun'
    cases hrun'
    exact hright
  · intro hright
    exact ⟨outcome, w', hrun, hright⟩

/-- Whatever is outside the store when it is opened: recovery decides rightly exactly if a file that still
has the recorded device and inode has the recorded content too, and, where there is no such file, the copy
has been given its name. -/
theorem recovery_decides_rightly_iff (h : host.CopyLeft w record) :
    host.DecidesRightly w record ↔
      (host.presentAt w record = true → host.OriginalHolds w record) ∧
        (host.presentAt w record = false → w.items.lookup (.data record.id) ≠ none) := by
  obtain ⟨key, content, hkey, hsha, hcopy⟩ := h.copy
  have hcopied {f : ItemFile} (hf : w.items.lookup f = some (encoded key content)) :
      host.copyAt w record f = some record.original.sha256 := by
    simp [Host.copyAt, hkey, hf, decoded_encoded, hsha]
  rw [decidesRightly_iff_decision]
  by_cases hpresent : host.presentAt w record = true
  · have hdecision : host.decision w record = .rolledBack := if_pos hpresent
    simp [hdecision, hpresent]
  · rw [Host.decision, if_neg hpresent]
    rw [Bool.not_eq_true] at hpresent
    rcases hcopy with ⟨htmp, hdata⟩ | ⟨-, hdata⟩
    · have hnone : host.copyAt w record (.data record.id) = none := by simp [Host.copyAt, hkey, hdata]
      have hsome := hcopied htmp
      simp only [hpresent, hnone, hdata]
      refine iff_of_false ?_ (by simp)
      intro hright
      exact hright.2 (by simp) (.dataTmp record.id) hsome
    · rw [if_pos (hcopied hdata)]
      simp [hpresent, hdata]

/-! ### Where it is wrong -/

/-- The quarantine of the sample is interrupted after that many calls, and then another program leaves
this at the original path. -/
def interruptedDisk (calls : ℕ) (node : Option FileNode) : Disk :=
  ((sampleHost.runEvents StoreCall.mayFail sampleState
    [.reopen sampleNow [], quarantineSample calls [.stops 0]]).disk).setFile sampleKey node

/-- The sample, rewritten in place. -/
def rewrittenFile : FileNode := { sampleFile with content := [0x23] }

theorem interruptedDisk_items (calls : ℕ) (node : Option FileNode) :
    (interruptedDisk calls node).items = (interruptedDisk calls none).items := rfl

theorem copyLeft_committed (node : Option FileNode) :
    sampleHost.CopyLeft (interruptedDisk 14 node) (sampleRecord .pending) := by
  have hrecord : sampleHost.recordAt (interruptedDisk 14 none) sampleId =
      some (sampleRecord .pending) := by decide +kernel
  refine ⟨rfl, ?_, sampleDraws.key.1, sampleFile.content, by decide, by decide, .inr ?_⟩
  · rw [Host.recordAt, interruptedDisk_items]
    exact hrecord
  · rw [interruptedDisk_items]
    decide +kernel

theorem copyLeft_uncommitted (node : Option FileNode) :
    sampleHost.CopyLeft (interruptedDisk 11 node) (sampleRecord .pending) := by
  have hrecord : sampleHost.recordAt (interruptedDisk 11 none) sampleId =
      some (sampleRecord .pending) := by decide +kernel
  refine ⟨rfl, ?_, sampleDraws.key.1, sampleFile.content, by decide, by decide, .inl ?_⟩
  · rw [Host.recordAt, interruptedDisk_items]
    exact hrecord
  · rw [interruptedDisk_items]
    decide +kernel

theorem recovery_decides_rightly_iff_sample :
    sampleHost.DecidesRightly (interruptedDisk 14 none) (sampleRecord .pending) ↔
      (sampleHost.presentAt (interruptedDisk 14 none) (sampleRecord .pending) = true →
          sampleHost.OriginalHolds (interruptedDisk 14 none) (sampleRecord .pending)) ∧
        (sampleHost.presentAt (interruptedDisk 14 none) (sampleRecord .pending) = false →
          (interruptedDisk 14 none).items.lookup (.data sampleId) ≠ none) :=
  recovery_decides_rightly_iff (copyLeft_committed none)

/-- The only copy of a file that was rewritten in place is discarded, and a complete copy that was not
renamed yet is given up. -/
theorem recovery_discards_only_copy :
    sampleHost.CopyLeft (interruptedDisk 14 (some rewrittenFile)) (sampleRecord .pending) ∧
      ¬ sampleHost.DecidesRightly (interruptedDisk 14 (some rewrittenFile)) (sampleRecord .pending) ∧
      sampleHost.CopyLeft (interruptedDisk 11 none) (sampleRecord .pending) ∧
      ¬ sampleHost.DecidesRightly (interruptedDisk 11 none) (sampleRecord .pending) := by
  refine ⟨copyLeft_committed _, ?_, copyLeft_uncommitted _, ?_⟩
  · intro hright
    have hdecision : sampleHost.decision (interruptedDisk 14 (some rewrittenFile))
        (sampleRecord .pending) = .rolledBack := by decide
    obtain ⟨path, key, node, hpath, hkey, hnode, -, hsha⟩ :=
      (decidesRightly_iff_decision.mp hright).1 hdecision
    -- the original has its name, with other content
    have hsample : (nativePath (sampleRecord .pending).original.path).bind fileKey = some sampleKey := by
      decide
    rw [hpath, Option.bind_some, hkey] at hsample
    cases hsample
    have hrewritten : (interruptedDisk 14 (some rewrittenFile)).outside sampleKey =
        some rewrittenFile := Disk.setFile_outside _ _ _
    rw [hrewritten] at hnode
    cases hnode
    revert hsha
    decide
  · intro hright
    have hdecision : sampleHost.decision (interruptedDisk 11 none) (sampleRecord .pending) = .failed := by
      decide +kernel
    refine (decidesRightly_iff_decision.mp hright).2 hdecision (.dataTmp sampleId) ?_
    decide +kernel

end AbyssalWarden

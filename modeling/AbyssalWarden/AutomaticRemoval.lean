import AbyssalWarden.OriginalRemoval
import AbyssalWarden.RecoverSpec
import AbyssalWarden.StoreRun

/-! The automatic policy removes only what it allows: over a whole report, with other processes at work. -/
namespace AbyssalWarden

variable {host : Host} {opts : QuarantineOptions} {entries : List AllowEntry} {f : Finding} {path : NativePath}
  {sha256 : Sha256Digest} {record : QuarantineRecord}

/-! ### Opening the store leaves the files outside it alone -/

theorem removeItem_leaves {i : ItemFile} : (StoreCall.ignored (.removeItem i)).Calls StoreCall.LeavesFiles :=
  Prog.Calls.ignore fun _ => id

theorem get_leaves (id : QuarantineId) : (host.get id).Calls StoreCall.LeavesFiles :=
  (get_calls id).mono fun _ hc => hc.scratch.files

theorem resolvePending_leaves : (host.resolvePending record).Calls StoreCall.LeavesFiles := by
  refine (originalPresent_calls.mono fun _ hc => hc.scratch.files).bind fun present => ?_
  split
  · refine removeItem_leaves.bind fun _ => removeItem_leaves.bind fun _ => ?_
    exact (Prog.Calls.ignore fun _ => id).bind fun _ => trivial
  · refine (copyVerified_calls.mono fun _ hc => hc.scratch.files).bind fun verified => ?_
    split
    · exact removeItem_leaves.bind fun _ => trivial
    · trivial

theorem recoverItem_leaves (now : Now) (store : QuarantineStore) (record : QuarantineRecord) :
    (host.recoverItem now store record).Calls StoreCall.LeavesFiles := by
  refine resolvePending_leaves.bind fun (outcome, detail) => ?_
  refine Prog.Calls.bind ((save_calls _).mono fun _ hc => hc.files) fun _ => ?_
  exact ((appendEntry_calls store _).mono fun _ hc => hc.files).bind fun _ => trivial

theorem collectPending_leaves (pending : List QuarantineRecord) (i : ItemFile) :
    (host.collectPending pending i).Calls StoreCall.LeavesFiles := by
  cases i with
  | json id => exact (get_leaves id).bind fun _ => trivial
  | data id | dataTmp id | jsonTmp id => trivial

theorem openStore_leaves (now : Now) : (host.openStore now).Calls StoreCall.LeavesFiles := by
  refine (Prog.Calls.request fun _ => id).bind fun _ => (Prog.Calls.ofExcept _).bind fun head => ?_
  refine (Prog.Calls.request fun _ => id).bind fun _ => ?_
  refine (Prog.Calls.forEach collectPending_leaves _ _).bind fun pending => ?_
  refine (Prog.Calls.forEach (recoverItem_leaves now) _ _).bind fun store => ?_
  refine (Prog.Calls.request fun _ => id).bind fun _ => ?_
  exact (Prog.Calls.forEach (fun _ i => (removeStray_calls i).mono fun _ hc => hc.files) _ _).bind fun _ => trivial

/-! ### The policy -/

/-- What the policy asks of a finding, for the file it names. -/
structure Finding.Removable (f : Finding) (path : NativePath) (sha256 : Sha256Digest) : Prop where
  target : ∃ observed metadata, f.target = .file observed (some sha256) metadata ∧ nativePath observed = some path
  kind : f.kind = .knownIndicator
  confidence : f.confidence = .confirmed
  category : f.category = .malware
  action : f.recommendedAction = .quarantine
  unprotected : path.isProtected = false

theorem autoQuarantineTarget_eq_ok : autoQuarantineTarget f = .ok (path, sha256) ↔ f.Removable path sha256 := by
  unfold autoQuarantineTarget
  simp only [except_bind_eq_ok, refuseIf_eq_ok, not_or, not_not]
  constructor
  · intro h
    obtain ⟨-, ⟨hkind, hconfidence⟩, -, hcategory, -, haction, h⟩ := h
    split at h
    · rename_i observed sha metadata htarget
      -- the finding names a file, and its path leads somewhere
      obtain ⟨named, hnamed, h⟩ := except_bind_eq_ok.mp h
      obtain rfl := Except.ok.inj hnamed
      split at h
      · rename_i native hnative
        simp only [except_bind_eq_ok, refuseIf_eq_ok, Except.ok.injEq, exists_eq_left', Prod.mk.injEq] at h
        obtain ⟨-, hprotected, rfl, rfl⟩ := h
        exact ⟨⟨observed, metadata, htarget, hnative⟩, hkind, hconfidence, hcategory, haction,
          Bool.eq_false_iff.mpr hprotected⟩
      · cases h
    · cases h
    · cases h
  · intro h
    obtain ⟨observed, metadata, htarget, hnative⟩ := h.target
    refine ⟨(), ⟨h.kind, h.confidence⟩, (), h.category, (), h.action, ?_⟩
    rw [htarget]
    simp only [except_ok_bind, hnative, h.unprotected]
    rfl

/-- Marking changes neither what a finding is about nor how it was found. -/
theorem markFinding_removable : (markFinding entries f).Removable path sha256 ↔ f.Removable path sha256 := by
  unfold markFinding
  split
  · rfl
  · exact ⟨fun h => ⟨h.target, h.kind, h.confidence, h.category, h.action, h.unprotected⟩,
      fun h => ⟨h.target, h.kind, h.confidence, h.category, h.action, h.unprotected⟩⟩

/-- A finding that is not marked stays as it is. -/
theorem markFinding_eq_self (h : (markFinding entries f).remediationStatus ≠ .allowed) : markFinding entries f = f := by
  unfold markFinding at h ⊢
  split
  · rfl
  · rename_i e hallowed
    rw [hallowed] at h
    exact absurd rfl h

/-- A finding that is not marked has a hash that no entry has. -/
theorem not_allowed_of_markFinding (h : (markFinding entries f).remediationStatus ≠ .allowed)
    (hremovable : f.Removable path sha256) : ∀ e ∈ entries, e.sha256 ≠ sha256 := by
  obtain ⟨observed, metadata, htarget, -⟩ := hremovable.target
  unfold markFinding at h
  split at h
  · rename_i hnone
    unfold allowedBy at hnone
    rw [htarget, FindingTarget.sha256, Option.bind_some, List.find?_eq_none] at hnone
    intro e he heq
    exact hnone e he (decide_eq_true heq)
  · exact absurd rfl h

/-! ### The system calls of a report -/

/-- The step takes the file at `key` away. -/
def Step.Removes (st : Step sharedSystem) (key : FileKey) : Prop :=
  st.met.outside key ≠ none ∧ st.after.1.outside key = none

namespace Host

/-- The system calls for one finding. -/
def findingSteps (host : Host) (opts : QuarantineOptions) (s : Remediation) (f : Finding) (turn : StoreTurn) :
    List (Step sharedSystem) :=
  if s.stopped ∨ f.remediationStatus = .allowed then []
  else
    match autoQuarantineTarget f, s.store with
    | .ok (path, sha256), some (.ok store) =>
      (host.quarantine store (quarantineRequest opts f path sha256) turn.draws).shared.trace anyFails
        turn.meanwhile.faults (s.disk, turn.meanwhile.others)
    | _, _ => []

def allSteps (host : Host) (opts : QuarantineOptions) : Remediation → List (Finding × StoreTurn) → List (Step sharedSystem)
  | _, [] => []
  | s, (f, turn) :: fs => host.findingSteps opts s f turn ++ host.allSteps opts (host.remediate opts s f turn) fs

/-- The system calls of `quarantine_report`. -/
def reportSteps (host : Host) (opts : QuarantineOptions) (now : Now) (m : Meanwhile) (turns : ℕ → StoreTurn)
    (report : ScanReport) (w : Disk) : List (Step sharedSystem) :=
  (if anyEligible report then (host.openStore now).shared.trace anyFails m.faults (w, m.others) else []) ++
    host.allSteps opts (host.startRemediation now m report w) (report.findings.mapIdx fun i f => (f, turns i))

end Host

theorem mem_allSteps {s : Remediation} {fs : List (Finding × StoreTurn)} {st : Step sharedSystem}
    (h : st ∈ host.allSteps opts s fs) : ∃ s' f turn, (f, turn) ∈ fs ∧ st ∈ host.findingSteps opts s' f turn ∧
      host.findingSteps opts s' f turn ⊆ host.allSteps opts s fs := by
  induction fs generalizing s with
  | nil => exact absurd h List.not_mem_nil
  | cons head fs ih =>
    obtain ⟨f, turn⟩ := head
    rw [Host.allSteps] at h ⊢
    cases List.mem_append.mp h with
    | inl hfirst => exact ⟨s, f, turn, List.mem_cons_self, hfirst, List.subset_append_left _ _⟩
    | inr hrest =>
      obtain ⟨s', f', turn', hmem, hst, hsub⟩ := ih hrest
      exact ⟨s', f', turn', List.mem_cons_of_mem _ hmem, hst, List.subset_append_of_subset_right _ hsub⟩

/-- The calls for one finding are those of a quarantine call that the policy allows. -/
theorem mem_findingSteps {s : Remediation} {turn : StoreTurn} {st : Step sharedSystem}
    (h : st ∈ host.findingSteps opts s f turn) : f.remediationStatus ≠ .allowed ∧ ∃ path sha256 store,
      f.Removable path sha256 ∧ host.findingSteps opts s f turn =
        (host.quarantine store (quarantineRequest opts f path sha256) turn.draws).shared.trace anyFails
          turn.meanwhile.faults (s.disk, turn.meanwhile.others) := by
  unfold Host.findingSteps at h ⊢
  split at h
  · exact absurd h List.not_mem_nil
  · rename_i hgoes
    rw [if_neg hgoes]
    rw [not_or] at hgoes
    refine ⟨hgoes.2, ?_⟩
    split at h
    · rename_i path sha256 store htarget hstore
      exact ⟨path, sha256, store, autoQuarantineTarget_eq_ok.mp htarget, rfl⟩
    · exact absurd h List.not_mem_nil

/-- A step whose call does not write a file does not remove it. -/
theorem not_removes {key : FileKey} {st : Step sharedSystem} (hleads : sharedSystem.Leads st.call st.before st.after)
    (hkey : ¬ st.call.WritesFile key) : ¬ st.Removes key := by
  intro hremoves
  obtain ⟨hmet, hgone⟩ := hremoves
  have hcut (n : ℕ) : (st.met.apply (st.call.cut n)).2.contentAt key = st.met.contentAt key :=
    Disk.apply_contentAt fun h => hkey (StoreCall.cut_writesFile.mp h)
  have hsame : st.after.1.contentAt key = st.met.contentAt key := by
    obtain happly | ⟨n, htorn⟩ | ⟨n, hfailed⟩ := hleads
    · rw [happly]
      exact Disk.apply_contentAt hkey
    · rw [htorn]
      change (st.met.torn n st.call).contentAt key = _
      obtain h | h := st.met.torn_cases n st.call
      · rw [h]
      · rw [h, hcut]
    · rw [hfailed]
      change (st.met.failed n st.call).contentAt key = _
      obtain h | h := st.met.failed_cases n st.call
      · rw [h]
      · rw [h, hcut]
  exact hmet (Disk.contentAt_eq_none.mp (hsame.symm.trans (Disk.contentAt_eq_none.mpr hgone)))

/-- A file that is gone after a run, and that no other process touched, was removed by a step of it. -/
theorem runShared_removes {ε α : Type} {p : Prog storeSystem ε α} {m : Meanwhile} {w : Disk} {key : FileKey}
    (hthere : w.outside key ≠ none) (hothers : ∀ g ∈ m.others, ∀ files : Files, g files key = files key)
    (hgone : (p.runShared m w).2.outside key = none) :
    ∃ st ∈ p.shared.trace anyFails m.faults (w, m.others), st.Removes key := by
  have hkeeps (c : StoreCall) : Prog.Keeps sharedSystem (fun t => t.2 ⊆ m.others) c :=
    ⟨fun _ _ ht => List.Subset.trans (metBy_others _ _ _) ht, fun _ _ ht => List.Subset.trans (metBy_others _ _ _) ht,
      fun _ ht => List.Subset.trans (metBy_others _ _ _) ht⟩
  have hchange : ∃ st ∈ p.shared.trace anyFails m.faults (w, m.others), st.before.1.outside key ≠ none ∧
      ¬ st.after.1.outside key ≠ none :=
    Prog.exists_step_of_change (R := fun t : Disk × List (Files → Files) => t.1.outside key ≠ none) hthere
      (not_not.mpr hgone)
  obtain ⟨st, hst, hbefore, hafter⟩ := hchange
  have hleft : st.before.2 ⊆ m.others :=
    Prog.trace_before (J := fun t : Disk × List (Files → Files) => t.2 ⊆ m.others) hkeeps
      (List.Subset.refl m.others) st hst
  refine ⟨st, hst, ?_, not_not.mp hafter⟩
  unfold Step.met
  generalize st.before = t at hbefore hleft
  obtain ⟨w', later⟩ := t
  cases later with
  | nil => exact hbefore
  | cons g later =>
    rw [metBy]
    split
    · exact hbefore
    · change g w'.outside key ≠ none
      rw [hothers g (hleft List.mem_cons_self)]
      exact hbefore

theorem remediate_disk (host : Host) (opts : QuarantineOptions) (s : Remediation) (f : Finding) (turn : StoreTurn) :
    (host.remediate opts s f turn).disk = s.disk ∨
    ∃ path sha256 store, host.findingSteps opts s f turn =
        (host.quarantine store (quarantineRequest opts f path sha256) turn.draws).shared.trace anyFails
          turn.meanwhile.faults (s.disk, turn.meanwhile.others) ∧
      (host.remediate opts s f turn).disk =
        ((host.quarantine store (quarantineRequest opts f path sha256) turn.draws).runShared turn.meanwhile s.disk).2 := by
  unfold Host.remediate Host.findingSteps
  by_cases hstopped : s.stopped = true
  · rw [if_pos hstopped]
    exact .inl rfl
  · by_cases hallowed : f.remediationStatus = .allowed
    · rw [if_neg hstopped, if_pos hallowed]
      exact .inl rfl
    · rw [if_neg hstopped, if_neg hallowed, if_neg (not_or.mpr ⟨hstopped, hallowed⟩)]
      -- no call is made without a target and an open store
      cases htarget : autoQuarantineTarget f with
      | error why => exact .inl rfl
      | ok target =>
        obtain ⟨path, sha256⟩ := target
        cases hstore : s.store with
        | none => exact .inl rfl
        | some opened =>
          cases opened with
          | error e => exact .inl rfl
          | ok store =>
            refine .inr ⟨path, sha256, store, rfl, ?_⟩
            dsimp only
            generalize Prog.runShared _ _ _ = ended
            obtain ⟨outcome, disk⟩ := ended
            cases outcome with
            | ok r =>
              obtain ⟨store', result⟩ := r
              cases result <;> rfl
            | error e => exact e.elim
            | stopped => rfl

theorem remediateAll_removes {s : Remediation} {fs : List (Finding × StoreTurn)} {key : FileKey}
    (hthere : s.disk.outside key ≠ none)
    (hothers : ∀ p ∈ fs, ∀ g ∈ p.2.meanwhile.others, ∀ files : Files, g files key = files key)
    (hgone : (host.remediateAll opts s fs).disk.outside key = none) :
    ∃ st ∈ host.allSteps opts s fs, st.Removes key := by
  induction fs generalizing s with
  | nil => exact absurd hgone hthere
  | cons head fs ih =>
    obtain ⟨f, turn⟩ := head
    rw [Host.allSteps]
    by_cases hnext : (host.remediate opts s f turn).disk.outside key = none
    · obtain hsame | ⟨path, sha256, store, hsteps, hdisk⟩ := remediate_disk host opts s f turn
      · rw [hsame] at hnext
        exact absurd hnext hthere
      · rw [hdisk] at hnext
        obtain ⟨st, hst, hremoves⟩ := runShared_removes hthere (hothers _ List.mem_cons_self) hnext
        exact ⟨st, List.mem_append_left _ (hsteps ▸ hst), hremoves⟩
    · obtain ⟨st, hst, hremoves⟩ := ih hnext (fun p hp => hothers p (List.mem_cons_of_mem _ hp)) hgone
      exact ⟨st, List.mem_append_right _ hst, hremoves⟩

/-- The steps of a report account for every file that is gone after it. -/
theorem quarantineReport_removes {now : Now} {opening : Meanwhile} {turns : ℕ → StoreTurn} {report : ScanReport}
    {w : Disk} {key : FileKey} (hthere : w.outside key ≠ none)
    (hopening : ∀ g ∈ opening.others, ∀ files : Files, g files key = files key)
    (hturns : ∀ i, ∀ g ∈ (turns i).meanwhile.others, ∀ files : Files, g files key = files key)
    (hgone : (host.quarantineReport opts now opening turns report w).disk.outside key = none) :
    ∃ st ∈ host.reportSteps opts now opening turns report w, st.Removes key := by
  have hothers : ∀ p ∈ report.findings.mapIdx fun i f => (f, turns i), ∀ g ∈ p.2.meanwhile.others,
      ∀ files : Files, g files key = files key := by
    intro p hp
    obtain ⟨i, -, rfl⟩ := List.mem_mapIdx.mp hp
    exact hturns i
  unfold Host.reportSteps
  -- the file went while the store was opened, or during one of the turns
  by_cases hstart : (host.startRemediation now opening report w).disk.outside key = none
  · unfold Host.startRemediation at hstart
    split at hstart
    · rename_i heligible
      have hopened : ((host.openStore now).runShared opening w).2.outside key = none := by
        unfold Host.openForReport at hstart
        generalize (host.openStore now).runShared opening w = ended at hstart ⊢
        obtain ⟨outcome, disk⟩ := ended
        cases outcome <;> exact hstart
      obtain ⟨st, hst, hremoves⟩ := runShared_removes hthere hopening hopened
      exact ⟨st, List.mem_append_left _ ((if_pos heligible).symm ▸ hst), hremoves⟩
    · exact absurd hstart hthere
  · obtain ⟨st, hst, hremoves⟩ := remediateAll_removes hstart hothers hgone
    exact ⟨st, List.mem_append_right _ hst, hremoves⟩

/-- If `mark_allowed` followed by `quarantine_report` removes a file, whatever fails, wherever it is stopped and
whatever other processes do to the files meanwhile, then the report has a finding that the policy allows to be acted
on and the allow-list does not have, and the store has checked the file. `links` are the paths of the symbolic links
among the directories. -/
theorem automatic_removal_allowed (host : Host) (opts : QuarantineOptions) (now : Now) (opening : Meanwhile)
    (turns : ℕ → StoreTurn) (report : ScanReport) (entries : List AllowEntry) (w : Disk) (links : Set (List Bytes))
    (hlinks : ∀ components dir, host.openDir components = .ok dir → ∀ pre, pre <+: components → pre ∉ links)
    (st : Step sharedSystem) (key : FileKey)
    (hst : st ∈ host.reportSteps opts now opening turns (markAllowed report entries).1 w) (hremoves : st.Removes key) :
    ∃ i f path sha256 parent name opened, report.findings[i]? = some f ∧ f.Removable path sha256 ∧
      (∀ e ∈ entries, e.sha256 ≠ sha256) ∧ key = parent.components ++ [name] ∧
      (∀ pre, pre <+: parent.components → pre ∉ links) ∧ host.sha256 opened.content = sha256 ∧
      host.RemovalChecked (quarantineRequest opts f path sha256) (turns i).draws (turns i).meanwhile.others
        (host.reportSteps opts now opening turns (markAllowed report entries).1 w) st parent name opened := by
  unfold Host.reportSteps at hst
  -- the store is opened first, which removes nothing outside it; then each finding has its turn
  cases List.mem_append.mp hst with
  | inl hopen =>
    split at hopen
    · have htrace := (openStore_leaves now).amid.trace st hopen
      exact absurd hremoves (not_removes htrace.2 (htrace.1 key))
    · exact absurd hopen List.not_mem_nil
  | inr hfindings =>
    obtain ⟨s, f', turn, hmem, hst', hsub⟩ := mem_allSteps hfindings
    obtain ⟨i, hi, heq⟩ := List.mem_mapIdx.mp hmem
    obtain ⟨rfl, rfl⟩ := Prod.mk.inj heq
    obtain ⟨hnot, path, sha256, store, hremovable, hsteps⟩ := mem_findingSteps hst'
    have hlen : i < report.findings.length := by
      simpa [markAllowed] using hi
    have hmarked : (markAllowed report entries).1.findings[i] = markFinding entries report.findings[i] := by
      simp [markAllowed]
    rw [hmarked] at hnot hremovable hsteps hst' hsub
    -- a finding that is not marked has no entry with its hash
    have hentries := not_allowed_of_markFinding hnot (markFinding_removable.mp hremovable)
    rw [markFinding_eq_self hnot] at hremovable hsteps hst' hsub
    rw [hsteps] at hst' hsub
    have hleads := (Prog.calls_true _).trace st hst' |>.2
    -- a quarantine removes at most the original, and only after the store's checks
    cases quarantine_removes hst' with
    | inl hleaves => exact absurd hremoves (not_removes hleads (hleaves key))
    | inr hremoved =>
      obtain ⟨parent, name, opened, hchecked⟩ := hremoved
      have hkey : key = parent.components ++ [name] := by
        by_contra hne
        refine not_removes hleads ?_ hremoves
        rw [hchecked.call]
        exact hne
      obtain ⟨dir, hdir, -⟩ := hchecked.path.dir
      obtain ⟨o, ho, hopening⟩ := hchecked.opening
      refine ⟨i, report.findings[i], path, sha256, parent, name, opened, List.getElem?_eq_getElem hlen, hremovable,
        hentries, hkey, hlinks _ dir hdir, hchecked.expected sha256 rfl, ?_⟩
      exact { hchecked with opening := ⟨o, List.mem_append_right _ (hsub ho), hopening⟩ }

/-! ### A sample report -/

/-- A match of the sample file in a hash database. -/
def sampleMalware : Finding where
  id := 7
  kind := .knownIndicator
  name := "Sample.Malware"
  severity := .high
  confidence := .confirmed
  category := .malware
  target := .file ⟨"/home/user/sample.bin", none⟩ (some sampleSha256) none
  source := ⟨"hash", "1.0.0", none, none, none, none⟩
  evidence := []
  explanation := "The file's SHA-256 is in the database."
  recommendedAction := .quarantine
  remediationGuidance := none
  remediationStatus := .notAttempted
  remediationDetail := none
  detectedAt := epoch

def sampleReport (findings : List Finding) : ScanReport where
  status := .completed
  stats := .empty
  findings := findings
  skipped := []
  issues := []
  truncated := ⟨0, 0, 0⟩
  warnings := []

/-- Its record in a state. -/
def malwareRecord (state : ItemState) : QuarantineRecord :=
  { sampleRecord state with reason := reasonFor sampleMalware }

def malwareJson (state : String) : Bytes :=
  ("\x7b\n  \"format_version\": 1,\n  \"id\": \"0123456789abcdef0123456789abcdef\",\n  \"state\": \"" ++
  state ++ "\",\n  \"original\": \x7b\n    \"path\": \x7b\n      \"text\": \"/home/user/sample.bin\"\n" ++
  "    \x7d,\n    \"size\": 2,\n    \"sha256\": " ++
  "\"9b8db510ef42b8ed54a3712636fda55a4f8cfcd5493e20b74ab00cd4f3979f2d\",\n    \"mode\": 420,\n" ++
  "    \"uid\": 1000,\n    \"gid\": 1000,\n    \"dev\": 1,\n    \"ino\": 7,\n" ++
  "    \"modified\": \"1970-01-01T00:00:00Z\"\n  \x7d,\n  \"key_hex\": " ++
  "\"000102030405060708090a0b0c0d0e0f101112131415161718191a1b1c1d1e1f\",\n  \"reason\": \x7b\n" ++
  "    \"finding_id\": \"00000000-0000-0000-0000-000000000007\",\n" ++
  "    \"detection_name\": \"Sample.Malware\",\n    \"detector\": \"hash\"\n  \x7d,\n" ++
  "  \"actor_uid\": 0,\n  \"created_at\": \"1970-01-01T00:00:00Z\",\n" ++
  "  \"updated_at\": \"1970-01-01T00:00:00Z\"\n\x7d").toUTF8.data.toList

def malwareRecords : RecordCodec :=
  RecordCodec.ofTable [(malwareRecord .pending, malwareJson "pending"),
      (malwareRecord .quarantined, malwareJson "quarantined")]
    (by decide) (by decide) (by decide)

/-- A directory that is a symbolic link. -/
def linkedDir : List Bytes := [NativePath.ofString "link"]

/-- The machine of the sample, with a directory that is a link. -/
def malwareHost : Host :=
  { sampleHost with
    openDir := fun components => if linkedDir <+: components then .error .loop else .ok ⟨1, 4, 0o755, 0⟩
    records := malwareRecords }

def sampleTurn : StoreTurn := ⟨sampleDraws, [], []⟩

def sampleOptions : QuarantineOptions := ⟨1024, false⟩

/-- An entry of the allow-list for another file -/
def otherAllowed : AllowEntry := ⟨⟨List.replicate 32 1, rfl⟩, epoch, "a tool of ours", none, none⟩

/-- The sample is removed for the one finding of its report, and that has been checked. -/
theorem automatic_removal_allowed_sample :
    ∃ st ∈ malwareHost.reportSteps sampleOptions sampleNow ⟨[], []⟩ (fun _ => sampleTurn)
        (markAllowed (sampleReport [sampleMalware]) [otherAllowed]).1 sampleState.disk,
      ∃ (i : ℕ) (f : Finding) (path : NativePath) (sha256 : Sha256Digest) (parent : NativePath) (name : Bytes)
        (opened : FileNode), (sampleReport [sampleMalware]).findings[i]? = some f ∧
        f.Removable path sha256 ∧ (∀ e ∈ [otherAllowed], e.sha256 ≠ sha256) ∧
        sampleKey = parent.components ++ [name] ∧ (∀ pre, pre <+: parent.components → pre ∉ ({linkedDir} : Set _)) ∧
        malwareHost.sha256 opened.content = sha256 ∧
        malwareHost.RemovalChecked (quarantineRequest sampleOptions f path sha256) sampleTurn.draws
          sampleTurn.meanwhile.others (malwareHost.reportSteps sampleOptions sampleNow ⟨[], []⟩ (fun _ => sampleTurn)
            (markAllowed (sampleReport [sampleMalware]) [otherAllowed]).1 sampleState.disk) st parent name opened := by
  have hgone : ((malwareHost.quarantineReport sampleOptions sampleNow ⟨[], []⟩ (fun _ => sampleTurn)
      (markAllowed (sampleReport [sampleMalware]) [otherAllowed]).1 sampleState.disk).disk.outside sampleKey).isNone = true := by
    decide +kernel
  obtain ⟨st, hst, hremoves⟩ := quarantineReport_removes (by decide)
    (fun _ hg => absurd hg List.not_mem_nil) (fun _ _ hg => absurd hg List.not_mem_nil) (Option.isNone_iff_eq_none.mp hgone)
  refine ⟨st, hst, automatic_removal_allowed malwareHost sampleOptions sampleNow ⟨[], []⟩ (fun _ => sampleTurn)
    (sampleReport [sampleMalware]) [otherAllowed] sampleState.disk {linkedDir} ?_ st sampleKey hst hremoves⟩
  intro components dir hdir pre hpre hlink
  rw [Set.mem_singleton_iff.mp hlink] at hpre
  change (if linkedDir <+: components then _ else _) = _ at hdir
  rw [if_pos hpre] at hdir
  cases hdir

end AbyssalWarden

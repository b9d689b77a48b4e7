import AbyssalWarden.AutomaticRemoval
import AbyssalWarden.QuarantineOutcome

/-! What the status of a finding says after `quarantine_report`, against what was done to its file. -/
namespace AbyssalWarden

/-- The finding names the file at a path, and its hash. -/
def Finding.Names (f : Finding) (path : NativePath) (sha256 : Sha256Digest) : Prop :=
  ∃ observed metadata, f.target = .file observed (some sha256) metadata ∧ nativePath observed = some path

/-- What the statuses are documented to mean, for a report that was started with the files of `w`. -/
structure Host.Truthful (host : Host) (w : Disk) (s : Remediation) : Prop where
  failed : ∀ f ∈ s.findings, f.remediationStatus = .failed → ∀ path sha256, f.Names path sha256 →
    ∀ key, fileKey path = some key → s.disk.contentAt key = w.contentAt key
  quarantined : ∀ f ∈ s.findings, f.remediationStatus = .quarantined → ∃ path sha256 id record, f.Names path sha256 ∧
    host.recordAt s.disk id = some record ∧ record.state = .quarantined ∧ record.original.sha256 = sha256 ∧
    nativePath record.original.path = some path
  agree : ∀ f ∈ s.findings, ∀ f' ∈ s.findings, ∀ path sha256, f.Names path sha256 → f'.Names path sha256 →
    f.remediationStatus = .quarantined → f'.remediationStatus ≠ .failed

/-- What a quarantine call meets when no other process touches the files. -/
def alone (draws : Draws) (faults : List (Fault Errno)) : StoreTurn := ⟨draws, faults, []⟩

variable {host : Host} {opts : QuarantineOptions} {s s' : Remediation} {f g : Finding} {d : Draws}
  {faults : List (Fault Errno)}

theorem runShared_alone {ε α : Type} (p : Prog storeSystem ε α) (faults : List (Fault Errno)) (w : Disk) :
    p.runShared ⟨faults, []⟩ w = p.run anyFails faults w := by
  have hrun : p.shared.run anyFails faults (w, []) = ((p.run anyFails faults w).1, (p.run anyFails faults w).2, []) :=
    Prog.run_amid_nil p faults w
  unfold Prog.runShared
  rw [hrun]

/-! ### One finding -/

/-- The policy allows to act on the finding, which asks for this call. -/
structure Finding.Eligible (f : Finding) (path : NativePath) (sha256 : Sha256Digest) : Prop where
  notAllowed : f.remediationStatus ≠ .allowed
  target : autoQuarantineTarget f = .ok (path, sha256)

theorem Finding.Eligible.names {path : NativePath} {sha256 : Sha256Digest} (h : f.Eligible path sha256) :
    f.Names path sha256 :=
  (autoQuarantineTarget_eq_ok.mp h.target).target

theorem Finding.Names.unique {path path' : NativePath} {sha256 sha256' : Sha256Digest} (h : f.Names path sha256)
    (h' : f.Names path' sha256') : path = path' := by
  obtain ⟨observed, metadata, htarget, hpath⟩ := h
  obtain ⟨observed', metadata', htarget', hpath'⟩ := h'
  rw [htarget] at htarget'
  obtain ⟨rfl, -, -⟩ := FindingTarget.file.inj htarget'
  exact Option.some.inj (hpath.symm.trans hpath')

/-- What the loop does with one finding, which it puts into the report as `g`. -/
inductive Host.Turned (host : Host) (opts : QuarantineOptions) (s : Remediation) (f : Finding) (d : Draws)
    (faults : List (Fault Errno)) (s' : Remediation) (g : Finding) : Prop where
  | skipped (disk : s'.disk = s.disk) (quarantined : g.remediationStatus ≠ .quarantined)
    (failed : g.remediationStatus = .failed ↔ ∃ path sha256, f.Eligible path sha256)
    (unopened : g.remediationStatus = .failed → ∀ store, s.store ≠ some (.ok store))
  | called (path : NativePath) (sha256 : Sha256Digest) (store : QuarantineStore)
    (result : Except RemediationError QuarantineRecord) (eligible : f.Eligible path sha256)
    (opened : s.store = some (.ok store))
    (records : ∀ id, id ≠ d.id → host.recordAt s'.disk id = host.recordAt s.disk id)
    (outcome : host.Outcome store (quarantineRequest opts f path sha256) d faults s.disk s'.disk result)
    (quarantined : g.remediationStatus = .quarantined ↔ ∃ r, result = .ok r)
    (failed : g.remediationStatus = .failed ↔ ∃ e, result = .error e)

theorem remediate_turned (h : (host.remediate opts s f (alone d faults)).stopped = false) : s.stopped = false ∧
    ∃ g, (host.remediate opts s f (alone d faults)).findings = s.findings ++ [g] ∧ g.target = f.target ∧
      host.Turned opts s f d faults (host.remediate opts s f (alone d faults)) g := by
  unfold Host.remediate at h ⊢
  -- the cases of `remediate` in its order: stopped, allowed, not eligible, no store, and the call
  by_cases hstopped : s.stopped = true
  · rw [if_pos hstopped, hstopped] at h
    cases h
  · refine ⟨Bool.eq_false_iff.mpr hstopped, ?_⟩
    rw [if_neg hstopped] at h ⊢
    by_cases hallowed : f.remediationStatus = .allowed
    · rw [if_pos hallowed]
      refine ⟨f, rfl, rfl, .skipped rfl (by simp [hallowed]) ?_ (by simp [hallowed])⟩
      exact iff_of_false (by simp [hallowed]) fun ⟨_, _, heligible⟩ => heligible.notAllowed hallowed
    · rw [if_neg hallowed] at h ⊢
      cases htarget : autoQuarantineTarget f with
      | error why =>
        refine ⟨{ f with remediationStatus := .notEligible, remediationDetail := some why }, rfl, rfl,
          .skipped rfl (by simp) (iff_of_false (by simp) ?_) (by simp)⟩
        rintro ⟨path, sha256, heligible⟩
        rw [heligible.target] at htarget
        cases htarget
      | ok target =>
        obtain ⟨path, sha256⟩ := target
        have heligible : f.Eligible path sha256 := ⟨hallowed, htarget⟩
        rw [htarget] at h
        dsimp only at h ⊢
        -- without an open store the finding fails, and no call is made
        have hskipped (e : String) (hunopened : ∀ store, s.store ≠ some (.ok store)) :
            host.Turned opts s f d faults (s.fail f e)
              { f with remediationStatus := .failed, remediationDetail := some e } :=
          .skipped rfl (fun h => nomatch h) (iff_of_true rfl ⟨path, sha256, heligible⟩) fun _ => hunopened
        cases hstore : s.store with
        | none =>
          exact ⟨_, rfl, rfl, hskipped "quarantine store unavailable" fun _ h => by rw [hstore] at h; cases h⟩
        | some opened =>
          cases opened with
          | error e => exact ⟨_, rfl, rfl, hskipped _ fun _ h => by rw [hstore] at h; cases h⟩
          | ok store =>
            -- a call changes the record of its own item only
            have hrecords {id : QuarantineId} (hid : id ≠ d.id) : host.recordAt
                ((host.quarantine store (quarantineRequest opts f path sha256) d).run anyFails faults s.disk).2 id =
                host.recordAt s.disk id := quarantine_records hid
            rw [hstore] at h
            dsimp only [alone] at h ⊢
            rw [runShared_alone] at h ⊢
            generalize hrun : (host.quarantine store (quarantineRequest opts f path sha256) d).run anyFails faults
              s.disk = ended at h hrecords ⊢
            obtain ⟨outcome, w'⟩ := ended
            cases outcome with
            | stopped => cases h
            | error e => exact e.elim
            | ok r =>
              obtain ⟨store', result⟩ := r
              -- the status is as the result of the call, and that is as the item was left
              have houtcome := quarantine_outcome hrun
              cases result with
              | ok record =>
                exact ⟨_, rfl, rfl, .called path sha256 store _ heligible hstore (fun _ => hrecords) houtcome
                  (iff_of_true rfl ⟨record, rfl⟩) (iff_of_false (fun h => nomatch h) fun ⟨_, h⟩ => nomatch h)⟩
              | error e =>
                exact ⟨_, rfl, rfl, .called path sha256 store _ heligible hstore (fun _ => hrecords) houtcome
                  (iff_of_false (fun h => nomatch h) fun ⟨_, h⟩ => nomatch h) (iff_of_true rfl ⟨e, rfl⟩)⟩

/-! ### The findings one after the other -/

/-- The report before the finding with a number is looked at, no other process touching the files. -/
def Host.before (host : Host) (opts : QuarantineOptions) (start : Remediation) (draws : ℕ → Draws)
    (faults : ℕ → List (Fault Errno)) (findings : List Finding) (i : ℕ) : Remediation :=
  host.remediateAll opts start ((findings.mapIdx fun i f => (f, alone (draws i) (faults i))).take i)

variable {start : Remediation} {draws : ℕ → Draws} {turns : ℕ → List (Fault Errno)} {findings : List Finding} {i j : ℕ}
  {key : FileKey}

theorem before_succ (hf : findings[i]? = some f) : host.before opts start draws turns findings (i + 1) =
    host.remediate opts (host.before opts start draws turns findings i) f (alone (draws i) (turns i)) := by
  unfold Host.before Host.remediateAll
  rw [List.take_add_one, List.getElem?_mapIdx, hf, List.foldl_append]
  rfl

theorem before_length : host.before opts start draws turns findings findings.length =
    host.remediateAll opts start (findings.mapIdx fun i f => (f, alone (draws i) (turns i))) := by
  unfold Host.before
  rw [List.take_of_length_le (by simp)]

/-- Nothing is stopped before the end, if the end is reached. -/
theorem before_going (hdone : (host.before opts start draws turns findings findings.length).stopped = false)
    (hi : i ≤ findings.length) : (host.before opts start draws turns findings i).stopped = false := by
  induction hi using Nat.decreasingInduction with
  | self => exact hdone
  | of_succ i hi ih =>
    rw [before_succ (List.getElem?_eq_getElem hi)] at ih
    exact (remediate_turned ih).1

/-- What becomes of the finding with a number. -/
structure Host.TurnedAt (host : Host) (opts : QuarantineOptions) (start : Remediation) (draws : ℕ → Draws)
    (turns : ℕ → List (Fault Errno)) (findings : List Finding) (i : ℕ) (f g : Finding) : Prop where
  found : findings[i]? = some f
  target : g.target = f.target
  appended : (host.before opts start draws turns findings (i + 1)).findings =
    (host.before opts start draws turns findings i).findings ++ [g]
  turned : host.Turned opts (host.before opts start draws turns findings i) f (draws i) (turns i)
    (host.before opts start draws turns findings (i + 1)) g

theorem exists_turnedAt (hdone : (host.before opts start draws turns findings findings.length).stopped = false)
    (hf : findings[i]? = some f) : ∃ g, host.TurnedAt opts start draws turns findings i f g := by
  have hi : i < findings.length := (List.getElem?_eq_some_iff.mp hf).1
  have hgoing := before_going hdone (Nat.succ_le_of_lt hi)
  have hsucc : host.before opts start draws turns findings (i + 1) = host.remediate opts
      (host.before opts start draws turns findings i) f (alone (draws i) (turns i)) := before_succ hf
  rw [Nat.succ_eq_add_one, hsucc] at hgoing
  obtain ⟨-, g, happended, htarget, hturned⟩ := remediate_turned hgoing
  exact ⟨g, hf, htarget, hsucc ▸ happended, hsucc ▸ hturned⟩

/-- The findings done so far are the first ones of the result. -/
theorem before_findings (hstart : start.findings = [])
    (hdone : (host.before opts start draws turns findings findings.length).stopped = false) (hi : i ≤ findings.length) :
    (host.before opts start draws turns findings i).findings.length = i ∧
      ∀ m f g, m < i → host.TurnedAt opts start draws turns findings m f g →
        (host.before opts start draws turns findings i).findings[m]? = some g := by
  induction i with
  | zero => exact ⟨by simp [Host.before, Host.remediateAll, hstart], fun m f g hm => absurd hm (Nat.not_lt_zero m)⟩
  | succ i ih =>
    obtain ⟨hlen, hget⟩ := ih (Nat.le_of_succ_le hi)
    obtain ⟨g', hturned⟩ := exists_turnedAt hdone (List.getElem?_eq_getElem (Nat.lt_of_succ_le hi))
    rw [hturned.appended]
    refine ⟨by rw [List.length_append, hlen]; rfl, fun m f g hm hat => ?_⟩
    cases Nat.lt_succ_iff_lt_or_eq.mp hm with
    | inl hlt =>
      rw [List.getElem?_append_left (by omega)]
      exact hget m f g hlt hat
    | inr heq =>
      have hsame : g = g' := by
        have happended := hat.appended
        rw [heq, hturned.appended] at happended
        exact (List.singleton_inj.mp (List.append_cancel_left happended)).symm
      rw [hsame, heq, List.getElem?_append_right (by omega), hlen, Nat.sub_self]
      rfl

/-- Every finding of the result is what became of one of the report. -/
theorem mem_result (hstart : start.findings = [])
    (hdone : (host.before opts start draws turns findings findings.length).stopped = false)
    (hg : g ∈ (host.before opts start draws turns findings findings.length).findings) :
    ∃ i f, host.TurnedAt opts start draws turns findings i f g := by
  obtain ⟨hlen, hget⟩ := before_findings hstart hdone (le_refl _)
  obtain ⟨i, hi, heq⟩ := List.mem_iff_getElem.mp hg
  have hfound : findings[i]? = some findings[i] := List.getElem?_eq_getElem (hlen ▸ hi)
  obtain ⟨g', hat⟩ := exists_turnedAt hdone hfound
  have hsame := hget i _ g' (hlen ▸ hi) hat
  rw [List.getElem?_eq_getElem hi, heq] at hsame
  exact ⟨i, _, Option.some.inj hsame ▸ hat⟩

theorem result_mem (hstart : start.findings = [])
    (hdone : (host.before opts start draws turns findings findings.length).stopped = false)
    (hat : host.TurnedAt opts start draws turns findings i f g) :
    g ∈ (host.before opts start draws turns findings findings.length).findings :=
  List.mem_of_getElem? ((before_findings hstart hdone (le_refl _)).2 i f g
    (List.getElem?_eq_some_iff.mp hat.found).1 hat)

/-! ### The files -/

/-- The call for the finding with a number takes the original. -/
structure Host.TakesAt (host : Host) (opts : QuarantineOptions) (start : Remediation) (draws : ℕ → Draws)
    (turns : ℕ → List (Fault Errno)) (findings : List Finding) (i : ℕ) (f : Finding) (path : NativePath)
    (sha256 : Sha256Digest) (store : QuarantineStore) (record : QuarantineRecord) : Prop where
  found : findings[i]? = some f
  eligible : f.Eligible path sha256
  opened : (host.before opts start draws turns findings i).store = some (.ok store)
  takes : ∃ parent w, (host.takeOriginal (quarantineRequest opts f path sha256) (draws i)).run anyFails (turns i)
    (host.before opts start draws turns findings i).disk = (.ok (parent, record), w)

/-- Some call takes the file at `key`. -/
def Host.TakesKey (host : Host) (opts : QuarantineOptions) (start : Remediation) (draws : ℕ → Draws)
    (turns : ℕ → List (Fault Errno)) (findings : List Finding) (key : FileKey) (i : ℕ) : Prop :=
  ∃ f path sha256 store record, host.TakesAt opts start draws turns findings i f path sha256 store record ∧
    fileKey path = some key

theorem Host.Took.contentAt_self {req : QuarantineRequest} {w w' : Disk} {record : QuarantineRecord}
    (h : host.Took req d w w' record) (hkey : fileKey req.path = some key) :
    w.contentAt key ≠ none ∧ w'.contentAt key = none := by
  obtain ⟨key', hkey', hthere, hgone⟩ := h.original
  obtain rfl := Option.some.inj (hkey.symm.trans hkey')
  refine ⟨fun hnone => hthere (Disk.contentAt_eq_none.mp hnone), Disk.contentAt_eq_none.mpr ?_⟩
  rw [hgone]
  exact removeFile_gone w key

theorem Host.Took.contentAt_other {req : QuarantineRequest} {w w' : Disk} {record : QuarantineRecord}
    (h : host.Took req d w w' record) (hkey : fileKey req.path ≠ some key) : w'.contentAt key = w.contentAt key := by
  obtain ⟨key', hkey', -, hgone⟩ := h.original
  have hne : key ≠ key' := by
    intro heq
    exact hkey (heq ▸ hkey')
  have hsame : w'.contentAt key = (w.removeFile key').2.contentAt key := by rw [Disk.contentAt, Disk.contentAt, hgone]
  rw [hsame, removeFile_contentAt hne]

theorem contentAt_congr {w w' : Disk} (h : w'.outside = w.outside) : w'.contentAt key = w.contentAt key := by
  rw [Disk.contentAt, Disk.contentAt, h]

/-- A call is asked for in one way only. -/
theorem Host.TakesAt.unique {path path' : NativePath} {sha256 sha256' : Sha256Digest} {store : QuarantineStore}
    {record : QuarantineRecord} (h : host.TakesAt opts start draws turns findings i f path sha256 store record)
    (hfound : findings[i]? = some g) (heligible : g.Eligible path' sha256') : g = f ∧ path' = path ∧ sha256' = sha256 := by
  obtain rfl := Option.some.inj (hfound.symm.trans h.found)
  obtain ⟨rfl, rfl⟩ := Prod.mk.inj (Except.ok.inj (heligible.target.symm.trans h.eligible.target))
  exact ⟨rfl, rfl, rfl⟩

/-- One finding leaves a file alone, or takes it. -/
theorem Host.TurnedAt.content (h : host.TurnedAt opts start draws turns findings i f g) (key : FileKey) :
    (host.before opts start draws turns findings (i + 1)).disk.contentAt key =
        (host.before opts start draws turns findings i).disk.contentAt key ∧
      ¬ host.TakesKey opts start draws turns findings key i ∨
    ((host.before opts start draws turns findings i).disk.contentAt key ≠ none ∧
      (host.before opts start draws turns findings (i + 1)).disk.contentAt key = none) ∧
      host.TakesKey opts start draws turns findings key i := by
  cases h.turned with
  | skipped disk quarantined failed unopened =>
    refine .inl ⟨by rw [disk], ?_⟩
    rintro ⟨f', path, sha256, store, record, htakes, -⟩
    obtain rfl := Option.some.inj (h.found.symm.trans htakes.found)
    exact unopened (failed.mpr ⟨path, sha256, htakes.eligible⟩) store htakes.opened
  | called path sha256 store result eligible opened records outcome =>
    cases outcome with
    | left run outside error =>
      refine .inl ⟨contentAt_congr outside, ?_⟩
      rintro ⟨f', path', sha256', store', record, htakes, -⟩
      obtain ⟨rfl, rfl, rfl⟩ := htakes.unique h.found eligible
      obtain ⟨parent, w, hrun⟩ := htakes.takes
      exact run _ _ hrun
    -- a file was taken; it is the one of this finding or another
    | took parent record w run taken outside ok stored =>
      by_cases hkey : fileKey path = some key
      · refine .inr ⟨?_, f, path, sha256, store, record, ⟨h.found, eligible, opened, parent, w, run⟩, hkey⟩
        rw [contentAt_congr outside]
        exact taken.contentAt_self hkey
      · refine .inl ⟨(contentAt_congr outside).trans (taken.contentAt_other hkey), ?_⟩
        rintro ⟨f', path', sha256', store', record', htakes, hkey'⟩
        obtain ⟨-, rfl, -⟩ := htakes.unique h.found eligible
        exact hkey hkey'

/-- A file that no call takes in between stays as it is. -/
theorem before_content (key : FileKey)
    (hdone : (host.before opts start draws turns findings findings.length).stopped = false)
    (hij : i ≤ j) (hj : j ≤ findings.length) :
    (host.before opts start draws turns findings j).disk.contentAt key =
        (host.before opts start draws turns findings i).disk.contentAt key ∨
      (host.before opts start draws turns findings j).disk.contentAt key = none ∧
        ∃ m, i ≤ m ∧ m < j ∧ host.TakesKey opts start draws turns findings key m := by
  induction j, hij using Nat.le_induction with
  | base => exact .inl rfl
  | succ j hij ih =>
    obtain ⟨g, hat⟩ := exists_turnedAt hdone (List.getElem?_eq_getElem (Nat.lt_of_succ_le hj))
    obtain ⟨hsame, -⟩ | ⟨⟨-, hnone⟩, htakes⟩ := hat.content key
    · rw [hsame]
      refine (ih (Nat.le_of_succ_le hj)).imp_right fun ⟨hnone, m, him, hmj, htakes⟩ => ?_
      exact ⟨hnone, m, him, Nat.lt_succ_of_lt hmj, htakes⟩
    · exact .inr ⟨hnone, j, hij, Nat.lt_succ_self j, htakes⟩

theorem Host.TakesKey.content (hdone : (host.before opts start draws turns findings findings.length).stopped = false)
    (h : host.TakesKey opts start draws turns findings key i) :
    (host.before opts start draws turns findings i).disk.contentAt key ≠ none ∧
      (host.before opts start draws turns findings (i + 1)).disk.contentAt key = none := by
  obtain ⟨f, path, sha256, store, record, htakes, hkey⟩ := h
  obtain ⟨g, hat⟩ := exists_turnedAt hdone htakes.found
  obtain ⟨-, hnot⟩ | ⟨hcontent, -⟩ := hat.content key
  · exact absurd ⟨f, path, sha256, store, record, htakes, hkey⟩ hnot
  · exact hcontent

/-- A file that was taken is gone, and was there at the start. -/
theorem Host.TakesKey.gone (hdone : (host.before opts start draws turns findings findings.length).stopped = false)
    (h : host.TakesKey opts start draws turns findings key i) (hij : i < j) (hj : j ≤ findings.length) :
    (host.before opts start draws turns findings j).disk.contentAt key = none ∧ start.disk.contentAt key ≠ none := by
  obtain ⟨hthere, hgone⟩ := h.content hdone
  constructor
  · obtain hsame | ⟨hnone, -⟩ := before_content key hdone (Nat.succ_le_of_lt hij) hj
    · exact hsame.trans hgone
    · exact hnone
  · obtain hsame | ⟨hnone, -⟩ := before_content key hdone (Nat.zero_le i) (by omega)
    · rw [hsame] at hthere
      exact hthere
    · exact absurd hnone hthere

/-- A file is taken once. -/
theorem Host.TakesKey.once (hdone : (host.before opts start draws turns findings findings.length).stopped = false)
    (h : host.TakesKey opts start draws turns findings key i) (h' : host.TakesKey opts start draws turns findings key j)
    (hi : i < findings.length) (hj : j < findings.length) : i = j := by
  obtain hlt | heq | hlt := Nat.lt_trichotomy i j
  · exact absurd (h.gone hdone hlt (Nat.le_of_lt hj)).1 (h'.content hdone).1
  · exact heq
  · exact absurd (h'.gone hdone hlt (Nat.le_of_lt hi)).1 (h.content hdone).1

/-! ### The records -/

/-- A record stays while calls draw other identifiers. -/
theorem before_record {id : QuarantineId}
    (hdone : (host.before opts start draws turns findings findings.length).stopped = false)
    (hij : i ≤ j) (hj : j ≤ findings.length) (hother : ∀ m, i ≤ m → m < j → id ≠ (draws m).id) :
    host.recordAt (host.before opts start draws turns findings j).disk id =
      host.recordAt (host.before opts start draws turns findings i).disk id := by
  induction j, hij using Nat.le_induction with
  | base => rfl
  | succ j hij ih =>
    obtain ⟨g, hat⟩ := exists_turnedAt hdone (List.getElem?_eq_getElem (Nat.lt_of_succ_le hj))
    rw [← ih (Nat.le_of_succ_le hj) fun m him hmj => hother m him (Nat.lt_succ_of_lt hmj)]
    cases hat.turned with
    | skipped disk => rw [disk]
    | called path sha256 store result eligible opened records => exact records id (hother j hij (Nat.lt_succ_self j))

/-! ### The statuses -/

theorem startRemediation_start {now : Now} {m : Meanwhile} {report : ScanReport} {w : Disk} (hm : m.others = []) :
    (host.startRemediation now m report w).findings = [] ∧
      (host.startRemediation now m report w).disk.outside = w.outside := by
  unfold Host.startRemediation
  split
  · have hrun : (host.openStore now).runShared m w = (host.openStore now).run anyFails m.faults w := by
      obtain ⟨faults, others⟩ := m
      obtain rfl : others = [] := hm
      exact runShared_alone _ faults w
    have houtside : ((host.openStore now).run anyFails m.faults w).2.outside = w.outside :=
      (openStore_leaves now).run_keeps (fun _ hc => hc.keeps w.outside) rfl
    unfold Host.openForReport
    rw [hrun]
    generalize (host.openStore now).run anyFails m.faults w = ended at houtside
    obtain ⟨outcome, disk⟩ := ended
    cases outcome <;> exact ⟨rfl, houtside⟩
  · exact ⟨rfl, rfl⟩

theorem Host.TakesAt.same {path path' : NativePath} {sha256 sha256' : Sha256Digest} {store store' : QuarantineStore}
    {record record' : QuarantineRecord} (h : host.TakesAt opts start draws turns findings i f path sha256 store record)
    (h' : host.TakesAt opts start draws turns findings i g path' sha256' store' record') :
    path' = path ∧ sha256' = sha256 ∧ store' = store ∧ record' = record := by
  obtain ⟨rfl, rfl, rfl⟩ := h.unique h'.found h'.eligible
  obtain ⟨parent, w, hrun⟩ := h.takes
  obtain ⟨parent', w', hrun'⟩ := h'.takes
  have hopened := h.opened
  rw [h'.opened] at hopened
  rw [hrun] at hrun'
  exact ⟨rfl, rfl, Except.ok.inj (Option.some.inj hopened), by simp_all⟩

/-- What the status of a finding says of its call. -/
structure Host.StatusAt (host : Host) (opts : QuarantineOptions) (start : Remediation) (draws : ℕ → Draws)
    (turns : ℕ → List (Fault Errno)) (findings : List Finding) (i : ℕ) (f g : Finding) : Prop where
  quarantined : g.remediationStatus = .quarantined → ∃ path sha256 store record,
    host.TakesAt opts start draws turns findings i f path sha256 store record ∧
      host.Undisturbed store (quarantineRequest opts f path sha256) (draws i) (turns i)
        (host.before opts start draws turns findings i).disk record ∧
      host.recordAt (host.before opts start draws turns findings (i + 1)).disk (draws i).id =
        some (takenRecord (quarantineRequest opts f path sha256) (draws i) record) ∧
      record.original.sha256 = sha256 ∧ nativePath record.original.path = some path
  failed : g.remediationStatus = .failed → ∃ path sha256, f.Eligible path sha256 ∧ ∀ store record,
    host.TakesAt opts start draws turns findings i f path sha256 store record →
      ¬ host.Undisturbed store (quarantineRequest opts f path sha256) (draws i) (turns i)
        (host.before opts start draws turns findings i).disk record
  either : ∀ path sha256, f.Eligible path sha256 → g.remediationStatus = .quarantined ∨ g.remediationStatus = .failed

theorem Host.TurnedAt.status (h : host.TurnedAt opts start draws turns findings i f g) :
    host.StatusAt opts start draws turns findings i f g := by
  cases h.turned with
  | skipped disk quarantined failed unopened =>
    refine ⟨fun hq => absurd hq quarantined, fun hf => ?_, fun path sha256 heligible => ?_⟩
    · obtain ⟨path, sha256, heligible⟩ := failed.mp hf
      exact ⟨path, sha256, heligible, fun store record htakes => absurd htakes.opened (unopened hf store)⟩
    · exact .inr (failed.mpr ⟨path, sha256, heligible⟩)
  | called path sha256 store result eligible opened records outcome quarantined failed =>
    have heither : g.remediationStatus = .quarantined ∨ g.remediationStatus = .failed := by
      cases result with
      | ok r => exact .inl (quarantined.mpr ⟨r, rfl⟩)
      | error e => exact .inr (failed.mpr ⟨e, rfl⟩)
    -- the original was taken, or it was left where it is
    cases outcome with
    | took parent record w run taken outside ok stored =>
      have htakes : host.TakesAt opts start draws turns findings i f path sha256 store record :=
        ⟨h.found, eligible, opened, parent, w, run⟩
      refine ⟨fun hq => ?_, fun hf => ⟨path, sha256, eligible, fun store' record' htakes' hundisturbed => ?_⟩,
        fun _ _ _ => heither⟩
      · obtain ⟨r, hr⟩ := quarantined.mp hq
        obtain ⟨hrecord, hstored⟩ := stored r hr
        exact ⟨path, sha256, store, record, htakes, ok.mp ⟨r, hr⟩, hrecord ▸ hstored, taken.expected sha256 rfl,
          taken.path⟩
      · obtain ⟨-, -, rfl, rfl⟩ := htakes.same htakes'
        obtain ⟨e, he⟩ := failed.mp hf
        obtain ⟨r, hr⟩ := ok.mpr hundisturbed
        rw [hr] at he
        cases he
    | left run outside error =>
      obtain ⟨e, he⟩ := error
      refine ⟨fun hq => ?_, fun _ => ⟨path, sha256, eligible, fun store' record' htakes => ?_⟩, fun _ _ _ => heither⟩
      · obtain ⟨r, hr⟩ := quarantined.mp hq
        rw [hr] at he
        cases he
      · obtain ⟨parent, w, hrun⟩ := htakes.takes
        exact absurd hrun (run _ _)

theorem Host.TakesAt.exists_key {path : NativePath} {sha256 : Sha256Digest} {store : QuarantineStore}
    {record : QuarantineRecord} (h : host.TakesAt opts start draws turns findings i f path sha256 store record) :
    ∃ key, fileKey path = some key := by
  obtain ⟨parent, w, hrun⟩ := h.takes
  have hmeets : (host.takeOriginal (quarantineRequest opts f path sha256) (draws i)).Returns anyFails
      (fun r w' => host.Took (quarantineRequest opts f path sha256) (draws i)
        (host.before opts start draws turns findings i).disk w' r.2)
      (host.before opts start draws turns findings i).disk :=
    takeOriginal_meets.mono (fun _ _ => trivial) (fun _ _ _ => trivial) fun _ _ h => h
  obtain ⟨key, hkey, -⟩ := (hmeets.of_run hrun).original
  exact ⟨key, hkey⟩

theorem Host.TurnedAt.names {path : NativePath} {sha256 : Sha256Digest}
    (h : host.TurnedAt opts start draws turns findings i f g) : g.Names path sha256 ↔ f.Names path sha256 := by
  rw [Finding.Names, Finding.Names, h.target]

/-- The statuses of a report that is done are truthful if and only if, for every call that takes its file, nothing
happens to what is left of it to do, and no other finding that the policy allows leads to the same file. -/
theorem remediation_truthful_iff (host : Host) (opts : QuarantineOptions) (now : Now) (opening : List (Fault Errno))
    (draws : ℕ → Draws) (turns : ℕ → List (Fault Errno)) (report : ScanReport) (w : Disk)
    (hids : ∀ i j, i < j → j < report.findings.length → (draws i).id ≠ (draws j).id)
    (hdone : (host.quarantineReport opts now ⟨opening, []⟩ (fun i => alone (draws i) (turns i)) report w).stopped =
      false) :
    host.Truthful w (host.quarantineReport opts now ⟨opening, []⟩ (fun i => alone (draws i) (turns i)) report w) ↔
      ∀ i f path sha256 store record, host.TakesAt opts (host.startRemediation now ⟨opening, []⟩ report w) draws turns
          report.findings i f path sha256 store record →
        host.Undisturbed store (quarantineRequest opts f path sha256) (draws i) (turns i)
            (host.before opts (host.startRemediation now ⟨opening, []⟩ report w) draws turns report.findings i).disk
            record ∧
          ∀ j f' path' sha256', report.findings[j]? = some f' → j ≠ i → f'.Eligible path' sha256' →
            fileKey path' ≠ fileKey path := by
  obtain ⟨hstart, houtside⟩ : (host.startRemediation now ⟨opening, []⟩ report w).findings = [] ∧
      (host.startRemediation now ⟨opening, []⟩ report w).disk.outside = w.outside := startRemediation_start rfl
  unfold Host.quarantineReport at hdone ⊢
  rw [← before_length] at hdone ⊢
  generalize host.startRemediation now ⟨opening, []⟩ report w = start at *
  generalize report.findings = findings at *
  have hcontent (key : FileKey) : start.disk.contentAt key = w.contentAt key := contentAt_congr houtside
  constructor
  · intro htruthful i f path sha256 store record htakes
    obtain ⟨key, hkey⟩ := htakes.exists_key
    have htakesKey : host.TakesKey opts start draws turns findings key i :=
      ⟨f, path, sha256, store, record, htakes, hkey⟩
    have hlen (i : ℕ) (f : Finding) (h : findings[i]? = some f) : i < findings.length :=
      (List.getElem?_eq_some_iff.mp h).1
    obtain ⟨hgone, hthere⟩ := htakesKey.gone hdone (hlen i f htakes.found) (le_refl _)
    -- a finding that leads to the file cannot have failed
    have hnotFailed (j : ℕ) (f' g' : Finding) (path' : NativePath) (sha' : Sha256Digest)
        (hat : host.TurnedAt opts start draws turns findings j f' g') (heligible : f'.Eligible path' sha')
        (hkey' : fileKey path' = some key) : g'.remediationStatus = .quarantined := by
      refine (hat.status.either path' sha' heligible).resolve_right fun hfailed => ?_
      have hsame := htruthful.failed g' (result_mem hstart hdone hat) hfailed path' sha' (hat.names.mpr heligible.names)
        key hkey'
      rw [hgone, ← hcontent] at hsame
      exact hthere hsame.symm
    obtain ⟨g, hat⟩ := exists_turnedAt hdone htakes.found
    obtain ⟨path', sha', store', record', htakes', hundisturbed, -⟩ :=
      hat.status.quarantined (hnotFailed i f g path sha256 hat htakes.eligible hkey)
    obtain ⟨rfl, rfl, rfl, rfl⟩ := htakes.same htakes'
    refine ⟨hundisturbed, fun j f' path' sha' hfound hne heligible hsame => ?_⟩
    obtain ⟨g', hat'⟩ := exists_turnedAt hdone hfound
    obtain ⟨path'', sha'', store'', record'', htakes'', -⟩ :=
      hat'.status.quarantined (hnotFailed j f' g' path' sha' hat' heligible (hsame.trans hkey))
    obtain ⟨-, rfl, -⟩ := htakes''.unique hfound heligible
    have htakesKey' : host.TakesKey opts start draws turns findings key j :=
      ⟨f', path', sha'', store'', record'', htakes'', hsame.trans hkey⟩
    exact hne (htakesKey'.once hdone htakesKey (hlen j f' hfound) (hlen i f htakes.found))
  · intro hclean
    refine ⟨fun g hg hfailed path sha256 hnames key hkey => ?_, fun g hg hquarantined => ?_,
      fun g hg g' hg' path sha256 hnames hnames' hquarantined hfailed => ?_⟩
    · obtain ⟨i, f, hat⟩ := mem_result hstart hdone hg
      obtain ⟨path', sha', heligible, hdisturbed⟩ := hat.status.failed hfailed
      obtain rfl := heligible.names.unique (hat.names.mp hnames)
      rw [← hcontent]
      refine (before_content key hdone (Nat.zero_le _) (le_refl _)).resolve_right ?_
      rintro ⟨-, m, -, -, f', path'', sha'', store, record, htakes, hkey'⟩
      obtain ⟨hundisturbed, hother⟩ := hclean m f' path'' sha'' store record htakes
      by_cases him : i = m
      · obtain rfl := him
        obtain ⟨rfl, rfl, rfl⟩ := htakes.unique hat.found heligible
        exact hdisturbed store record htakes hundisturbed
      · exact hother i f path' sha' hat.found him heligible (hkey.trans hkey'.symm)
    · obtain ⟨i, f, hat⟩ := mem_result hstart hdone hg
      obtain ⟨path, sha256, store, record, htakes, -, hrecord, hsha, hpath⟩ := hat.status.quarantined hquarantined
      have hlen : i < findings.length := (List.getElem?_eq_some_iff.mp hat.found).1
      refine ⟨path, sha256, (draws i).id, takenRecord (quarantineRequest opts f path sha256) (draws i) record,
        hat.names.mpr htakes.eligible.names, ?_, rfl, hsha, hpath⟩
      rw [before_record hdone (Nat.succ_le_of_lt hlen) (le_refl _) fun m him hm => hids i m him hm]
      exact hrecord
    · obtain ⟨i, f, hat⟩ := mem_result hstart hdone hg
      obtain ⟨j, f', hat'⟩ := mem_result hstart hdone hg'
      obtain ⟨path₁, sha₁, store, record, htakes, -⟩ := hat.status.quarantined hquarantined
      obtain ⟨path₂, sha₂, heligible, hdisturbed⟩ := hat'.status.failed hfailed
      obtain rfl := htakes.eligible.names.unique (hat.names.mp hnames)
      obtain rfl := heligible.names.unique (hat'.names.mp hnames')
      obtain ⟨hundisturbed, hother⟩ := hclean i f _ sha₁ store record htakes
      by_cases hij : j = i
      · obtain rfl := hij
        obtain ⟨rfl, -, rfl⟩ := htakes.unique hat'.found heligible
        exact hdisturbed store record htakes hundisturbed
      · exact hother j f' _ sha₂ hat'.found hij heligible rfl

/-! ### Two findings for one file -/

/-- A match of the same file in another database. -/
def sampleDuplicate : Finding := { sampleMalware with id := 8, name := "Other.Malware" }

/-- The draws of the two calls. -/
def duplicateDraws (i : ℕ) : Draws :=
  if i = 0 then sampleDraws
  else { sampleDraws with id := ⟨"fedcba9876543210fedcba9876543210", by decide⟩ }

def missingEntry : AuditEntry where
  seq := 2
  time := epoch
  actorUid := 0
  actorSid := none
  onBehalfOf := none
  action := "quarantine"
  item := none
  path := some ⟨"/home/user/sample.bin", none⟩
  sha256 := some sampleSha256
  outcome := "error"
  detail := some "open /home/user/sample.bin: No such file or directory (os error 2)"
  prev := "21317dd7ac43776504835cddff69cf562d7330aea69c476686d992fb2e85b0c8"

def missingLine : Bytes :=
  ("\x7b\"seq\":2,\"time\":\"1970-01-01T00:00:00Z\",\"actor_uid\":0,\"action\":\"quarantine\"," ++
  "\"path\":\x7b\"text\":\"/home/user/sample.bin\"\x7d," ++
  "\"sha256\":\"9b8db510ef42b8ed54a3712636fda55a4f8cfcd5493e20b74ab00cd4f3979f2d\"," ++
  "\"outcome\":\"error\",\"detail\":\"open /home/user/sample.bin: No such file or directory (os error 2)\"," ++
  "\"prev\":\"21317dd7ac43776504835cddff69cf562d7330aea69c476686d992fb2e85b0c8\"\x7d").toUTF8.data.toList

def missingDigest : Sha256Digest :=
  ⟨[164, 190, 230, 97, 102, 83, 174, 34, 194, 35, 58, 43, 187, 201, 216, 52, 115, 111,
    114, 48, 173, 200, 36, 252, 91, 208, 155, 66, 200, 14, 238, 232], rfl⟩

def duplicateHost : Host :=
  { malwareHost with
    sha256 := fun data => if data = missingLine then missingDigest else sampleDigests data
    entries := EntryCodec.ofTable [(sampleEntry, sampleLine), (missingEntry, missingLine)] (by decide)
      (by decide +kernel) }

def duplicateFindings : List Finding := [sampleMalware, sampleDuplicate]

theorem remediation_truthful_iff_sample :
    duplicateHost.Truthful sampleState.disk (duplicateHost.quarantineReport sampleOptions sampleNow ⟨[], []⟩
        (fun i => alone (duplicateDraws i) ((fun _ => []) i)) (sampleReport duplicateFindings) sampleState.disk) ↔
      ∀ i f path sha256 store record, duplicateHost.TakesAt sampleOptions (duplicateHost.startRemediation sampleNow
          ⟨[], []⟩ (sampleReport duplicateFindings) sampleState.disk) duplicateDraws (fun _ => [])
          (sampleReport duplicateFindings).findings i f path sha256 store record →
        duplicateHost.Undisturbed store (quarantineRequest sampleOptions f path sha256) (duplicateDraws i) []
            (duplicateHost.before sampleOptions (duplicateHost.startRemediation sampleNow ⟨[], []⟩
              (sampleReport duplicateFindings) sampleState.disk) duplicateDraws (fun _ => [])
              (sampleReport duplicateFindings).findings i).disk record ∧
          ∀ j f' path' sha256', (sampleReport duplicateFindings).findings[j]? = some f' → j ≠ i →
            f'.Eligible path' sha256' → fileKey path' ≠ fileKey path := by
  have hids (i j : ℕ) (hij : i < j) (hj : j < (sampleReport duplicateFindings).findings.length) :
      (duplicateDraws i).id ≠ (duplicateDraws j).id := by
    have hlength : (sampleReport duplicateFindings).findings.length = 2 := rfl
    obtain rfl : i = 0 := by omega
    obtain rfl : j = 1 := by omega
    decide
  exact remediation_truthful_iff duplicateHost sampleOptions sampleNow [] duplicateDraws (fun _ => [])
    (sampleReport duplicateFindings) sampleState.disk hids (by decide +kernel)

/-- Nothing fails: the file is moved for the first finding, and the second one says that it was left in place. -/
theorem duplicate_marked_failed : ¬ duplicateHost.Truthful sampleState.disk
    (duplicateHost.quarantineReport sampleOptions sampleNow ⟨[], []⟩ (fun i => alone (duplicateDraws i) [])
      (sampleReport [sampleMalware, sampleDuplicate]) sampleState.disk) := by
  intro htruthful
  have hstatus : ((duplicateHost.quarantineReport sampleOptions sampleNow ⟨[], []⟩
      (fun i => alone (duplicateDraws i) []) (sampleReport [sampleMalware, sampleDuplicate])
      sampleState.disk).findings.map fun f => (f.remediationStatus, f.target)) =
      [(.quarantined, sampleMalware.target), (.failed, sampleMalware.target)] := by decide +kernel
  obtain ⟨g, hg, hgeq⟩ := List.mem_map.mp (hstatus ▸ List.mem_cons_self)
  obtain ⟨g', hg', hgeq'⟩ := List.mem_map.mp (hstatus ▸ List.mem_cons_of_mem _ List.mem_cons_self)
  obtain ⟨hquarantined, htarget⟩ := Prod.mk.inj hgeq
  obtain ⟨hfailed, htarget'⟩ := Prod.mk.inj hgeq'
  have hnames {f : Finding} (h : f.target = sampleMalware.target) : f.Names samplePath sampleSha256 :=
    ⟨⟨"/home/user/sample.bin", none⟩, none, h, rfl⟩
  exact htruthful.agree g hg g' hg' samplePath sampleSha256 (hnames htarget) (hnames htarget') hquarantined hfailed

end AbyssalWarden

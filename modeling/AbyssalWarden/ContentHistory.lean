import AbyssalWarden.LoadBundles
import AbyssalWarden.StateRecords
import AbyssalWarden.UpdateSteps

/-! Histories of the content state: bundles and timestamps checked and recorded, saves that may fail,
and the state dropped and opened again, in any order. -/
namespace AbyssalWarden

/-- One use of the state. Records follow an accepting check. -/
inductive StateOp where
  | record (b : VerifiedBundle) (floor : Option ℕ) (now : OffsetDateTime)
  | recordTimestamp (ts : Timestamp) (now : OffsetDateTime)
  | save (fault : Option (SaveStep × IoKind))
  | reopen (fault : Option IoKind)

/-- The state in memory, while it is open, and the file it comes from. -/
structure Session where
  memory : Option ContentState
  file : Option Bytes

variable (codec : StateCodec) (path : String)

def Session.step (s : Session) : StateOp → Session
  | .record b floor now =>
    match s.memory with
    | none => s
    | some m =>
      match m.check b floor with
      | .ok () => { s with memory := some (m.record b now) }
      | .error _ => s
  | .recordTimestamp ts now =>
    match s.memory with
    | none => s
    | some m =>
      match m.checkTimestamp ts with
      | .ok () => { s with memory := some (m.recordTimestamp ts now) }
      | .error _ => s
  | .save fault =>
    match s.memory with
    | none => s
    | some m => { s with file := (m.save codec fault s.file).2 }
  | .reopen fault =>
    { s with memory := (ContentState.openState codec path fault s.file).toOption }

def Session.run (s : Session) (ops : List StateOp) : Session :=
  ops.foldl (Session.step codec path) s

/-- The file holds what the memory holds. -/
def Session.Saved (s : Session) : Prop :=
  ∀ m, s.memory = some m → contents codec s.file = some m.data

/-- Every drop in the run finds the state saved. -/
def KeepsSaved : Session → List StateOp → Prop
  | _, [] => True
  | s, op :: ops => ((∃ fault, op = .reopen fault) → s.Saved codec) ∧
      KeepsSaved (s.step codec path op) ops

/-- What is on record: in memory while the state is open, in the file otherwise. -/
def Session.level (s : Session) : Option StateFile :=
  match s.memory with
  | some m => some m.data
  | none => contents codec s.file

/-- The memory is ahead of the file. -/
def Session.Ahead (s : Session) : Prop :=
  ∀ m d, s.memory = some m → contents codec s.file = some d → d.Extends m.data

variable {codec path} {s : Session} {ops : List StateOp}

/-! ### One operation -/

/-- In memory a state only advances. -/
theorem step_memory {op : StateOp} {m : ContentState} (hm : s.memory = some m)
    (hop : ¬ ∃ fault, op = .reopen fault) :
    ∃ m', (s.step codec path op).memory = some m' ∧ m.data.Extends m'.data := by
  cases op with
  | record b floor now =>
    simp only [Session.step, hm]
    cases m.check b floor with
    | error e => exact ⟨m, hm, StateFile.Extends.refl _⟩
    | ok u => exact ⟨_, rfl, record_extends⟩
  | recordTimestamp ts now =>
    simp only [Session.step, hm]
    cases m.checkTimestamp ts with
    | error e => exact ⟨m, hm, StateFile.Extends.refl _⟩
    | ok u => exact ⟨_, rfl, recordTimestamp_extends⟩
  | save fault =>
    simp only [Session.step, hm]
    exact ⟨m, rfl, StateFile.Extends.refl _⟩
  | reopen fault => exact absurd ⟨fault, rfl⟩ hop

/-- Only a save writes the file, and it writes the state or nothing. -/
theorem step_file (op : StateOp) :
    (s.step codec path op).file = s.file ∨
      ∃ m, s.memory = some m ∧ (s.step codec path op).memory = some m ∧
        contents codec (s.step codec path op).file = some m.data := by
  cases op with
  | record b floor now =>
    left
    simp only [Session.step]
    split
    · rfl
    · split <;> rfl
  | recordTimestamp ts now =>
    left
    simp only [Session.step]
    split
    · rfl
    · split <;> rfl
  | save fault =>
    simp only [Session.step]
    cases hm : s.memory with
    | none => exact .inl rfl
    -- the memory is written, or the file stays as it is
    | some m =>
      rcases save_cases codec fault m s.file with ⟨hsame, _⟩ | hsaved
      · exact .inl hsame
      · exact .inr ⟨m, rfl, by simp, hsaved⟩
  | reopen fault => exact .inl rfl

theorem reopen_level {fault : Option IoKind} :
    (s.step codec path (.reopen fault)).level codec = contents codec s.file := by
  simp only [Session.step, Session.level]
  cases hopen : ContentState.openState codec path fault s.file with
  | error e => rfl
  | ok m => exact (openState_contents hopen).symm

theorem step_of_memory_none {op : StateOp} (hm : s.memory = none)
    (hop : ¬ ∃ fault, op = .reopen fault) : s.step codec path op = s := by
  cases op with
  | record b floor now => simp [Session.step, hm]
  | recordTimestamp ts now => simp [Session.step, hm]
  | save fault => simp [Session.step, hm]
  | reopen fault => exact absurd ⟨fault, rfl⟩ hop

theorem step_ahead (h : s.Ahead codec) (op : StateOp) : (s.step codec path op).Ahead codec := by
  intro m' d hm' hd
  -- reopening reads the file, so memory and file agree
  by_cases hop : ∃ fault, op = .reopen fault
  · obtain ⟨fault, rfl⟩ := hop
    simp only [Session.step] at hm' hd
    cases hopen : ContentState.openState codec path fault s.file with
    | error e => simp [hopen, Except.toOption] at hm'
    | ok m =>
      simp only [hopen, Except.toOption, Option.some.injEq] at hm'
      have hsame := (openState_contents hopen).symm.trans hd
      rw [← hm', Option.some.inj hsame]
      exact StateFile.Extends.refl d
  · cases hm : s.memory with
    | none =>
      rw [step_of_memory_none hm hop] at hm'
      rw [hm] at hm'
      cases hm'
    | some m =>
      obtain ⟨m₁, hm₁, hext⟩ := @step_memory codec path s op m hm hop
      rw [hm₁] at hm'
      cases hm'
      -- the file is as before, or it is the memory just saved
      rcases step_file op with hsame | ⟨m₂, _, hm₂, hsaved⟩
      · rw [hsame] at hd
        exact (h m d hm hd).trans hext
      · rw [hm₁] at hm₂
        cases hm₂
        rw [hsaved] at hd
        rw [← Option.some.inj hd]
        exact StateFile.Extends.refl _

theorem step_contents (h : s.Ahead codec) (op : StateOp) {d : StateFile}
    (hd : contents codec s.file = some d) :
    ∃ d', contents codec (s.step codec path op).file = some d' ∧ d.Extends d' := by
  rcases step_file op with hsame | ⟨m, hm, _, hsaved⟩
  · exact ⟨d, by rw [hsame, hd], StateFile.Extends.refl d⟩
  · exact ⟨m.data, hsaved, h m d hm hd⟩

theorem step_level {op : StateOp} (hop : (∃ fault, op = .reopen fault) → s.Saved codec)
    {d : StateFile} (hd : s.level codec = some d) :
    ∃ d', (s.step codec path op).level codec = some d' ∧ d.Extends d' := by
  by_cases hre : ∃ fault, op = .reopen fault
  · have hsaved := hop hre
    obtain ⟨fault, rfl⟩ := hre
    refine ⟨d, ?_, StateFile.Extends.refl d⟩
    rw [reopen_level]
    cases hm : s.memory with
    | none => simpa [Session.level, hm] using hd
    | some m =>
      rw [hsaved m hm]
      simpa [Session.level, hm] using hd
  · cases hm : s.memory with
    | none => exact ⟨d, by rw [step_of_memory_none hm hre, hd], StateFile.Extends.refl d⟩
    | some m =>
      obtain ⟨m', hm', hext⟩ := @step_memory codec path s op m hm hre
      simp only [Session.level, hm, Option.some.injEq] at hd
      exact ⟨m'.data, by simp [Session.level, hm'], hd ▸ hext⟩

/-! ### Whole runs -/

theorem run_ahead (h : s.Ahead codec) (ops : List StateOp) : (s.run codec path ops).Ahead codec := by
  induction ops generalizing s with
  | nil => exact h
  | cons op ops ih => exact ih (step_ahead h op)

/-- The file only advances, whatever is dropped. -/
theorem run_contents (h : s.Ahead codec) (ops : List StateOp) {d : StateFile}
    (hd : contents codec s.file = some d) :
    ∃ d', contents codec (s.run codec path ops).file = some d' ∧ d.Extends d' := by
  induction ops generalizing s d with
  | nil => exact ⟨d, hd, StateFile.Extends.refl d⟩
  | cons op ops ih =>
    obtain ⟨d₁, hd₁, hext₁⟩ := step_contents h op hd
    obtain ⟨d', hd', hext⟩ := ih (step_ahead h op) hd₁
    exact ⟨d', hd', hext₁.trans hext⟩

/-- The state only advances while nothing unsaved is dropped. -/
theorem run_level (hkeeps : KeepsSaved codec path s ops) {d : StateFile}
    (hd : s.level codec = some d) :
    ∃ d', (s.run codec path ops).level codec = some d' ∧ d.Extends d' := by
  induction ops generalizing s d with
  | nil => exact ⟨d, hd, StateFile.Extends.refl d⟩
  | cons op ops ih =>
    obtain ⟨d₁, hd₁, hext₁⟩ := step_level hkeeps.1 hd
    obtain ⟨d', hd', hext⟩ := ih hkeeps.2 hd₁
    exact ⟨d', hd', hext₁.trans hext⟩

theorem run_memory (hkeeps : KeepsSaved codec path s ops) {m m' : ContentState}
    (hm : s.memory = some m) (hm' : (s.run codec path ops).memory = some m') :
    m.data.Extends m'.data := by
  obtain ⟨d', hd', hext⟩ := run_level hkeeps (show s.level codec = some m.data by
    simp [Session.level, hm])
  simp only [Session.level, hm', Option.some.injEq] at hd'
  exact hd' ▸ hext

/-! ### What a later state accepts -/

/-- A later state, seen from an earlier one. -/
structure ContentState.Protects (m m' : ContentState) : Prop where
  sequence_le : ∀ name r, m.recordFor name = some r →
    ∃ r', m'.recordFor name = some r' ∧ r.sequence ≤ r'.sequence
  one_manifest : ∀ b floor r, m.recordFor b.manifest.name = some r →
    r.sequence = b.manifest.sequence → m'.check b floor = .ok () →
    b.manifestSha256 = r.manifestSha256
  floor_le : ∀ b f, m'.check b (some f) = .ok () → f ≤ b.manifest.sequence
  version_le : ∀ name r, m.timestampFor name = some r →
    ∃ r', m'.timestampFor name = some r' ∧ r.version ≤ r'.version
  timestamp_version_le : ∀ ts r, m.timestampFor ts.bundle = some r →
    m'.checkTimestamp ts = .ok () → r.version ≤ ts.version
  timestamp_sequence_le : ∀ ts r, m.recordFor ts.bundle = some r →
    m'.checkTimestamp ts = .ok () → r.sequence ≤ ts.sequence
  revoked_subset : ∀ id ∈ m.revokedKeys, id ∈ m'.revokedKeys

theorem protects_of_extends {m m' : ContentState} (h : m.data.Extends m'.data) : m.Protects m' where
  sequence_le name r hr := by
    obtain ⟨r', hr', hadv⟩ := h.bundles name r hr
    exact ⟨r', hr', hadv.elim le_of_lt fun heq => heq.1.le⟩
  one_manifest b floor r hr hseq hcheck := by
    obtain ⟨r', hr', hadv⟩ := h.bundles _ r hr
    rcases (check_eq_ok.mp hcheck).2 r' hr' with hlt | ⟨hseq', hsha'⟩
    · rcases hadv with hadv | ⟨heq, _⟩ <;> omega
    · rcases hadv with hadv | ⟨_, hsha⟩
      · omega
      · rw [← hsha', hsha]
  floor_le b f hcheck := (check_eq_ok.mp hcheck).1 f rfl
  version_le name r hr := h.timestamps name r hr
  timestamp_version_le ts r hr hcheck := by
    obtain ⟨r', hr', hadv⟩ := h.timestamps _ r hr
    exact le_trans hadv ((checkTimestamp_eq_ok.mp hcheck).1 r' hr')
  timestamp_sequence_le ts r hr hcheck := by
    obtain ⟨r', hr', hadv⟩ := h.bundles _ r hr
    have hle := (checkTimestamp_eq_ok.mp hcheck).2 r' hr'
    rcases hadv with hadv | ⟨heq, _⟩ <;> omega
  revoked_subset id hid := mem_revokedKeys.mpr (h.revokedKeys.mem (mem_revokedKeys.mp hid))

variable {ms : Minisign}

/-- What a later state refuses because `b` was accepted. -/
structure ContentState.Remembers (ms : Minisign) (b : VerifiedBundle) (m' : ContentState) : Prop where
  sequence_le : ∀ b' floor, m'.check b' floor = .ok () →
    b'.manifest.name = b.manifest.name → b.manifest.sequence ≤ b'.manifest.sequence
  one_manifest : ∀ b' floor, m'.check b' floor = .ok () →
    b'.manifest.name = b.manifest.name → b'.manifest.sequence = b.manifest.sequence →
    b'.manifestSha256 = b.manifestSha256
  timestamp_sequence_le : ∀ ts, m'.checkTimestamp ts = .ok () →
    ts.bundle = b.manifest.name → b.manifest.sequence ≤ ts.sequence
  revoked : ∀ keys : TrustedKeys ms,
    (keys.revokeAll m'.revokedKeys).Refuses b.manifest.revokeKeys

theorem refuses_of_recorded {keys : TrustedKeys ms} {revoked ids : List String}
    (h : keys.Refuses revoked) (hids : ∀ id ∈ ids, toAsciiUppercase id ∈ revoked) :
    keys.Refuses ids := by
  intro data text path now role id comment hok r hr
  have hup := h data text path now role id comment hok _ (hids r hr)
  rwa [eqIgnoreAsciiCase_toAsciiUppercase] at hup

theorem remembers_of_extends {m m' : ContentState} {b : VerifiedBundle} {floor : Option ℕ}
    {now : OffsetDateTime} (hcheck : m.check b floor = .ok ())
    (h : (m.record b now).data.Extends m'.data) :
    m'.Remembers ms b ∧ ∀ id ∈ b.manifest.revokeKeys, toAsciiUppercase id ∈ m'.revokedKeys := by
  have hprotects := protects_of_extends h
  obtain ⟨r, hr, hseq, hsha⟩ : ∃ r, (m.record b now).recordFor b.manifest.name = some r ∧
      r.sequence = b.manifest.sequence ∧ r.manifestSha256 = b.manifestSha256 :=
    record_recordFor hcheck
  obtain ⟨r', hr', hadv⟩ := h.bundles _ r hr
  have hrevoked : ∀ id ∈ b.manifest.revokeKeys, toAsciiUppercase id ∈ m'.revokedKeys :=
    fun id hid => hprotects.revoked_subset _ (record_mem_revokedKeys.mpr (.inr ⟨id, hid, rfl⟩))
  refine ⟨⟨?_, ?_, ?_, ?_⟩, hrevoked⟩
  · intro b' floor' hcheck' hname
    have hcases := (check_eq_ok.mp hcheck').2 r' (hname ▸ hr')
    rcases hadv with hadv | ⟨heq, _⟩ <;> rcases hcases with hlt | ⟨heq', _⟩ <;> omega
  · intro b' floor' hcheck' hname hseq'
    have hsame := hprotects.one_manifest b' floor' r (hname ▸ hr) (hseq.trans hseq'.symm) hcheck'
    exact hsame.trans hsha
  · intro ts hcheck' hname
    have hle := hprotects.timestamp_sequence_le ts r (hname ▸ hr) hcheck'
    omega
  · intro keys
    exact refuses_of_recorded (keys.refuses_revokeAll _) hrevoked

/-- Of every history: the file only advances; so does the state, as long as nothing unsaved is
dropped, and what it accepted it holds to. Runs of `load_bundles` and `update` that open the saved
state verify nothing with the keys that an accepted manifest revoked. -/
theorem content_history (c : Content ms) (path : String) (file : Option Bytes)
    (pre ops : List StateOp) :
    let s := Session.run c.codec path ⟨none, file⟩ pre
    (∀ d, contents c.codec s.file = some d →
      ∃ d', contents c.codec (s.run c.codec path ops).file = some d' ∧ d.Extends d') ∧
    (KeepsSaved c.codec path s ops → ∀ m m', s.memory = some m →
      (s.run c.codec path ops).memory = some m' → m.Protects m') ∧
    (∀ m b floor now, s.memory = some m → m.check b floor = .ok () →
      KeepsSaved c.codec path s (.record b floor now :: ops) →
      let s' := s.run c.codec path (.record b floor now :: ops)
      ∀ m', s'.memory = some m' →
        m'.Remembers ms b ∧
        (s'.Saved c.codec →
          (∀ dirs trust record opts openFault saveFault bundles file',
            loadBundles c path dirs trust record opts openFault saveFault s'.file =
              (.ok bundles, file') → ∀ b' ∈ bundles, b'.Unrevoked b.manifest.revokeKeys) ∧
          ∀ opts call state keys ts,
            checkChannel c opts call s'.file = .ok (state, keys, ts) →
              keys.Refuses b.manifest.revokeKeys)) := by
  intro s
  -- what is in memory is never behind the file, so a save only extends it
  have hahead : s.Ahead c.codec := run_ahead (fun m d hm => by cases hm) pre
  refine ⟨fun d hd => run_contents hahead ops hd,
    fun hkeeps m m' hm hm' => protects_of_extends (run_memory hkeeps hm hm'), ?_⟩
  intro m b floor now hm hcheck hkeeps s' m' hm'
  have hstep : (s.step c.codec path (.record b floor now)).memory = some (m.record b now) := by
    simp only [Session.step, hm, hcheck]
  -- what was recorded is extended by all that follows
  have hext : (m.record b now).data.Extends m'.data := run_memory hkeeps.2 hstep hm'
  obtain ⟨hremembers, hrevoked⟩ : m'.Remembers ms b ∧
      ∀ id ∈ b.manifest.revokeKeys, toAsciiUppercase id ∈ m'.revokedKeys :=
    remembers_of_extends hcheck hext
  refine ⟨hremembers, fun hsaved => ?_⟩
  -- whoever opens the saved state reads the record, and refuses what it revokes
  have hopened (p : String) (fault : Option IoKind) (state : ContentState) (trust : TrustedKeys ms)
      (hopen : ContentState.openState c.codec p fault s'.file = .ok state) :
      (trust.revokeAll state.revokedKeys).Refuses b.manifest.revokeKeys := by
    have hdata : m'.data = state.data :=
      Option.some.inj ((hsaved m' hm').symm.trans (openState_contents hopen))
    refine refuses_of_recorded (trust.refuses_revokeAll _) fun id hid => ?_
    have hmem := mem_revokedKeys.mp (hrevoked id hid)
    rw [hdata] at hmem
    exact mem_revokedKeys.mpr hmem
  constructor
  · intro dirs trust record opts openFault saveFault bundles file' hload
    exact loadBundles_unrevoked c (fun state hopen => hopened _ _ state trust hopen) hload
  · intro opts call state keys ts hchannel
    obtain ⟨hopen, hkeys, _⟩ := checkChannel_eq_ok hchannel
    rw [hkeys]
    exact hopened _ _ state opts.keys hopen

/-- The bundle of the first release, with another hash. -/
def otherBundle : VerifiedBundle := { officialBundle with manifestSha256 := emptySha256 }

def refusingCodec : StateCodec where
  toVec _ := .error "no JSON"
  fromSlice _ := .error "no JSON"
  fromSlice_toVec := by
    intro d json h
    cases h

/-- A state that is dropped without a save forgets: a release of one sequence is accepted and
recorded, the state is dropped and opened again, and another release of that sequence is accepted. -/
theorem dropped_state_forgets :
    let s := Session.run refusingCodec "state.json" ⟨none, none⟩
      [.reopen none, .record officialBundle none epoch]
    let s' := Session.run refusingCodec "state.json" s [.reopen none]
    s.memory.bind (fun m => (m.recordFor "official").map BundleRecord.sequence) = some 1 ∧
    s'.memory.bind (fun m => (m.recordFor "official").map BundleRecord.sequence) = none ∧
    (s.memory.map fun m => (m.check otherBundle none).isOk) = some false ∧
    (s'.memory.map fun m => (m.check otherBundle none).isOk) = some true := by
  decide +kernel

end AbyssalWarden

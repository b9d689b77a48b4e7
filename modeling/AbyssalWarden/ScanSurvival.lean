import AbyssalWarden.FileScan
import AbyssalWarden.Protocol
import AbyssalWarden.ReportOrder

/-! Which files a scan gets past. Reading a file can go wrong in many ways that are reported; the one that is not is
a modification time outside the calendar, and a time before the year 0 cannot be written into a report. -/
namespace AbyssalWarden

/-- The metadata in a JSON report, unless it cannot be written. -/
def FileMetadata.serialize (m : FileMetadata) : Option Json :=
  let fields (modified : List (String × Json)) : Json :=
    .obj (("size", .num (toString m.size)) :: modified ++
      (m.unixMode.map fun mode => ("unix_mode", Json.num (toString mode))).toList)
  match m.modified with
  | none => some (fields [])
  | some t => if -719528 * nanosPerDay ≤ t.nanos then some (fields [("modified", .str t.format)]) else none

/-! ### Times -/

/-- From the start of the year 0 to the end of the year 9999. -/
def SystemTime.Writable (t : SystemTime) : Prop := -719528 * 86400 ≤ t.secs ∧ t.secs < 2932897 * 86400

theorem toOffsetDateTime_eq_some {t : SystemTime} {d : OffsetDateTime} (h : t.toOffsetDateTime = some d) :
    d.nanos = t.secs * 10^9 + t.nanos ∧ t.secs < 2932897 * 86400 := by
  rw [SystemTime.toOffsetDateTime, OffsetDateTime.add] at h
  split at h
  · rename_i hrange
    have hd : epoch.nanos + (t.secs * 10^9 + t.nanos) = d.nanos :=
      congrArg OffsetDateTime.nanos (Option.some.inj h)
    have hnanos : epoch.nanos = 0 := rfl
    have hpos : (0 : ℤ) ≤ t.nanos := Int.natCast_nonneg _
    unfold nanosPerDay at hrange
    exact ⟨by omega, by omega⟩
  · cases h

theorem writable_iff {t : SystemTime} :
    t.Writable ↔ ∃ d, t.toOffsetDateTime = some d ∧ -719528 * nanosPerDay ≤ d.nanos := by
  have hlt := t.nanos_lt
  constructor
  · intro h
    -- what can be written lies in the range of the conversion
    have hrange : -4371587 * nanosPerDay ≤ epoch.nanos + (t.secs * 10^9 + t.nanos) ∧
        epoch.nanos + (t.secs * 10^9 + t.nanos) < 2932897 * nanosPerDay := by
      have hnanos : epoch.nanos = 0 := rfl
      have hlow := h.1
      have hhigh := h.2
      unfold nanosPerDay
      omega
    refine ⟨⟨epoch.nanos + (t.secs * 10^9 + t.nanos), hrange⟩, ?_, ?_⟩
    · rw [SystemTime.toOffsetDateTime, OffsetDateTime.add, dif_pos hrange]
    · have hnanos : epoch.nanos = 0 := rfl
      have hlow := h.1
      unfold nanosPerDay
      dsimp only
      omega
  · intro h
    obtain ⟨d, hd, hlow⟩ := h
    obtain ⟨hnanos, hhigh⟩ := toOffsetDateTime_eq_some hd
    refine ⟨?_, hhigh⟩
    rw [hnanos] at hlow
    unfold nanosPerDay at hlow
    omega

/-! ### Reading -/

/-- How many bytes the reads give. -/
def readTotal : List FileRead → ℕ
  | [] => 0
  | .data bytes _ _ :: rest => bytes.length + readTotal rest
  | .interrupted :: rest => readTotal rest
  | .failed _ :: rest => readTotal rest

/-- The file is read to its end: nothing that the system reports keeps it from being read and hashed. -/
structure ReadsThrough (opts : ReadOptions) (file : OpenFile) (stat : Metadata) : Prop where
  metadata : file.metadata = .ok stat
  regular : stat.fileType = .regular
  len_le : stat.len ≤ opts.maxSize
  unseen : opts.seen.any ((stat.dev, stat.ino) ∈ ·) = false
  unhalted : ∀ i ≤ file.reads.length, file.halted i = none
  unfailed : ∀ e, FileRead.failed e ∉ file.reads
  size_le : readTotal file.reads ≤ opts.maxSize

variable {opts : ReadOptions} {halted : ℕ → Option Halt} {reads : List FileRead} {st st' : ReadState} {i : ℕ}

theorem readChunk_ok_iff {bytes : Bytes} (hst : st.total ≤ opts.maxSize) :
    (∃ st', readChunk opts st bytes = .ok st') ↔ st.total + bytes.length ≤ opts.maxSize := by
  have hlength : (bytes.take (opts.maxSize + 1 - st.total)).length =
      min (opts.maxSize + 1 - st.total) bytes.length := List.length_take
  rw [readChunk]
  dsimp only
  rw [hlength]
  split
  · rename_i hlarge
    constructor
    · intro h
      obtain ⟨st', hst'⟩ := h
      cases hst'
    · intro h
      omega
  · rename_i hsmall
    refine iff_of_true ?_ (by omega)
    split
    · split <;> exact ⟨_, rfl⟩
    · exact ⟨_, rfl⟩

theorem readChunk_total {bytes : Bytes} (hst : st.total ≤ opts.maxSize) (h : readChunk opts st bytes = .ok st') :
    st'.total = st.total + bytes.length := by
  have hfits := (readChunk_ok_iff hst).mp ⟨st', h⟩
  have htake : bytes.take (opts.maxSize + 1 - st.total) = bytes := List.take_of_length_le (by omega)
  rw [readChunk] at h
  dsimp only at h
  rw [htake, if_neg (by omega)] at h
  split at h
  · split at h <;> (cases h; rfl)
  · cases h
    rfl

theorem readLoop_ok_iff (hst : st.total ≤ opts.maxSize) :
    (∃ st', readLoop opts halted reads i st = .ok st') ↔
      (∀ j ≤ reads.length, halted (i + j) = none) ∧ (∀ e, FileRead.failed e ∉ reads) ∧
        st.total + readTotal reads ≤ opts.maxSize := by
  -- the halts that are asked are numbered on from `i`, so `i` is general
  induction reads generalizing i st with
  | nil =>
    cases hhalt : halted i with
    | some halt =>
      refine iff_of_false ?_ ?_
      · intro h
        obtain ⟨st', h⟩ := h
        unfold readLoop at h
        cases halt <;> simp [hhalt] at h
      · intro h
        exact absurd (h.1 0 (Nat.le_refl _)) (by simp [hhalt])
    | none =>
      refine iff_of_true ⟨st, by unfold readLoop; simp [hhalt]⟩ ⟨?_, (fun _ h => nomatch h), hst⟩
      intro j hj
      obtain rfl : j = 0 := by simpa using hj
      exact hhalt
  | cons read rest ih =>
    -- the first halt is this turn's, the others are those of the turns that follow
    have hshift : (∀ j ≤ (read :: rest).length, halted (i + j) = none) ↔
        halted i = none ∧ ∀ j ≤ rest.length, halted (i + 1 + j) = none := by
      constructor
      · intro h
        refine ⟨h 0 (Nat.zero_le _), fun j hj => ?_⟩
        have hnext := h (j + 1) (by rw [List.length_cons]; omega)
        rwa [show i + 1 + j = i + (j + 1) by omega]
      · intro h j hj
        cases j with
        | zero => exact h.1
        | succ j =>
          have hnext := h.2 j (by rw [List.length_cons] at hj; omega)
          rwa [show i + (j + 1) = i + 1 + j by omega]
    rw [hshift]
    cases hhalt : halted i with
    | some halt =>
      refine iff_of_false ?_ (by simp)
      intro h
      obtain ⟨st', h⟩ := h
      unfold readLoop at h
      cases halt <;> simp [hhalt] at h
    | none =>
      unfold readLoop
      simp only [hhalt, true_and]
      cases read with
      -- an interrupted read is tried again
      | interrupted =>
        rw [ih hst, readTotal]
        simp
      | failed e =>
        refine iff_of_false (fun h => ?_) (fun h => h.2.1 e List.mem_cons_self)
        obtain ⟨st', h⟩ := h
        cases h
      | data bytes hne hfits =>
        rw [readTotal]
        cases hchunk : readChunk opts st bytes with
        | error e =>
          have hlarge : ¬ st.total + bytes.length ≤ opts.maxSize := by
            intro hsmall
            obtain ⟨st', hst'⟩ := (readChunk_ok_iff hst).mpr hsmall
            rw [hchunk] at hst'
            cases hst'
          refine iff_of_false (fun h => ?_) (fun h => hlarge (by have hsize := h.2.2; omega))
          obtain ⟨st', h⟩ := h
          simp [hchunk] at h
        | ok next =>
          have htotal := readChunk_total hst hchunk
          have hsmall := (readChunk_ok_iff hst).mp ⟨next, hchunk⟩
          -- what is left to read has to fit into what is left of the limit
          simp only [hchunk]
          rw [ih (by omega), htotal, Nat.add_assoc]
          simp

theorem readChunk_not_cancelled {bytes : Bytes} : readChunk opts st bytes ≠ .error .cancelled := by
  intro h
  rw [readChunk] at h
  dsimp only at h
  split at h
  · cases h
  · split at h
    · split at h <;> cases h
    · cases h

theorem readLoop_cancelled (h : readLoop opts halted reads i st = .error .cancelled) :
    ∃ j, halted j = some .cancelled := by
  induction reads generalizing i st with
  | nil =>
    unfold readLoop at h
    cases hhalt : halted i with
    | none => simp [hhalt] at h
    | some halt =>
      cases halt with
      | cancelled => exact ⟨i, hhalt⟩
      | deadline => simp [hhalt] at h
  | cons read rest ih =>
    unfold readLoop at h
    cases hhalt : halted i with
    -- a halt is noticed before every read
    | some halt =>
      cases halt with
      | cancelled => exact ⟨i, hhalt⟩
      | deadline => simp [hhalt] at h
    | none =>
      simp only [hhalt] at h
      cases read with
      | interrupted => exact ih h
      | failed e => cases h
      | data bytes hne hfits =>
        cases hchunk : readChunk opts st bytes with
        | error e =>
          simp only [hchunk, Except.error.injEq] at h
          -- a chunk is refused for its size or its kind only
          exact absurd (h ▸ hchunk) readChunk_not_cancelled
        | ok next =>
          simp only [hchunk] at h
          exact ih h

/-- `read_file` gave up before the end of the file. -/
def GaveUp (sha256 : Bytes → Sha256Digest) (opts : ReadOptions) (opened : Except IoError OpenFile) : Prop :=
  (∃ e, Fsio.readFile sha256 opts opened = some (.error e) ∧
    (e = .cancelled → ∃ file i, opened = .ok file ∧ file.halted i = some .cancelled)) ∧
  ∀ file stat, opened = .ok file → ¬ ReadsThrough opts file stat

/-- `read_file` came to the end of the file, and could convert its time or not. -/
def CameThrough (sha256 : Bytes → Sha256Digest) (opts : ReadOptions) (opened : Except IoError OpenFile)
    (file : OpenFile) (stat : Metadata) : Prop :=
  opened = .ok file ∧ ReadsThrough opts file stat ∧
    ((stat.modified = none ∧ ∃ r, Fsio.readFile sha256 opts opened = some (.ok r) ∧ r.hashed.metadata.modified = none) ∨
      ∃ t, stat.modified = some t ∧
        ((t.toOffsetDateTime = none ∧ Fsio.readFile sha256 opts opened = none) ∨
          ∃ d r, t.toOffsetDateTime = some d ∧ Fsio.readFile sha256 opts opened = some (.ok r) ∧
            r.hashed.metadata.modified = some d))

theorem gaveUp_of_skip {sha256 : Bytes → Sha256Digest} {file : OpenFile} {stat : Metadata} (reason : SkipReason)
    (hmeta : file.metadata = .ok stat) (hskip : Fsio.readFile sha256 opts (.ok file) = some (.error (.skipped reason)))
    (hnot : ¬ ReadsThrough opts file stat) : GaveUp sha256 opts (.ok file) := by
  refine ⟨⟨_, hskip, nofun⟩, fun file' stat' h hthrough => ?_⟩
  obtain rfl := Except.ok.inj h
  obtain rfl := Except.ok.inj (hmeta.symm.trans hthrough.metadata)
  exact hnot hthrough

theorem fsio_readFile_cases (sha256 : Bytes → Sha256Digest) (opts : ReadOptions) (opened : Except IoError OpenFile) :
    GaveUp sha256 opts opened ∨ ∃ file stat, CameThrough sha256 opts opened file stat := by
  -- the checks in the order of `read_file`: each one that fails gives up
  cases opened with
  | error e =>
    refine .inl ⟨?_, fun file stat h => nomatch h⟩
    rw [Fsio.readFile]
    by_cases hrefusal : (e.isSymlinkRefusal || e.isEscapeRefusal) = true
    · rw [if_pos hrefusal]
      exact ⟨_, rfl, nofun⟩
    · rw [if_neg hrefusal]
      exact ⟨_, rfl, nofun⟩
  | ok file =>
    cases hmeta : file.metadata with
    | error e =>
      refine .inl ⟨⟨.io e, by simp only [Fsio.readFile, hmeta], nofun⟩, fun file' stat h hthrough => ?_⟩
      obtain rfl := Except.ok.inj h
      rw [hthrough.metadata] at hmeta
      cases hmeta
    | ok stat =>
      by_cases hlink : stat.fileType = .symlink
      · refine .inl (gaveUp_of_skip .symlinkNotFollowed hmeta (by simp [Fsio.readFile, hmeta, hlink]) ?_)
        intro hthrough
        exact FileType.noConfusion (hlink.symm.trans hthrough.regular)
      by_cases hregular : stat.fileType = .regular
      case neg =>
        refine .inl (gaveUp_of_skip .notRegularFile hmeta
          (by simp only [Fsio.readFile, hmeta, if_neg hlink, if_pos hregular, ne_eq]) ?_)
        exact fun hthrough => hregular hthrough.regular
      by_cases hlen : stat.len ≤ opts.maxSize
      case neg =>
        refine .inl (gaveUp_of_skip .exceedsMaxFileSize hmeta ?_ fun hthrough => hlen hthrough.len_le)
        simp [Fsio.readFile, hmeta, hregular, Nat.lt_of_not_le hlen]
      cases hseen : opts.seen.any ((stat.dev, stat.ino) ∈ ·) with
      | true =>
        refine .inl (gaveUp_of_skip .duplicateFile hmeta ?_ fun hthrough => ?_)
        · simp [Fsio.readFile, hmeta, hregular, Nat.not_lt_of_le hlen, hseen]
        · rw [hthrough.unseen] at hseen
          cases hseen
      | false =>
        have hfile : Fsio.readFile sha256 opts (.ok file) = readOpened sha256 opts file stat := by
          simp [Fsio.readFile, hmeta, hregular, Nat.not_lt_of_le hlen, hseen]
        -- whether the loop ends does not depend on the content that is kept
        have hiff (opts' : ReadOptions) (hsame : opts'.maxSize = opts.maxSize) (keep : Bool) :
            (∃ st', readLoop opts' file.halted file.reads 0 ⟨[], keep, false, [], 0⟩ = .ok st') ↔
              (∀ j ≤ file.reads.length, file.halted j = none) ∧ (∀ e, FileRead.failed e ∉ file.reads) ∧
                readTotal file.reads ≤ opts.maxSize := by
          rw [readLoop_ok_iff (Nat.zero_le _), hsame]
          simp only [Nat.zero_add]
        have hloop_iff := hiff { opts with contentLimit := opts.contentLimit.filter (stat.len ≤ ·) } rfl
          (opts.contentLimit.filter (stat.len ≤ ·)).isSome
        rw [readOpened] at hfile
        cases hloop : readLoop { opts with contentLimit := opts.contentLimit.filter (stat.len ≤ ·) } file.halted
            file.reads 0 ⟨[], (opts.contentLimit.filter (stat.len ≤ ·)).isSome, false, [], 0⟩ with
        | error e =>
          rw [hloop] at hfile
          refine .inl ⟨⟨e, hfile, fun he => ?_⟩, fun file' stat' h hthrough => ?_⟩
          · obtain ⟨j, hj⟩ := readLoop_cancelled (he ▸ hloop)
            exact ⟨file, j, rfl, hj⟩
          · obtain rfl := Except.ok.inj h
            obtain rfl := Except.ok.inj (hmeta.symm.trans hthrough.metadata)
            obtain ⟨st', hok⟩ := hloop_iff.mpr ⟨hthrough.unhalted, hthrough.unfailed, hthrough.size_le⟩
            rw [hloop] at hok
            cases hok
        | ok st =>
          rw [hloop] at hfile
          obtain ⟨hunhalted, hunfailed, hsize⟩ := hloop_iff.mp ⟨st, hloop⟩
          refine .inr ⟨file, stat, rfl, ⟨hmeta, hregular, hlen, hseen, hunhalted, hunfailed, hsize⟩, ?_⟩
          simp only [hashedFile] at hfile
          -- only here a scan can panic: where the time of the file is converted
          cases hmodified : stat.modified with
          | none =>
            rw [hmodified] at hfile
            exact .inl ⟨rfl, _, hfile, rfl⟩
          | some t =>
            rw [hmodified] at hfile
            refine .inr ⟨t, rfl, ?_⟩
            cases hconverted : t.toOffsetDateTime with
            | none =>
              simp only [hconverted, Option.map_none] at hfile
              exact .inl ⟨rfl, hfile⟩
            | some d =>
              simp only [hconverted, Option.map_some] at hfile
              exact .inr ⟨d, _, rfl, hfile, rfl⟩

/-! ### Expanding -/

section Expanding

variable {x : Expander} {nested : Bytes → ℕ → Expansion → Expansion × Expanded} {depth : ℕ}

theorem readTurn_not_stopped {m : MemberRead} {run : Expansion} {read : ReadResult} {outcome : Expanded}
    (h : (x.readTurn m run read).2 = .returned outcome) (s : ArchiveStop) : outcome ≠ .stop s := by
  intro houtcome
  rw [houtcome] at h
  cases read with
  | interrupted => cases h
  | failed e => cases h
  | data bytes hne hfits =>
    simp only [Expander.readTurn] at h
    split at h
    · cases h
    · split at h
      · split at h <;> cases h
      · split at h
        · split at h <;> cases h
        · cases h

theorem readLoop_not_cancelled (hx : ∀ n, x.halted n ≠ some .cancelled) {reads : List ReadResult} {m : MemberRead}
    {run : Expansion} : (x.readLoop reads m run).2 ≠ .returned (.stop .cancelled) := by
  -- a check stops for another reason
  have hcheck (run : Expansion) (s : ArchiveStop) (h : (x.check run).1 = some s) : s ≠ .cancelled := by
    intro hs
    exact hx run.checks (hs ▸ h)
  induction reads generalizing m run with
  | nil =>
    rw [Expander.readLoop]
    split
    · rename_i s run' heq
      intro h
      exact hcheck run s (by rw [heq]) (Expanded.stop.inj (ReadEnd.returned.inj h))
    · intro h
      cases h
  | cons read rest ih =>
    rw [Expander.readLoop]
    split
    · rename_i s run' heq
      intro h
      exact hcheck run s (by rw [heq]) (Expanded.stop.inj (ReadEnd.returned.inj h))
    · split
      · exact ih
      · rename_i outcome hturn
        intro h
        exact readTurn_not_stopped (congrArg Prod.snd hturn) .cancelled (ReadEnd.returned.inj h)

theorem member_not_cancelled (hx : ∀ n, x.halted n ≠ some .cancelled)
    (hnested : ∀ data depth run, (nested data depth run).2 ≠ .stop .cancelled) (entry : ZipEntry) (run : Expansion) :
    (x.member nested depth entry run).2 ≠ .stop .cancelled := by
  have hdeliver (m : MemberRead) (run : Expansion) : (x.deliver nested depth m run).2 ≠ .stop .cancelled := by
    rw [Expander.deliver]
    split
    · intro h
      cases h
    · dsimp only
      split
      · split
        · exact hnested _ _ _
        · intro h
          cases h
      · intro h
        cases h
  rw [Expander.member]
  split
  · split
    · intro h
      cases h
    · intro h
      cases h
    · intro h
      cases h
  · split
    · rename_i outcome hloop
      intro h
      exact readLoop_not_cancelled hx ((congrArg Prod.snd hloop).trans (congrArg ReadEnd.returned h))
    · exact hdeliver _ _

theorem expandEntries_not_cancelled (hx : ∀ n, x.halted n ≠ some .cancelled)
    (hnested : ∀ data depth run, (nested data depth run).2 ≠ .stop .cancelled) (entries : List ZipEntry) (index : ℕ)
    (run : Expansion) : (x.expandEntries nested depth index entries run).2 ≠ .stop .cancelled := by
  have hentry (index : ℕ) (entry : ZipEntry) (run : Expansion) :
      (x.expandEntry nested depth index entry run).2 ≠ .stop .cancelled := by
    rw [Expander.expandEntry]
    split
    · intro h
      cases h
    · rename_i raw _
      split
      · intro h
        cases h
      · cases hencrypted : raw.encrypted with
        | true => exact fun h => by cases h
        | false =>
          cases hlink : raw.isSymlink with
          | true => exact fun h => by cases h
          | false => exact member_not_cancelled hx hnested entry _
  -- what stops the loop is the check before an entry, or the entry
  induction entries generalizing index run with
  | nil => exact fun h => by cases h
  | cons entry rest ih =>
    rw [Expander.expandEntries]
    split
    · rename_i s run' heq
      intro h
      exact hx run.checks (Expanded.stop.inj h ▸ congrArg Prod.fst heq)
    · split
      · split
        · intro h
          cases h
        · intro h
          cases h
      · split
        · exact ih _ _
        · rename_i outcome _ hlast
          intro h
          exact hentry _ _ _ ((congrArg Prod.snd hlast).trans h)

theorem expand_not_cancelled (hx : ∀ n, x.halted n ≠ some .cancelled) (fuel : ℕ) (data : Bytes) (depth : ℕ)
    (strict : Bool) (run : Expansion) : (x.expand fuel data depth strict run).2 ≠ .stop .cancelled := by
  induction fuel generalizing data depth strict run with
  | zero => exact fun h => by cases h
  | succ fuel ih =>
    rw [Expander.expand]
    split
    · intro h
      cases h
    · exact expandEntries_not_cancelled hx (fun data depth run => ih data depth true run) _ _ _

end Expanding

/-! ### The worker -/

variable {ctx : WorkerCtx} {item : WorkItem}

/-- The scan is not stopped while the worker has the file, and the worker is not given up. -/
structure WorkItem.Undisturbed (item : WorkItem) : Prop where
  running : item.stopped = false
  kept : item.abandoned = false
  heard : item.heard = true
  reading : ∀ file, item.opened = .ok file → ∀ i, file.halted i ≠ some .cancelled
  inspecting : ∀ index i, item.inspectHalted index i ≠ some .cancelled
  expanding : ∀ n, item.expandHalted n ≠ some .cancelled

theorem runDetectors_undisturbed (ctx : WorkerCtx) (hitem : item.Undisturbed) (index : ℕ) (obs : FileObservation) (out : FileResult) :
    ∃ out', runDetectors ctx item index obs out = some out' := by
  have hfrom (detectors : List ScanDetector) (i : ℕ) (contentSkipped : Bool) (out : FileResult) :
      ∃ r, runDetectorsFrom ctx item index obs detectors i contentSkipped out = some r := by
    induction detectors generalizing i contentSkipped out with
    | nil => exact ⟨_, rfl⟩
    | cons detector rest ih =>
      rw [runDetectorsFrom]
      cases hhalt : item.inspectHalted index i with
      | some halt =>
        cases halt with
        | cancelled => exact absurd hhalt (hitem.inspecting index i)
        | deadline => exact ⟨_, rfl⟩
      | none =>
        dsimp only
        split
        · exact ih _ _ _
        · split <;> exact ih _ _ _
  obtain ⟨r, hr⟩ := hfrom ctx.detectors 0 false out
  rw [runDetectors, hr]
  exact ⟨_, rfl⟩

theorem expandArchive_undisturbed (hitem : item.Undisturbed) (bytes : Bytes) (out : FileResult) :
    ∃ out', expandArchive ctx item bytes out = some out' := by
  -- no event of an undisturbed item gives up the file
  have hvisit (events : List ArchiveEvent) (out : FileResult) :
      (events.foldl (fun (acc : Bool × FileResult) event => visitEvent ctx item acc.1 acc.2 event) (false, out)).1 =
        false := by
    induction events generalizing out with
    | nil => rfl
    | cons event events ih =>
      have hstep : ∃ out', visitEvent ctx item false out event = (false, out') := by
        cases event with
        | member chain sha256 size content =>
          have hdetectors (index : ℕ) (obs : FileObservation) (out : FileResult) :=
            runDetectors_undisturbed ctx hitem index obs out
          simp only [visitEvent]
          split
          · exact ⟨_, rfl⟩
          · rename_i hnone
            obtain ⟨out', hout'⟩ := hdetectors _ _ _
            rw [hout'] at hnone
            cases hnone
        | skipped chain reason => exact ⟨_, rfl⟩
        | error chain message => exact ⟨_, rfl⟩
      obtain ⟨out', hout'⟩ := hstep
      rw [List.foldl_cons, hout']
      exact ih out'
  have hresult : ((item.expander ctx).expandFile (item.expander ctx).levels bytes).2 ≠ .stop .cancelled :=
    expand_not_cancelled hitem.expanding _ _ _ _ _
  rw [expandArchive]
  generalize (item.expander ctx).expandFile (item.expander ctx).levels bytes = r at hresult
  obtain ⟨run, result⟩ := r
  dsimp only at hresult ⊢
  rw [hvisit]
  rw [if_neg Bool.false_ne_true]
  split
  · exact ⟨_, rfl⟩
  · exact ⟨_, rfl⟩
  · exact absurd rfl hresult
  · exact ⟨_, rfl⟩
  · exact ⟨_, rfl⟩
  · exact ⟨_, rfl⟩

/-- The message is about the file. -/
def Msg.About (path : NativePath) : Msg → Prop
  | .directory => False
  | .scanned p _ _ _ _ _ => p = path
  | .skipped p _ => p = path
  | .issue i => i.path = some (ObservedPath.fromPath path)
  | .exited => False

theorem evaluateFile_undisturbed (ctx : WorkerCtx) (hitem : item.Undisturbed) (read : ReadOutcome) :
    ∃ msg, evaluateFile ctx item read = some msg ∧ msg.About item.path := by
  have hscanned {out : Option FileResult} (h : ∃ r, out = some r) : ∃ msg : Msg,
      (out.map fun out => Msg.scanned item.path read.hashed.metadata.size out.findings out.issues out.skips
        out.members) = some msg ∧ msg.About item.path := by
    obtain ⟨r, rfl⟩ := h
    exact ⟨_, rfl, rfl⟩
  rw [evaluateFile]
  dsimp only
  split
  · rename_i hnone
    obtain ⟨out, hout⟩ := runDetectors_undisturbed ctx hitem 0 _ _
    rw [hout] at hnone
    cases hnone
  · refine hscanned ?_
    split
    · split
      · split
        · exact expandArchive_undisturbed hitem _ _
        · exact ⟨_, rfl⟩
      · split <;> exact ⟨_, rfl⟩
    · exact ⟨_, rfl⟩

/-- Where the reading does not panic, there is a message about the file. -/
theorem processFile_undisturbed (ctx : WorkerCtx) (hitem : item.Undisturbed) :
    (Fsio.readFile ctx.sha256 (item.options ctx) item.opened = none ∧ processFile ctx item = none) ∨
      ∃ msg, processFile ctx item = some (some msg) ∧ msg.About item.path := by
  cases hread : Fsio.readFile ctx.sha256 (item.options ctx) item.opened with
  | none =>
    refine .inl ⟨rfl, ?_⟩
    rw [processFile, hread]
    rfl
  | some result =>
    refine .inr ?_
    rw [processFile, hread, Option.map_some]
    cases result with
    | ok read =>
      obtain ⟨msg, hmsg, habout⟩ := evaluateFile_undisturbed ctx hitem read
      exact ⟨msg, congrArg some hmsg, habout⟩
    | error e =>
      cases e with
      | skipped reason => exact ⟨_, rfl, rfl⟩
      | timedOut n => exact ⟨_, rfl, rfl⟩
      | io e => exact ⟨_, rfl, rfl⟩
      -- a reading is cancelled only by a halt, and there is none
      | cancelled =>
        obtain ⟨⟨e, he, hcancelled⟩, -⟩ | ⟨file, stat, hopened, -, hthrough⟩ :=
          fsio_readFile_cases ctx.sha256 (item.options ctx) item.opened
        · rw [hread] at he
          obtain ⟨file, i, hopened, hhalt⟩ := hcancelled (Except.error.inj (Option.some.inj he)).symm
          exact absurd hhalt (hitem.reading file hopened i)
        · obtain ⟨-, r, hr, -⟩ | ⟨t, -, ⟨-, hr⟩ | ⟨d, r, -, hr, -⟩⟩ := hthrough
          · rw [hread] at hr
            cases hr
          · rw [hread] at hr
            cases hr
          · rw [hread] at hr
            cases hr

/-- A worker that nobody stops panics when reading one of its files does, and else sends a message about each. -/
theorem workerMain_undisturbed (ctx : WorkerCtx) {items : List WorkItem} (hitems : ∀ item ∈ items, item.Undisturbed) :
    ((workerMain ctx items).panicked = true ↔
        ∃ item ∈ items, Fsio.readFile ctx.sha256 (item.options ctx) item.opened = none) ∧
      ((workerMain ctx items).panicked = false →
        ∀ item ∈ items, ∃ msg ∈ (workerMain ctx items).sent, msg.About item.path) := by
  induction items with
  | nil => exact ⟨⟨nofun, fun h => by simp at h⟩, fun _ item h => absurd h List.not_mem_nil⟩
  | cons item rest ih =>
    have hitem := hitems item List.mem_cons_self
    obtain ⟨ihpanic, ihsent⟩ := ih fun item h => hitems item (List.mem_cons_of_mem _ h)
    rw [workerMain, if_neg (by simp [hitem.running])]
    obtain ⟨hread, hprocess⟩ | ⟨msg, hprocess, habout⟩ := processFile_undisturbed ctx hitem
    · rw [hprocess]
      exact ⟨⟨fun _ => ⟨item, List.mem_cons_self, hread⟩, fun _ => rfl⟩, nofun⟩
    · have hread : Fsio.readFile ctx.sha256 (item.options ctx) item.opened ≠ none := by
        intro h
        rw [processFile, h] at hprocess
        cases hprocess
      rw [hprocess]
      dsimp only
      rw [if_neg (by simp [hitem.kept]), if_pos hitem.heard]
      -- this file is read and reported; the rest is the induction
      refine ⟨ihpanic.trans ?_, fun hquiet item' hmem => ?_⟩
      · simp [hread]
      · cases List.mem_cons.mp hmem with
        | inl heq => exact ⟨msg, List.mem_cons_self, heq ▸ habout⟩
        | inr hrest =>
          obtain ⟨m, hm, habout'⟩ := ihsent hquiet item' hrest
          exact ⟨m, List.mem_cons_of_mem _ hm, habout'⟩

/-! ### The scan -/

/-- The file is not read to its end, or its time can be written. -/
def WorkItem.Fits (ctx : WorkerCtx) (item : WorkItem) : Prop :=
  ∀ file stat t, item.opened = .ok file → ReadsThrough (item.options ctx) file stat → stat.modified = some t →
    t.Writable

/-- The scan returns a report with every file accounted for, and the metadata of every file can be written. -/
structure ScanSurvives (scanner : Scanner) (ctx : WorkerCtx) (queues : List (List WorkItem)) (received : List Msg) :
    Prop where
  report : ∃ report, scanner.join (queues.map (workerMain ctx)) received = .ok report
  accounted : ∀ queue ∈ queues, ∀ item ∈ queue, ∃ msg ∈ received, msg.About item.path
  written : ∀ queue ∈ queues, ∀ item ∈ queue, ∀ read,
    Fsio.readFile ctx.sha256 (item.options ctx) item.opened = some (.ok read) →
      ∃ json, read.hashed.metadata.serialize = some json

theorem serialize_eq_some_iff {m : FileMetadata} :
    (∃ json, m.serialize = some json) ↔ ∀ d, m.modified = some d → -719528 * nanosPerDay ≤ d.nanos := by
  rw [FileMetadata.serialize]
  cases m.modified with
  | none => simp
  | some d =>
    dsimp only
    split
    · rename_i h
      exact iff_of_true ⟨_, rfl⟩ fun d' hd' => Option.some.inj hd' ▸ h
    · rename_i h
      exact iff_of_false (fun hjson => nomatch hjson.choose_spec) fun hall => h (hall d rfl)

/-- A file fits just when reading it does not panic and its metadata can be written. -/
theorem workItem_fits_iff : item.Fits ctx ↔ Fsio.readFile ctx.sha256 (item.options ctx) item.opened ≠ none ∧
    ∀ read, Fsio.readFile ctx.sha256 (item.options ctx) item.opened = some (.ok read) →
      ∃ json, read.hashed.metadata.serialize = some json := by
  obtain ⟨⟨e, he, -⟩, hnot⟩ | ⟨file, stat, hopened, hthrough, hread⟩ :=
    fsio_readFile_cases ctx.sha256 (item.options ctx) item.opened
  -- nothing was read to its end, so the time is never looked at
  · rw [he]
    refine iff_of_true (fun file stat t hopened hthrough => absurd hthrough (hnot file stat hopened)) ⟨nofun, ?_⟩
    intro read h
    cases h
  · have hfits : item.Fits ctx ↔ ∀ t, stat.modified = some t → t.Writable := by
      constructor
      · exact fun h t => h file stat t hopened hthrough
      · intro h file' stat' t hopened' hthrough'
        obtain rfl := Except.ok.inj (hopened.symm.trans hopened')
        obtain rfl := Except.ok.inj (hthrough.metadata.symm.trans hthrough'.metadata)
        exact h t
    rw [hfits]
    obtain ⟨hmodified, r, hr, htime⟩ | ⟨t, hmodified, ⟨hconverted, hr⟩ | ⟨d, r, hconverted, hr, htime⟩⟩ := hread
    · rw [hr, hmodified]
      refine iff_of_true (fun t ht => absurd ht (Option.some_ne_none t).symm) ⟨Option.some_ne_none _, fun read h => ?_⟩
      obtain rfl := Except.ok.inj (Option.some.inj h)
      rw [serialize_eq_some_iff, htime]
      exact fun d hd => absurd hd (Option.some_ne_none d).symm
    -- the conversion of the time panics
    · rw [hr, hmodified]
      refine iff_of_false (fun h => ?_) fun h => h.1 rfl
      obtain ⟨d, hd, -⟩ := writable_iff.mp (h t rfl)
      rw [hconverted] at hd
      cases hd
    -- the time is converted, and it is written from the year 0 on
    · rw [hr, hmodified]
      have hwritable : t.Writable ↔ -719528 * nanosPerDay ≤ d.nanos := by
        rw [writable_iff, hconverted]
        simp
      constructor
      · intro h
        refine ⟨nofun, fun read hread => ?_⟩
        obtain rfl := Except.ok.inj (Option.some.inj hread)
        rw [serialize_eq_some_iff, htime]
        intro d' hd'
        obtain rfl := Option.some.inj hd'
        exact hwritable.mp (h t rfl)
      · intro h t' ht'
        obtain rfl := Option.some.inj ht'
        rw [hwritable]
        exact serialize_eq_some_iff.mp (h.2 r rfl) d htime

/-- Whatever a scan that nobody stops meets, it gets past its files just when the times of those it reads to their
end can be written. -/
theorem scan_survives_iff (scanner : Scanner) (ctx : WorkerCtx) (queues : List (List WorkItem)) (received : List Msg)
    (hitems : ∀ queue ∈ queues, ∀ item ∈ queue, item.Undisturbed)
    (hreceived : ((queues.map (workerMain ctx)).flatMap WorkerRun.sent).Perm received) :
    ScanSurvives scanner ctx queues received ↔ ∀ queue ∈ queues, ∀ item ∈ queue, item.Fits ctx := by
  -- a worker panics just when it cannot read a file
  have hjoin : (∃ report, scanner.join (queues.map (workerMain ctx)) received = .ok report) ↔
      ∀ queue ∈ queues, ∀ item ∈ queue, Fsio.readFile ctx.sha256 (item.options ctx) item.opened ≠ none := by
    rw [Scanner.join]
    split
    · rename_i hany
      obtain ⟨run, hrun, hpanicked⟩ := List.any_eq_true.mp hany
      obtain ⟨queue, hqueue, rfl⟩ := List.mem_map.mp hrun
      obtain ⟨item, hitem, hread⟩ := ((workerMain_undisturbed _ (hitems queue hqueue)).1).mp hpanicked
      exact iff_of_false (fun h => nomatch h.choose_spec) fun h => h queue hqueue item hitem hread
    · rename_i hnone
      refine iff_of_true ⟨_, rfl⟩ fun queue hqueue item hitem hread => hnone (List.any_eq_true.mpr ?_)
      refine ⟨_, List.mem_map_of_mem hqueue, ?_⟩
      exact ((workerMain_undisturbed _ (hitems queue hqueue)).1).mpr ⟨item, hitem, hread⟩
  constructor
  · intro h queue hqueue item hitem
    exact workItem_fits_iff.mpr ⟨hjoin.mp h.report queue hqueue item hitem, h.written queue hqueue item hitem⟩
  · intro h
    have hread := fun queue hqueue item hitem => (workItem_fits_iff.mp (h queue hqueue item hitem)).1
    refine ⟨hjoin.mpr hread, fun queue hqueue item hitem => ?_, fun queue hqueue item hitem =>
      (workItem_fits_iff.mp (h queue hqueue item hitem)).2⟩
    obtain ⟨hpanic, hsent⟩ := workerMain_undisturbed ctx (hitems queue hqueue)
    have hquiet : (workerMain ctx queue).panicked = false := by
      rw [← Bool.not_eq_true, hpanic]
      rintro ⟨item', hitem', hnone⟩
      exact hread queue hqueue item' hitem' hnone
    obtain ⟨msg, hmsg, habout⟩ := hsent hquiet item hitem
    refine ⟨msg, hreceived.mem_iff.mp (List.mem_flatMap.mpr ⟨_, List.mem_map_of_mem hqueue, hmsg⟩), habout⟩

/-! ### Samples -/

def hashOnly : WorkerCtx where
  detectors := []
  maxFileSize := 100
  maxContentSize := 100
  fileTimeoutMs := 1000
  archives := ⟨false, 0, 0, 0, 0⟩
  sha256 _ := ⟨List.replicate 32 0, Expander.zeros_length⟩
  openZip _ := .error ⟨.other, "no archive"⟩

/-- A file of one byte with this modification time. -/
def fileOfTime (t : SystemTime) : WorkItem where
  path := NativePath.ofString "/home/a"
  opened := .ok ⟨.ok ⟨.regular, 1, some t, 0o100644, 1, 2⟩, [.data [7] (by decide) (by decide)], fun _ => none⟩
  seen := none
  inspect _ _ _ := .found []
  inspectHalted _ _ := none
  expandHalted _ := none
  expandPanic := none
  stopped := false
  abandoned := false
  heard := true

theorem fileOfTime_undisturbed (t : SystemTime) : (fileOfTime t).Undisturbed := by
  refine ⟨rfl, rfl, rfl, fun file h i => ?_, fun _ _ => nofun, fun _ => nofun⟩
  obtain rfl := Except.ok.inj h
  exact nofun

/-- The first second of the year 10000. -/
def year10000 : SystemTime := ⟨253402300800, 0, by decide, by decide⟩

theorem scan_survives_epoch :
    ScanSurvives plainScanner hashOnly [[fileOfTime ⟨0, 0, by decide, by decide⟩]]
        (workerMain hashOnly [fileOfTime ⟨0, 0, by decide, by decide⟩]).sent ↔
      ∀ queue ∈ [[fileOfTime ⟨0, 0, by decide, by decide⟩]], ∀ item ∈ queue, item.Fits hashOnly := by
  refine scan_survives_iff plainScanner hashOnly _ _ ?_ ?_
  · intro queue hqueue item hitem
    rw [List.mem_singleton.mp hqueue, List.mem_singleton] at hitem
    rw [hitem]
    exact fileOfTime_undisturbed _
  · rw [List.map_singleton, List.flatMap_singleton]

/-- One file from the year 10000 ends the whole scan. -/
theorem year10000_aborts :
    ¬ ∀ (queues : List (List WorkItem)) (received : List Msg),
      (∀ queue ∈ queues, ∀ item ∈ queue, item.Undisturbed) →
        ((queues.map (workerMain hashOnly)).flatMap WorkerRun.sent).Perm received →
          ScanSurvives plainScanner hashOnly queues received := by
  intro h
  have hitems : ∀ queue ∈ [[fileOfTime year10000]], ∀ item ∈ queue, item.Undisturbed := by
    intro queue hqueue item hitem
    rw [List.mem_singleton.mp hqueue, List.mem_singleton] at hitem
    rw [hitem]
    exact fileOfTime_undisturbed _
  obtain ⟨⟨report, hreport⟩, -, -⟩ := h [[fileOfTime year10000]] _ hitems (List.Perm.refl _)
  have hpanics : plainScanner.join ([[fileOfTime year10000]].map (workerMain hashOnly))
      (([[fileOfTime year10000]].map (workerMain hashOnly)).flatMap WorkerRun.sent) = .error .threadPanicked := by
    rfl
  rw [hpanics] at hreport
  cases hreport

end AbyssalWarden

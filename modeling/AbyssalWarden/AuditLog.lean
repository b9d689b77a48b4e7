import AbyssalWarden.AuditTamper
import AbyssalWarden.QuarantineStore

/-! The audit log over a life of the store: appends, of which any may fail on its way while the store is
used on, and reopenings. -/
namespace AbyssalWarden

/-- How an append fails: after a part of the line is written, or when the whole line is synced. -/
inductive AppendFault where
  | none
  | torn (e : Errno) (written : ℕ)
  | unsynced (e : Errno)

def AppendFault.faults : AppendFault → List (Fault Errno)
  | none => []
  | torn e written => [.fails e written]
  | unsynced e => [.none, .fails e 0]

/-- What the file gets of a line. -/
def AppendFault.written (line : Bytes) : AppendFault → Bytes
  | torn _ n => line.take n
  | _ => line

/-- The head in memory afterwards. -/
def AppendFault.headAfter (before next : ChainHead) : AppendFault → ChainHead
  | none => next
  | _ => before

inductive LogEvent where
  | append (entry : AuditEntry) (fault : AppendFault)
  | reopen

/-- The file, and the store that writes it. -/
structure LogState where
  world : Disk
  store : QuarantineStore

variable (host : Host)

namespace Host

/-- A failed append is reported, and the store goes on; a log that is refused ends the run. -/
def logStep (s : LogState) : LogEvent → Except AuditError LogState
  | .append entry fault =>
    match (host.appendEntry s.store entry).run (fun _ => true) fault.faults s.world with
    | (.ok store, world) => .ok ⟨world, store⟩
    | (_, world) => .ok ⟨world, s.store⟩
  | .reopen => (verifyChain host.sha256 host.entries s.world.audit).map fun head =>
      ⟨s.world, head, none, []⟩

def logRun (s : LogState) : List LogEvent → Except AuditError LogState
  | [] => .ok s
  | ev :: evs => host.logStep s ev >>= fun s => logRun s evs

/-- The log is accepted, with the head that the store holds. -/
def Accepted (s : LogState) : Prop :=
  verifyChain host.sha256 host.entries s.world.audit = .ok s.store.head

/-- The append writes nothing, or all of a line that is not too long. -/
def CleanEvent (s : LogState) : LogEvent → Prop
  | .append entry fault => ∀ line head,
      encode host.sha256 host.entries entry s.store.head = .ok (line, head) →
        (∃ e, fault = .torn e 0) ∨ fault = .none ∧ line.length ≤ maxLine + 1
  | .reopen => True

/-- All steps of the run are clean. -/
def CleanRun (s : LogState) : List LogEvent → Prop
  | [] => True
  | ev :: evs => host.CleanEvent s ev ∧ ∀ s', host.logStep s ev = .ok s' → CleanRun s' evs

end Host

variable {host} {s s' : LogState} {entry : AuditEntry} {fault : AppendFault} {head head' : ChainHead}
  {line bytes : Bytes}

/-- What an append leaves in the file and in memory. -/
theorem logStep_append (fault : AppendFault)
    (hline : encode host.sha256 host.entries entry s.store.head = .ok (line, head')) :
    ∃ s', host.logStep s (.append entry fault) = .ok s' ∧
      s'.world.audit = s.world.audit ++ fault.written line ∧
      s'.store.head = fault.headAfter s.store.head head' := by
  simp only [Host.logStep, Host.appendEntry, hline]
  cases fault <;> exact ⟨_, rfl, rfl, rfl⟩

theorem logStep_refused {e : AuditError}
    (hline : encode host.sha256 host.entries entry s.store.head = .error e) :
    host.logStep s (.append entry fault) = .ok s := by
  simp only [Host.logStep, Host.appendEntry, hline]
  rfl

/-! ### One append -/

variable {sha256 : Bytes → Sha256Digest} {codec : EntryCodec}

theorem encode_head_ne (hline : encode sha256 codec entry head = .ok (line, head')) : head ≠ head' := by
  obtain ⟨l, -, -, -, -, rfl⟩ := encode_eq_ok hline
  intro h
  have hseq := congrArg ChainHead.seq h
  simp [ChainHead.next] at hseq

/-- A whole line more is accepted unless it is too long, and only with the next head. -/
theorem verifyChain_append_line (hbytes : verifyChain sha256 codec bytes = .ok head)
    (hline : encode sha256 codec entry head = .ok (line, head')) {h : ChainHead} :
    verifyChain sha256 codec (bytes ++ line) = .ok h ↔ line.length ≤ maxLine + 1 ∧ h = head' := by
  obtain ⟨ls, rfl, hls, hlinked, rfl⟩ := verifyChain_eq_ok.mp hbytes
  obtain ⟨l, rfl, hl, hseq, hprev, rfl⟩ := encode_eq_ok hline
  have hunlines : unlines newline ls ++ (l ++ [newline]) = unlines newline (ls ++ [l]) := by
    simp [unlines]
  -- the line links to the head it was encoded for
  have hmore : (auditFormat sha256 codec).Linked 0 genesis (ls ++ [l]) := by
    rw [ChainFormat.linked_concat, hseq, hprev, after_seq, @after_hash _ codec]
    exact ⟨hlinked, rfl, rfl⟩
  have hafter : ChainHead.genesis.after sha256 (ls ++ [l]) =
      (ChainHead.genesis.after sha256 ls).next sha256 l := by
    simp [ChainHead.after]
  have hnewline : ∀ m ∈ ls ++ [l], newline ∉ m := by
    rw [List.forall_mem_append, List.forall_mem_singleton]
    exact ⟨fun m hm => (hls m hm).1, hl⟩
  rw [hunlines, verifyChain_eq_ok, List.length_append, List.length_singleton]
  constructor
  · rintro ⟨ms, heq, hms, -, rfl⟩
    obtain rfl := unlines_injective hnewline (fun m hm => (hms m hm).1) heq
    exact ⟨Nat.succ_le_succ (hms l (by simp)).2, hafter⟩
  · rintro ⟨hlen, rfl⟩
    refine ⟨ls ++ [l], rfl, ?_, hmore, hafter.symm⟩
    rw [List.forall_mem_append, List.forall_mem_singleton]
    exact ⟨hls, hl, Nat.le_of_succ_le_succ hlen⟩

/-- A log that does not end with a newline is refused. -/
theorem verifyChain_open_end {b : UInt8} (hb : b ≠ newline) :
    verifyChain sha256 codec (bytes ++ [b]) ≠ .ok head := by
  intro h
  obtain ⟨ls, hunlines, -⟩ := verifyChain_eq_ok.mp h
  cases ls using List.reverseRecOn with
  | nil => simp [unlines] at hunlines
  | append_singleton ls l =>
    rw [unlines_append, unlines_cons] at hunlines
    have hlast := congrArg List.getLast? hunlines
    simp [unlines] at hlast
    exact hb hlast

/-- A torn line is not accepted with the head that the store still holds. -/
theorem verifyChain_append_torn (hbytes : verifyChain sha256 codec bytes = .ok head)
    (hline : encode sha256 codec entry head = .ok (line, head')) {n : ℕ} :
    verifyChain sha256 codec (bytes ++ line.take n) = .ok head ↔ n = 0 := by
  constructor
  · intro h
    by_contra hn
    by_cases hwhole : line.length ≤ n
    · rw [List.take_of_length_le hwhole, verifyChain_append_line hbytes hline] at h
      exact encode_head_ne hline h.2
    · obtain ⟨l, rfl, hl, -⟩ := encode_eq_ok hline
      obtain ⟨n, rfl⟩ := Nat.exists_eq_succ_of_ne_zero hn
      rw [List.length_append, List.length_singleton] at hwhole
      have hlt : n < l.length := by omega
      rw [List.take_append_of_le_length (by omega), List.take_succ_eq_append_getElem hlt,
        ← List.append_assoc] at h
      exact verifyChain_open_end (fun heq => hl (heq ▸ List.getElem_mem hlt)) h
  · rintro rfl
    simpa using hbytes

/-- One event keeps an accepted log accepted exactly if it is clean. -/
theorem logStep_accepted_iff (hs : host.Accepted s) {ev : LogEvent} :
    (∃ s', host.logStep s ev = .ok s' ∧ host.Accepted s') ↔ host.CleanEvent s ev := by
  cases ev with
  | reopen =>
    refine iff_of_true ⟨⟨s.world, s.store.head, none, []⟩, ?_, hs⟩ trivial
    simp only [Host.logStep]
    rw [hs]
    rfl
  | append entry fault =>
    cases hline : encode host.sha256 host.entries entry s.store.head with
    | error e =>
      refine iff_of_true ⟨s, logStep_refused hline, hs⟩ ?_
      intro line head h
      rw [hline] at h
      cases h
    | ok r =>
      obtain ⟨line, head'⟩ := r
      obtain ⟨s', hstep, haudit, hhead⟩ := logStep_append fault hline
      -- an entry that is encoded is clean if nothing of it is written, or all of it and it is not too long
      have hclean : host.CleanEvent s (.append entry fault) ↔
          (∃ e, fault = .torn e 0) ∨ fault = .none ∧ line.length ≤ maxLine + 1 := by
        constructor
        · exact fun h => h line head' hline
        · intro h line₁ head₁ hline₁
          rw [hline] at hline₁
          cases hline₁
          exact h
      have hne := encode_head_ne hline
      rw [hclean, hstep]
      simp only [Except.ok.injEq, exists_eq_left', Host.Accepted, haudit, hhead]
      cases fault with
      | none => simp [AppendFault.written, AppendFault.headAfter, verifyChain_append_line hs hline]
      | torn e n => simp [AppendFault.written, AppendFault.headAfter, verifyChain_append_torn hs hline]
      | unsynced e =>
        simp [AppendFault.written, AppendFault.headAfter, verifyChain_append_line hs hline, hne]

/-- In every run, every state reached has an accepted log with the head of the store, and no reopening is
refused, exactly if every append writes nothing or all of a line that is not too long. -/
theorem audit_log_accepted_iff (hs : host.Accepted s) {evs : List LogEvent} :
    (∀ before, before <+: evs → ∃ s', host.logRun s before = .ok s' ∧ host.Accepted s') ↔
      host.CleanRun s evs := by
  -- along the events, from any accepted state
  induction evs generalizing s with
  | nil =>
    refine iff_of_true ?_ trivial
    intro before hbefore
    rw [List.prefix_nil.mp hbefore]
    exact ⟨s, rfl, hs⟩
  | cons ev evs ih =>
    rw [Host.CleanRun, ← logStep_accepted_iff hs]
    constructor
    · intro h
      obtain ⟨s₁, hrun, hs₁⟩ := h [ev] (by simp)
      obtain ⟨s', hstep, hnil⟩ := except_bind_eq_ok.mp hrun
      cases hnil
      refine ⟨⟨_, hstep, hs₁⟩, ?_⟩
      intro s'' hstep'
      rw [hstep] at hstep'
      cases hstep'
      refine (ih hs₁).mp fun before hbefore => ?_
      obtain ⟨s₂, hrun₂, hs₂⟩ := h (ev :: before) (List.cons_prefix_cons.mpr ⟨rfl, hbefore⟩)
      obtain ⟨s₃, hstep₃, hrun₃⟩ := except_bind_eq_ok.mp hrun₂
      rw [hstep] at hstep₃
      cases hstep₃
      exact ⟨s₂, hrun₃, hs₂⟩
    · rintro ⟨⟨s', hstep, hs'⟩, hclean⟩ before hbefore
      cases before with
      | nil => exact ⟨s, rfl, hs⟩
      | cons ev₁ before =>
        obtain ⟨rfl, hrest⟩ := List.cons_prefix_cons.mp hbefore
        obtain ⟨s₂, hrun₂, hs₂⟩ := (ih hs').mpr (hclean s' hstep) before hrest
        exact ⟨s₂, except_bind_eq_ok.mpr ⟨s', hstep, hrun₂⟩, hs₂⟩

/-! ### A torn line -/

def rootHost (sha256 : Bytes → Sha256Digest) (records : RecordCodec) (entries : EntryCodec) : Host where
  root := NativePath.ofString "/var/lib/abyssal-warden/quarantine"
  rootDir := (1, 2)
  itemsDir := (1, 3)
  euid := 0
  openDir _ := .ok ⟨1, 4, 0o755, 0⟩
  sha256 := sha256
  records := records
  entries := entries
  pieces data := [data]
  flatten_pieces := by simp

def emptyDisk : Disk := ⟨fun _ => none, ∅, []⟩

def emptyLog : LogState := ⟨emptyDisk, ChainHead.genesis, none, []⟩

def quarantineHost : Host :=
  rootHost twoDigests (RecordCodec.ofTable [] List.nodup_nil (by simp) (by simp)) twoEntries

def noSpace : Errno := .other "No space left on device (os error 28)"

theorem accepted_emptyLog : quarantineHost.Accepted emptyLog :=
  verifyChain_eq_ok.mpr ⟨[], rfl, by simp, trivial, rfl⟩

theorem audit_log_accepted_iff_two :
    (∀ before, before <+: [.append quarantineEntry .none, .append restoreEntry (.torn noSpace 0)] →
        ∃ s', quarantineHost.logRun emptyLog before = .ok s' ∧ quarantineHost.Accepted s') ↔
      quarantineHost.CleanRun emptyLog
        [.append quarantineEntry .none, .append restoreEntry (.torn noSpace 0)] :=
  audit_log_accepted_iff accepted_emptyLog

/-- A write that fails after five bytes: the log is refused when the store is opened again. -/
theorem torn_append_refused :
    ∃ s', quarantineHost.logRun emptyLog [.append quarantineEntry (.torn noSpace 5)] = .ok s' ∧
      s'.world.audit ≠ [] ∧ s'.store.head = ChainHead.genesis ∧
      ∃ e, quarantineHost.logRun emptyLog [.append quarantineEntry (.torn noSpace 5), .reopen] =
        .error e := by
  have hline : encode quarantineHost.sha256 quarantineHost.entries quarantineEntry
      emptyLog.store.head =
      .ok (quarantineLine ++ [newline], ChainHead.genesis.next twoDigests quarantineLine) := by
    decide +kernel
  have htorn : (quarantineLine ++ [newline]).take 5 = [0x7B, 0x22, 0x73, 0x65] ++ [0x71] := by
    decide
  obtain ⟨s', hstep, haudit, hhead⟩ := logStep_append (.torn noSpace 5) hline
  have hbytes : s'.world.audit = [0x7B, 0x22, 0x73, 0x65] ++ [0x71] := haudit.trans htorn
  refine ⟨s', ?_, ?_, hhead, ?_⟩
  · rw [Host.logRun, hstep]
    rfl
  · simp [hbytes]
  -- the five bytes end without a line feed
  · cases hverify : verifyChain quarantineHost.sha256 quarantineHost.entries s'.world.audit with
    | error e =>
      refine ⟨e, ?_⟩
      rw [Host.logRun, hstep, except_ok_bind, Host.logRun, Host.logStep, hverify]
      rfl
    | ok head =>
      rw [hbytes] at hverify
      exact absurd hverify (verifyChain_open_end (by decide))

end AbyssalWarden

import AbyssalWarden.Audit

/-! What the chain proves: an accepted log is linked from the genesis hash, so two accepted logs with one
head hash are equal up to collisions of the hash. -/
namespace AbyssalWarden

variable {sha256 : Bytes → Sha256Digest} {codec : EntryCodec} {head next : ChainHead} {line : Bytes}
  {ls ms : List Bytes} {σ : Type} {onEntry : σ → ℕ → String → σ} {acc acc' : ChainHead × σ}

/-- How the lines of the log are read. A line that is no entry has number 0, which no line may have. -/
def auditFormat (sha256 : Bytes → Sha256Digest) (codec : EntryCodec) : ChainFormat Bytes String where
  hash := lineHash sha256
  seq line := match codec.fromSlice line with
    | .ok entry => entry.seq
    | .error _ => 0
  prev line := match codec.fromSlice line with
    | .ok entry => entry.prev
    | .error _ => ""
  genesis := genesis

/-- The head after some more lines. -/
def ChainHead.after (sha256 : Bytes → Sha256Digest) (head : ChainHead) (ls : List Bytes) : ChainHead :=
  ls.foldl (ChainHead.next sha256) head

/-- What one accepted line does to the walk. -/
def visitLine (sha256 : Bytes → Sha256Digest) (onEntry : σ → ℕ → String → σ) (acc : ChainHead × σ)
    (line : Bytes) : ChainHead × σ :=
  (acc.1.next sha256 line, onEntry acc.2 (acc.1.seq + 1) (lineHash sha256 line))

/-- Two different lines, one of each list, with one SHA-256. -/
def SharedDigest (sha256 : Bytes → Sha256Digest) (ls ms : List Bytes) : Prop :=
  ∃ l ∈ ls, ∃ m ∈ ms, l ≠ m ∧ sha256 l = sha256 m

theorem lineHash_injective {l m : Bytes} (h : lineHash sha256 l = lineHash sha256 m) :
    sha256 l = sha256 m := by
  have hchars := congrArg String.toList h
  simp only [lineHash, String.toList_ofList] at hchars
  have hbytes := hexEncode_injective hchars
  cases hl : sha256 l
  cases hm : sha256 m
  simpa [hl, hm] using hbytes

theorem collision_sharedDigest (h : (auditFormat sha256 codec).Collision ls ms) :
    SharedDigest sha256 ls ms := by
  obtain ⟨l, hl, m, hm, hne, heq⟩ := h
  exact ⟨l, hl, m, hm, hne, lineHash_injective heq⟩

theorem checkLine_eq_ok : checkLine sha256 codec head line = .ok next ↔
    (auditFormat sha256 codec).seq line = head.seq + 1 ∧
      (auditFormat sha256 codec).prev line = head.hash ∧ next = head.next sha256 line := by
  simp only [checkLine, except_bind_eq_ok, mapError_eq_ok, refuseIf_eq_ok, not_not, auditFormat,
    exists_and_left, exists_const]
  cases hentry : codec.fromSlice line with
  | error e => simp
  | ok entry => simp [eq_comm]

/-- The lines pass their checks exactly when they continue the chain. -/
theorem checkEach_walkLine : checkEach (walkLine sha256 codec onEntry) acc ls = .ok acc' ↔
    (auditFormat sha256 codec).Linked acc.1.seq acc.1.hash ls ∧
      acc' = ls.foldl (visitLine sha256 onEntry) acc := by
  induction ls generalizing acc with
  | nil => simp [checkEach, ChainFormat.Linked, eq_comm]
  | cons l ls ih =>
    simp only [checkEach_cons_eq_ok, walkLine, except_bind_eq_ok, checkLine_eq_ok, ih,
      ChainFormat.Linked, List.foldl_cons]
    constructor
    · rintro ⟨_, ⟨next, ⟨hseq, hprev, rfl⟩, hacc⟩, hlinked, rfl⟩
      cases hacc
      exact ⟨⟨hseq, hprev, hlinked⟩, rfl⟩
    · rintro ⟨⟨hseq, hprev, hlinked⟩, rfl⟩
      exact ⟨_, ⟨_, ⟨hseq, hprev, rfl⟩, rfl⟩, hlinked, rfl⟩

theorem foldl_visitLine_fst :
    (ls.foldl (visitLine sha256 onEntry) acc).1 = acc.1.after sha256 ls := by
  induction ls generalizing acc with
  | nil => rfl
  | cons l ls ih => exact ih

theorem after_seq : (head.after sha256 ls).seq = head.seq + ls.length := by
  induction ls generalizing head with
  | nil => rfl
  | cons l ls ih =>
    calc
      ((head.next sha256 l).after sha256 ls).seq = head.seq + 1 + ls.length := ih
      _ = head.seq + (l :: ls).length := by rw [List.length_cons]; omega

theorem after_hash : (head.after sha256 ls).hash = (auditFormat sha256 codec).headFrom head.hash ls := by
  induction ls generalizing head with
  | nil => rfl
  | cons l ls ih =>
    rw [ChainFormat.headFrom_cons]
    exact @ih (head.next sha256 l)

theorem walkChain_iff {bytes : Bytes} : walkChain sha256 codec onEntry acc bytes = .ok acc' ↔
    ∃ ls, bytes = unlines newline ls ∧ (∀ l ∈ ls, ReadableLine l) ∧
      (auditFormat sha256 codec).Linked acc.1.seq acc.1.hash ls ∧
      acc' = ls.foldl (visitLine sha256 onEntry) acc := by
  simp only [walkChain_eq_ok, checkEach_walkLine]

theorem verifyChain_eq_ok {bytes : Bytes} : verifyChain sha256 codec bytes = .ok head ↔
    ∃ ls, bytes = unlines newline ls ∧ (∀ l ∈ ls, ReadableLine l) ∧
      (auditFormat sha256 codec).Linked 0 genesis ls ∧ head = ChainHead.genesis.after sha256 ls := by
  simp only [verifyChain, except_map_eq_ok, walkChain_iff]
  constructor
  · rintro ⟨_, ⟨ls, hbytes, hls, hlinked, rfl⟩, rfl⟩
    exact ⟨ls, hbytes, hls, hlinked, foldl_visitLine_fst⟩
  · rintro ⟨ls, hbytes, hls, hlinked, rfl⟩
    exact ⟨_, ⟨ls, hbytes, hls, hlinked, rfl⟩, foldl_visitLine_fst⟩

/-! ### Logs that `encode` writes -/

/-- Append the entries one after the other, each encoded from the head so far. -/
def encodeAll (sha256 : Bytes → Sha256Digest) (codec : EntryCodec) (head : ChainHead) :
    List AuditEntry → Except AuditError (Bytes × ChainHead)
  | [] => .ok ([], head)
  | entry :: entries => do
    let (line, head) ← encode sha256 codec entry head
    let (log, head) ← encodeAll sha256 codec head entries
    .ok (line ++ log, head)

/-- What `encode` returns is one line that continues the chain. -/
theorem encode_eq_ok {entry : AuditEntry} {bytes : Bytes}
    (h : encode sha256 codec entry head = .ok (bytes, next)) :
    ∃ line, bytes = line ++ [newline] ∧ newline ∉ line ∧
      (auditFormat sha256 codec).seq line = head.seq + 1 ∧
      (auditFormat sha256 codec).prev line = head.hash ∧ next = head.next sha256 line := by
  simp only [encode, except_bind_eq_ok, mapError_eq_ok, Except.ok.injEq, Prod.mk.injEq] at h
  obtain ⟨line, hline, rfl, rfl⟩ := h
  have hback := codec.fromSlice_toVec _ line hline
  refine ⟨line, rfl, codec.toVec_line _ line hline, ?_, ?_, rfl⟩
  · simp [auditFormat, hback]
  · simp [auditFormat, hback]

/-- An entry that already has its number and the hash before it. -/
theorem encode_of_toVec {entry : AuditEntry} {line : Bytes} (hseq : entry.seq = head.seq + 1)
    (hprev : entry.prev = head.hash) (h : codec.toVec entry = .ok line) :
    encode sha256 codec entry head = .ok (line ++ [newline], head.next sha256 line) := by
  simp [encode, ← hseq, ← hprev, h, Except.mapError, bind, Except.bind]

theorem encodeAll_eq_ok {entries : List AuditEntry} {log : Bytes}
    (h : encodeAll sha256 codec head entries = .ok (log, next)) :
    ∃ ls, log = unlines newline ls ∧ (∀ l ∈ ls, newline ∉ l) ∧
      (auditFormat sha256 codec).Linked head.seq head.hash ls ∧ next = head.after sha256 ls := by
  induction entries generalizing head log with
  | nil =>
    cases h
    exact ⟨[], rfl, by simp, trivial, rfl⟩
  | cons entry entries ih =>
    simp only [encodeAll, except_bind_eq_ok, Except.ok.injEq, Prod.mk.injEq] at h
    obtain ⟨⟨bytes, head'⟩, hentry, ⟨log', next'⟩, hrest, rfl, rfl⟩ := h
    obtain ⟨line, rfl, hline, hseq, hprev, rfl⟩ := encode_eq_ok hentry
    obtain ⟨ls, rfl, hls, hlinked, rfl⟩ := ih hrest
    refine ⟨line :: ls, ?_, ?_, ⟨hseq, hprev, hlinked⟩, rfl⟩
    · simp [unlines_cons]
    · rw [List.forall_mem_cons]
      exact ⟨hline, hls⟩

end AbyssalWarden

import AbyssalWarden.AuditChain

/-! Tamper evidence: what else is accepted with the head of a log that `encode` wrote, and what reading
that log returns. -/
namespace AbyssalWarden

variable {sha256 : Bytes → Sha256Digest} {codec : EntryCodec} {head : ChainHead} {ls ms : List Bytes}

/-- One of the logs is empty, and the SHA-256 of a line of the other is the all-zero genesis value. -/
def GenesisDigest (sha256 : Bytes → Sha256Digest) (ls ms : List Bytes) : Prop :=
  (ls = [] ∨ ms = []) ∧ ∃ l ∈ ls ++ ms, lineHash sha256 l = genesis

theorem headFrom_eq_genesis (h : (auditFormat sha256 codec).headFrom genesis ls = genesis)
    (hne : ls ≠ []) :
    ∃ l ∈ ls, lineHash sha256 l = genesis := by
  obtain ⟨init, l, rfl⟩ := (List.eq_nil_or_concat' ls).resolve_left hne
  rw [ChainFormat.headFrom_concat] at h
  exact ⟨l, by simp, h⟩

/-- Linked lists of lines with one head. -/
theorem linked_unique (hls : (auditFormat sha256 codec).Linked 0 genesis ls)
    (hms : (auditFormat sha256 codec).Linked 0 genesis ms)
    (hhead : (auditFormat sha256 codec).headFrom genesis ls =
      (auditFormat sha256 codec).headFrom genesis ms) :
    ls = ms ∨ SharedDigest sha256 ls ms ∨ GenesisDigest sha256 ls ms := by
  by_cases hempty : ls = [] ↔ ms = []
  · rcases ChainFormat.eq_or_collision hls hms hempty hhead with heq | hcol
    · exact .inl heq
    · exact .inr (.inl (collision_sharedDigest hcol))
  · right; right
    by_cases hl : ls = []
    · subst hl
      have hm : ms ≠ [] := fun hm => hempty (by simp [hm])
      obtain ⟨m, hmem, hm⟩ := headFrom_eq_genesis hhead.symm hm
      exact ⟨.inl rfl, m, by simpa using hmem, hm⟩
    · have hm : ms = [] := by
        by_contra hm
        exact hempty (by simp [hl, hm])
      subst hm
      obtain ⟨l, hmem, hl⟩ := headFrom_eq_genesis hhead hl
      exact ⟨.inr rfl, l, by simpa using hmem, hl⟩

/-- Other lines before the last one: they are not linked, or there is a collision. -/
theorem linked_edit {init edited : List Bytes} {l : Bytes}
    (hls : (auditFormat sha256 codec).Linked 0 genesis (init ++ [l]))
    (hms : (auditFormat sha256 codec).Linked 0 genesis (edited ++ [l])) (hne : edited ≠ init) :
    SharedDigest sha256 (init ++ [l]) (edited ++ [l]) := by
  have hhead : (auditFormat sha256 codec).headFrom genesis (init ++ [l]) =
      (auditFormat sha256 codec).headFrom genesis (edited ++ [l]) := by
    rw [ChainFormat.headFrom_concat, ChainFormat.headFrom_concat]
  rcases linked_unique hls hms hhead with heq | hshared | hgenesis
  · exact absurd (List.append_cancel_right heq).symm hne
  · exact hshared
  · simp [GenesisDigest] at hgenesis

/-! ### Reading the log back -/

/-- The numbers and hashes of the lines. -/
def numbered (sha256 : Bytes → Sha256Digest) (n : ℕ) (ls : List Bytes) : List (ℕ × String) :=
  (ls.zipIdx n).map fun (l, i) => (i, lineHash sha256 l)

theorem foldl_visitLine_numbered {out : List (ℕ × String)} :
    (ls.foldl (visitLine sha256 fun out seq hash => out ++ [(seq, hash)]) (head, out)).2 =
      out ++ numbered sha256 (head.seq + 1) ls := by
  induction ls generalizing head out with
  | nil => simp [numbered]
  | cons l ls ih =>
    rw [List.foldl_cons, visitLine, ih]
    simp [numbered, ChainHead.next]

/-- A linked log is read back in full unless one of its lines is longer than the reader takes. -/
theorem auditChain_unlines (hls : ∀ l ∈ ls, newline ∉ l)
    (hlinked : (auditFormat sha256 codec).Linked 0 genesis ls) :
    auditChain sha256 codec (unlines newline ls) = .ok (numbered sha256 1 ls) ↔
      ∀ l ∈ ls, l.length ≤ maxLine := by
  simp only [auditChain, except_map_eq_ok, walkChain_iff]
  constructor
  · rintro ⟨_, ⟨ms, hbytes, hms, -, -⟩, -⟩ l hl
    have heq : ls = ms := unlines_injective hls (fun m hm => (hms m hm).1) hbytes
    exact (hms l (heq ▸ hl)).2
  · intro hlen
    refine ⟨_, ⟨ls, rfl, fun l hl => ⟨hls l hl, hlen l hl⟩, hlinked, rfl⟩, ?_⟩
    rw [foldl_visitLine_numbered]
    rfl

/-- For every log that `encode` writes entry by entry: what is accepted with its head hash is the log
itself, or shows a collision, or starts from nothing; a log with other lines before its last line fails,
or shows a collision; and it is read back as its lines' numbers and hashes exactly when no line is longer
than the reader's limit. -/
theorem audit_tamper_evident {entries : List AuditEntry} {log : Bytes}
    (h : encodeAll sha256 codec ChainHead.genesis entries = .ok (log, head)) :
    ∃ ls, log = unlines newline ls ∧ (∀ l ∈ ls, newline ∉ l) ∧
      (∀ other head', verifyChain sha256 codec other = .ok head' → head'.hash = head.hash →
        other = log ∨ ∃ ms, other = unlines newline ms ∧ (∀ m ∈ ms, newline ∉ m) ∧
          (SharedDigest sha256 ls ms ∨ GenesisDigest sha256 ls ms)) ∧
      (∀ init l edited, ls = init ++ [l] → (∀ m ∈ edited, newline ∉ m) → edited ≠ init →
        (∃ e, verifyChain sha256 codec (unlines newline (edited ++ [l])) = .error e) ∨
          SharedDigest sha256 ls (edited ++ [l])) ∧
      (auditChain sha256 codec log = .ok (numbered sha256 1 ls) ↔ ∀ l ∈ ls, l.length ≤ maxLine) := by
  obtain ⟨ls, rfl, hls, hlinked, rfl⟩ := encodeAll_eq_ok h
  refine ⟨ls, rfl, hls, ?_, ?_, auditChain_unlines hls hlinked⟩
  · intro other head' hother hhash
    obtain ⟨ms, rfl, hms, hmlinked, rfl⟩ := verifyChain_eq_ok.mp hother
    rw [@after_hash _ codec, @after_hash _ codec] at hhash
    -- two chains with one last hash are the same lines, or a digest is shared
    rcases linked_unique hlinked hmlinked hhash.symm with rfl | hrest
    · exact .inl rfl
    · exact .inr ⟨ms, rfl, fun m hm => (hms m hm).1, hrest⟩
  · rintro init l edited rfl hedited hne
    cases hverify : verifyChain sha256 codec (unlines newline (edited ++ [l])) with
    | error e => exact .inl ⟨e, rfl⟩
    | ok head' =>
      right
      obtain ⟨ms, hbytes, hms, hmlinked, -⟩ := verifyChain_eq_ok.mp hverify
      have hlast : newline ∉ l := hls l (by simp)
      have heq : edited ++ [l] = ms := by
        refine unlines_injective ?_ (fun m hm => (hms m hm).1) hbytes
        intro m hm
        rcases List.mem_append.mp hm with hm | hm
        · exact hedited m hm
        · rw [List.mem_singleton.mp hm]
          exact hlast
      subst heq
      exact linked_edit hlinked hmlinked hne

/-! ### Two entries -/

def quarantineEntry : AuditEntry where
  seq := 1
  time := epoch
  actorUid := 1000
  actorSid := none
  onBehalfOf := none
  action := "quarantine"
  item := none
  path := none
  sha256 := none
  outcome := "ok"
  detail := none
  prev := genesis

def quarantineLine : Bytes :=
  ("\x7b\"seq\":1,\"time\":\"1970-01-01T00:00:00Z\",\"actor_uid\":1000," ++
  "\"action\":\"quarantine\",\"outcome\":\"ok\",\"prev\":" ++
  "\"0000000000000000000000000000000000000000000000000000000000000000\"\x7d").toUTF8.data.toList

def quarantineSha256 : Sha256Digest :=
  ⟨[208, 67, 86, 133, 158, 91, 20, 225, 225, 108, 47, 91, 146, 38, 39, 9,
    126, 1, 253, 77, 30, 59, 214, 75, 94, 180, 7, 122, 117, 232, 245, 193], rfl⟩

def restoreEntry : AuditEntry :=
  { quarantineEntry with
    seq := 2
    action := "restore"
    prev := "d04356859e5b14e1e16c2f5b922627097e01fd4d1e3bd64b5eb4077a75e8f5c1" }

def restoreLine : Bytes :=
  ("\x7b\"seq\":2,\"time\":\"1970-01-01T00:00:00Z\",\"actor_uid\":1000," ++
  "\"action\":\"restore\",\"outcome\":\"ok\",\"prev\":" ++
  "\"d04356859e5b14e1e16c2f5b922627097e01fd4d1e3bd64b5eb4077a75e8f5c1\"\x7d").toUTF8.data.toList

def restoreSha256 : Sha256Digest :=
  ⟨[117, 29, 12, 55, 3, 17, 165, 98, 64, 97, 208, 83, 208, 9, 228, 231,
    188, 239, 17, 74, 23, 216, 55, 189, 28, 112, 62, 135, 65, 181, 34, 128], rfl⟩

def twoEntries : EntryCodec :=
  EntryCodec.ofTable [(quarantineEntry, quarantineLine), (restoreEntry, restoreLine)]
    (by decide) (by decide)

def twoDigests (line : Bytes) : Sha256Digest :=
  if line = quarantineLine then quarantineSha256 else restoreSha256

theorem audit_tamper_evident_two :
    ∃ log head ls, log = unlines newline ls ∧ ls.length = 2 ∧
      (auditChain twoDigests twoEntries log = .ok (numbered twoDigests 1 ls) ↔
        ∀ l ∈ ls, l.length ≤ maxLine) ∧
      ∀ other head', verifyChain twoDigests twoEntries other = .ok head' → head'.hash = head →
        other = log ∨ ∃ ms, other = unlines newline ms ∧ (∀ m ∈ ms, newline ∉ m) ∧
          (SharedDigest twoDigests ls ms ∨ GenesisDigest twoDigests ls ms) := by
  have hlog : encodeAll twoDigests twoEntries ChainHead.genesis
      [{ quarantineEntry with seq := 0, prev := "" }, { restoreEntry with seq := 0, prev := "" }] =
      .ok (unlines newline [quarantineLine, restoreLine],
        ⟨2, lineHash twoDigests restoreLine, some (lineHash twoDigests quarantineLine)⟩) := by
    decide +kernel
  obtain ⟨ls, hbytes, hls, hother, -, hread⟩ := audit_tamper_evident hlog
  have heq : [quarantineLine, restoreLine] = ls :=
    unlines_injective (by decide) hls hbytes
  exact ⟨_, _, ls, hbytes, by simp [← heq], hread, hother⟩

/-! ### An entry too long for the reader -/

def longEntry : AuditEntry :=
  { quarantineEntry with
    outcome := "error"
    detail := some (String.ofList (List.replicate maxLine 'a')) }

def longLineStart : Bytes :=
  ("\x7b\"seq\":1,\"time\":\"1970-01-01T00:00:00Z\",\"actor_uid\":1000," ++
  "\"action\":\"quarantine\",\"outcome\":\"error\",\"detail\":\"").toUTF8.data.toList

def longLineEnd : Bytes :=
  ("\",\"prev\":" ++
  "\"0000000000000000000000000000000000000000000000000000000000000000\"\x7d").toUTF8.data.toList

def longLine : Bytes := longLineStart ++ (List.replicate maxLine 0x61 ++ longLineEnd)

def longSha256 : Sha256Digest :=
  ⟨[252, 138, 217, 64, 147, 39, 144, 105, 65, 202, 187, 79, 136, 227, 5, 26,
    113, 115, 117, 26, 216, 86, 35, 74, 191, 104, 172, 179, 180, 56, 175, 35], rfl⟩

theorem longLine_newline : newline ∉ longLine := by
  rw [longLine, List.mem_append, List.mem_append, List.mem_replicate]
  decide

theorem longLine_length : maxLine < longLine.length := by
  have hpos : 0 < longLineStart.length := by decide
  rw [longLine, List.length_append, List.length_append, List.length_replicate]
  omega

/-- A codec that knows one line. -/
def EntryCodec.single (entry : AuditEntry) (line : Bytes) (hline : newline ∉ line) : EntryCodec :=
  EntryCodec.ofTable [(entry, line)] (List.nodup_singleton _) (by simpa using hline)

theorem EntryCodec.single_toVec {entry : AuditEntry} {line : Bytes} (hline : newline ∉ line) :
    (EntryCodec.single entry line hline).toVec entry = .ok line := by
  simp [EntryCodec.single, EntryCodec.ofTable]

def longCodec : EntryCodec := EntryCodec.single longEntry longLine longLine_newline

theorem encodeAll_longEntry : encodeAll (fun _ => longSha256) longCodec ChainHead.genesis [longEntry] =
    .ok (unlines newline [longLine], ChainHead.genesis.next (fun _ => longSha256) longLine) := by
  have hline : longCodec.toVec longEntry = .ok longLine := by
    rw [longCodec, EntryCodec.single_toVec]
  have hentry : encode (fun _ => longSha256) longCodec longEntry ChainHead.genesis =
      .ok (longLine ++ [newline], ChainHead.genesis.next (fun _ => longSha256) longLine) :=
    encode_of_toVec rfl rfl hline
  rw [encodeAll, hentry]
  simp [encodeAll, unlines, bind, Except.bind]

/-- A line over the limit is written and not read back; and were the SHA-256 of a line all zero, the log
of that line would have the head hash of the empty log. -/
theorem long_line_unreadable :
    (∃ log head, encodeAll (fun _ => longSha256) longCodec ChainHead.genesis [longEntry] =
        .ok (log, head) ∧ ∃ e, auditChain (fun _ => longSha256) longCodec log = .error e) ∧
      ∃ sha256 log other head', encodeAll sha256 twoEntries ChainHead.genesis [] =
          .ok (log, ChainHead.genesis) ∧
        verifyChain sha256 twoEntries other = .ok head' ∧ head'.hash = ChainHead.genesis.hash ∧
        other ≠ log ∧ ∀ ls ms, log = unlines newline ls → ¬ SharedDigest sha256 ls ms := by
  constructor
  · refine ⟨_, _, encodeAll_longEntry, ?_⟩
    cases hread : auditChain (fun _ => longSha256) longCodec (unlines newline [longLine]) with
    | error e => exact ⟨e, rfl⟩
    | ok pairs =>
      simp only [auditChain, except_map_eq_ok, walkChain_iff] at hread
      obtain ⟨_, ⟨ms, hbytes, hms, -, -⟩, -⟩ := hread
      -- the log would be read as the one line it is
      have heq : [longLine] = ms :=
        unlines_injective (by simpa using longLine_newline) (fun m hm => (hms m hm).1) hbytes
      have hlen := (hms longLine (by simp [← heq])).2
      exact absurd longLine_length (Nat.not_lt.mpr hlen)
  · refine ⟨fun _ => ⟨List.replicate 32 0, by decide⟩, [], unlines newline [quarantineLine],
      ⟨1, genesis, some genesis⟩, rfl, by decide +kernel, rfl, by decide +kernel, ?_⟩
    rintro ls ms hls ⟨l, hl, -⟩
    cases ls with
    | nil => simp at hl
    | cons l ls => simp [unlines] at hls

end AbyssalWarden

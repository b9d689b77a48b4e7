import AbyssalWarden.Framing
import AbyssalWarden.HashChain
import AbyssalWarden.Manifest
import AbyssalWarden.NativePath

/-! The hash-chained audit log: JSON lines, each carrying the SHA-256 of the line before it. -/
namespace AbyssalWarden

structure AuditEntry where
  seq : ℕ
  time : OffsetDateTime
  actorUid : ℕ
  actorSid : Option String
  onBehalfOf : Option String
  action : String
  item : Option String
  path : Option ObservedPath
  sha256 : Option Sha256Digest
  outcome : String
  detail : Option String
  prev : String
  deriving DecidableEq

inductive BrokenReason where
  | incomplete
  | notAnEntry (e : String)
  | sequence (found expected : ℕ)
  | mismatch
  deriving DecidableEq

inductive AuditError where
  | broken (line : ℕ) (reason : BrokenReason)
  | serialize (e : String)
  deriving DecidableEq

/-- Chain position after the last valid line. -/
structure ChainHead where
  seq : ℕ
  hash : String
  first : Option String
  deriving DecidableEq

def newline : UInt8 := 0x0A

/-- Compact JSON: no line feed stands in it, and what was written is read back. -/
structure EntryCodec where
  toVec : AuditEntry → Except String Bytes
  fromSlice : Bytes → Except String AuditEntry
  fromSlice_toVec : ∀ e line, toVec e = .ok line → fromSlice line = .ok e
  toVec_line : ∀ e line, toVec e = .ok line → newline ∉ line

/-- Rows of a table are found again by their second column. -/
theorem find_snd_of_find_fst {α β : Type} [DecidableEq α] [DecidableEq β] {table : List (α × β)}
    (hnodup : (table.map Prod.snd).Nodup) {a : α} {p : α × β} (h : table.find? (·.1 = a) = some p) :
    table.find? (·.2 = p.2) = some p := by
  have hmem := List.mem_of_find?_eq_some h
  cases hback : table.find? (·.2 = p.2) with
  | none =>
    have hnone := List.find?_eq_none.mp hback p hmem
    simp at hnone
  | some q =>
    have hq : q.2 = p.2 := by simpa using List.find?_some hback
    rw [List.inj_on_of_nodup_map hnodup (List.mem_of_find?_eq_some hback) hmem hq]

/-- A codec that knows the lines of a table. -/
def EntryCodec.ofTable (table : List (AuditEntry × Bytes)) (hnodup : (table.map Prod.snd).Nodup)
    (hlines : ∀ p ∈ table, newline ∉ p.2) : EntryCodec where
  toVec entry := match table.find? (·.1 = entry) with
    | some p => .ok p.2
    | none => .error "unknown entry"
  fromSlice line := match table.find? (·.2 = line) with
    | some p => .ok p.1
    | none => .error "unknown line"
  fromSlice_toVec entry line h := by
    cases hfind : table.find? (·.1 = entry) with
    | none => simp [hfind] at h
    | some p =>
      obtain rfl : p.2 = line := by simpa [hfind] using h
      have hentry : p.1 = entry := by simpa using List.find?_some hfind
      simp [find_snd_of_find_fst hnodup hfind, hentry]
  toVec_line entry line h := by
    cases hfind : table.find? (·.1 = entry) with
    | none => simp [hfind] at h
    | some p =>
      obtain rfl : p.2 = line := by simpa [hfind] using h
      exact hlines p (List.mem_of_find?_eq_some hfind)

def genesis : String := "0000000000000000000000000000000000000000000000000000000000000000"
def maxLine : ℕ := 256 * 1024

namespace ChainHead

def genesis : ChainHead := ⟨0, AbyssalWarden.genesis, none⟩

end ChainHead

variable (sha256 : Bytes → Sha256Digest) (codec : EntryCodec)

def lineHash (line : Bytes) : String := String.ofList (hexEncode (sha256 line).bytes)

/-- `head` with one more line. -/
def ChainHead.next (head : ChainHead) (line : Bytes) : ChainHead where
  seq := head.seq + 1
  hash := lineHash sha256 line
  first := head.first.or (some (lineHash sha256 line))

/-- Serialise `entry` (whose `seq` and `prev` are set from `head`) as one line, returning the line
(with newline) and the new head. -/
def encode (entry : AuditEntry) (head : ChainHead) : Except AuditError (Bytes × ChainHead) := do
  let line ← (codec.toVec { entry with seq := head.seq + 1, prev := head.hash }).mapError .serialize
  .ok (line ++ [newline], head.next sha256 line)

/-- The checks of one line, without its newline. -/
def checkLine (head : ChainHead) (line : Bytes) : Except AuditError ChainHead := do
  let lineno := head.seq + 1
  let broken := AuditError.broken lineno
  let entry ← (codec.fromSlice line).mapError (broken ∘ .notAnEntry)
  refuseIf (entry.seq ≠ lineno) (broken (.sequence entry.seq lineno))
  refuseIf (entry.prev ≠ head.hash) (broken .mismatch)
  .ok (head.next sha256 line)

/-- One line of the walk; `onEntry` sees its number and hash. -/
def walkLine {σ : Type} (onEntry : σ → ℕ → String → σ) (acc : ChainHead × σ) (line : Bytes) :
    Except AuditError (ChainHead × σ) := do
  let next ← checkLine sha256 codec acc.1 line
  .ok (next, onEntry acc.2 next.seq next.hash)

theorem readUntil_lt {bytes : Bytes} (h : (readUntil newline (maxLine + 1) bytes).1 ≠ []) :
    (readUntil newline (maxLine + 1) bytes).2.length < bytes.length := by
  have happ : ((readUntil newline (maxLine + 1) bytes).1 ++
      (readUntil newline (maxLine + 1) bytes).2).length = bytes.length :=
    congrArg List.length readUntil_append
  have hpos := List.length_pos_iff.mpr h
  rw [List.length_append] at happ
  omega

/-- Reads lines until the end, each checked against the head so far. -/
def walkChain {σ : Type} (onEntry : σ → ℕ → String → σ) (acc : ChainHead × σ) (bytes : Bytes) :
    Except AuditError (ChainHead × σ) :=
  if _h : (readUntil newline (maxLine + 1) bytes).1 = [] then .ok acc
  else
    if (readUntil newline (maxLine + 1) bytes).1.getLast? ≠ some newline then
      .error (.broken (acc.1.seq + 1) .incomplete)
    else
      match walkLine sha256 codec onEntry acc (readUntil newline (maxLine + 1) bytes).1.dropLast with
      | .error e => .error e
      | .ok acc => walkChain onEntry acc (readUntil newline (maxLine + 1) bytes).2
termination_by bytes.length
decreasing_by exact readUntil_lt _h

def verifyChain (bytes : Bytes) : Except AuditError ChainHead :=
  (walkChain sha256 codec (fun _ _ _ => ()) (ChainHead.genesis, ()) bytes).map Prod.fst

/-- Verify the whole chain and return every entry's sequence number and hash. -/
def auditChain (bytes : Bytes) : Except AuditError (List (ℕ × String)) :=
  (walkChain sha256 codec (fun out seq hash => out ++ [(seq, hash)]) (ChainHead.genesis, [])
    bytes).map Prod.snd

/-! ### What is accepted -/

variable {sha256 codec} {σ : Type} {onEntry : σ → ℕ → String → σ} {acc acc' : ChainHead × σ}

/-- A line as the reader takes it off: no newline in it, and not too long. -/
def ReadableLine (line : Bytes) : Prop := newline ∉ line ∧ line.length ≤ maxLine

theorem walkChain_nil : walkChain sha256 codec onEntry acc [] = .ok acc := by
  rw [walkChain]
  exact dif_pos rfl

theorem walkChain_line {line rest : Bytes} (hline : ReadableLine line) :
    walkChain sha256 codec onEntry acc (line ++ newline :: rest) =
      match walkLine sha256 codec onEntry acc line with
      | .error e => .error e
      | .ok acc => walkChain sha256 codec onEntry acc rest := by
  have hread : readUntil newline (maxLine + 1) (line ++ newline :: rest) = (line ++ [newline], rest) :=
    readUntil_line hline.1 (Nat.lt_succ_of_le hline.2)
  rw [walkChain, dif_neg (by simp [hread]), if_neg (by simp [hread]), hread]
  simp

/-- A log is accepted exactly when it consists of readable lines that pass their checks one after the
other. -/
theorem walkChain_eq_ok {bytes : Bytes} :
    walkChain sha256 codec onEntry acc bytes = .ok acc' ↔
      ∃ lines, bytes = unlines newline lines ∧ (∀ l ∈ lines, ReadableLine l) ∧
        checkEach (walkLine sha256 codec onEntry) acc lines = .ok acc' := by
  constructor
  · intro h
    -- on the length: each line that is read makes the rest shorter
    induction hn : bytes.length using Nat.strong_induction_on generalizing bytes acc with
    | _ n ih =>
      rw [walkChain] at h
      split at h
      · rename_i hempty
        cases h
        exact ⟨[], readUntil_nil hempty, by simp, rfl⟩
      · rename_i hne
        split at h
        · cases h
        · rename_i hlast
          -- the line ended in its line break, so it was read as a whole
          obtain ⟨l, hline, hl, hlen, hbytes⟩ := readUntil_getLast
            (rfl : readUntil newline (maxLine + 1) bytes = (_, _)) (Decidable.not_not.mp hlast)
          have hlt := readUntil_lt hne
          rw [hline, List.dropLast_concat] at h
          split at h
          · cases h
          · rename_i next hnext
            obtain ⟨lines, hrest, hlines, hcheck⟩ := ih _ (hn ▸ hlt) h rfl
            refine ⟨l :: lines, ?_, ?_, checkEach_cons_eq_ok.mpr ⟨next, hnext, hcheck⟩⟩
            · rw [unlines_cons, ← hrest]
              exact hbytes
            · rw [List.forall_mem_cons]
              exact ⟨⟨hl, Nat.lt_succ_iff.mp hlen⟩, hlines⟩
  · rintro ⟨lines, rfl, hlines, hcheck⟩
    induction lines generalizing acc with
    | nil =>
      cases hcheck
      exact walkChain_nil
    | cons l lines ih =>
      rw [List.forall_mem_cons] at hlines
      obtain ⟨next, hl, hrest⟩ := checkEach_cons_eq_ok.mp hcheck
      rw [unlines_cons, walkChain_line hlines.1, hl]
      exact ih hlines.2 hrest

end AbyssalWarden

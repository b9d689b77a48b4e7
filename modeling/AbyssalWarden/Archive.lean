import AbyssalWarden.Manifest
import AbyssalWarden.NativePath

/-! ZIP archives are expanded in memory: every member is decompressed, hashed and handed to the
scanner, and a member that is itself a ZIP is expanded in turn, all within one budget for the file
on disk. The ZIP library is taken as given: what it lists and what its readers return. -/
namespace AbyssalWarden

/-- `archive::CHUNK`: the buffer one `read` fills. -/
def archiveChunk : ℕ := 64 * 1024

/-- `looks_like_zip`: a local file header, an empty archive or a spanned-archive marker. -/
def looksLikeZip (data : Bytes) : Bool :=
  [0x50, 0x4B, 0x03, 0x04].isPrefixOf data || [0x50, 0x4B, 0x05, 0x06].isPrefixOf data ||
    [0x50, 0x4B, 0x07, 0x08].isPrefixOf data

structure ArchiveLimits where
  enabled : Bool
  maxDepth : ℕ
  maxEntries : ℕ
  maxTotalBytes : ℕ
  maxMemberContent : ℕ
  deriving DecidableEq

/-- The part of `ScanConfig::validate` about archives; the error is the `ZeroLimit`'s field. -/
def ArchiveLimits.validate (a : ArchiveLimits) : Except String Unit :=
  if a.enabled then
    if a.maxDepth = 0 then .error "archives.max_depth"
    else if a.maxEntries = 0 then .error "archives.max_entries"
    else if a.maxTotalBytes = 0 then .error "archives.max_total_bytes"
    else if a.maxMemberContent = 0 then .error "archives.max_member_content"
    else .ok ()
  else .ok ()

/-- Why an entry was not scanned. -/
inductive SkipReason where
  | symlinkNotFollowed
  | notRegularFile
  | exceedsMaxFileSize
  | excluded
  | depthLimitReached
  | duplicateFile
  | archiveTooLarge
  | archiveLimitReached
  | archiveMemberEncrypted
  | archiveMemberUnsupported
  | contentNotInspected
  deriving DecidableEq

inductive ZipErrorKind where
  | unsupportedArchive
  | compressionMethodNotSupported
  | other
  deriving DecidableEq

/-- A `ZipError` and how it is displayed. -/
structure ZipError where
  kind : ZipErrorKind
  display : String

/-- What `by_index_raw` tells about an entry. -/
structure RawEntry where
  name : String
  nameRaw : Bytes
  encrypted : Bool
  isDir : Bool
  isSymlink : Bool

/-- What one `read` of a member returns before the end of its data. -/
inductive ReadResult where
  | data (bytes : Bytes) (nonempty : bytes ≠ []) (fits : bytes.length ≤ archiveChunk)
  | interrupted
  | failed (display : String)

/-- The bytes a sequence of reads gives, when none of them fails. -/
def readBytes : List ReadResult → Option Bytes
  | [] => some []
  | .data bytes _ _ :: rest => (readBytes rest).map (bytes ++ ·)
  | .interrupted :: rest => readBytes rest
  | .failed _ :: _ => none

/-- An entry of an archive: what `by_index_raw` and `by_index` return for it, and what it holds. A
reader that reports no error has returned just that. -/
structure ZipEntry where
  raw : Except ZipError RawEntry
  opened : Except ZipError (List ReadResult)
  content : Bytes
  sound : ∀ reads bytes, opened = .ok reads → readBytes reads = some bytes → bytes = content

/-- `member_name` -/
def memberName (decoded : String) (raw : Bytes) : ObservedPath :=
  ⟨decoded, if (fromUtf8 raw).isNone then some (String.ofList (hexEncode raw)) else none⟩

def RawEntry.memberName (raw : RawEntry) : ObservedPath := AbyssalWarden.memberName raw.name raw.nameRaw

/-- `archive::Event` -/
inductive ArchiveEvent where
  | member (chain : List ObservedPath) (sha256 : Sha256Digest) (size : ℕ) (content : Option Bytes)
  | skipped (chain : List ObservedPath) (reason : SkipReason)
  | error (chain : List ObservedPath) (message : String)
  deriving DecidableEq

def ArchiveEvent.isMember : ArchiveEvent → Bool
  | .member .. => true
  | _ => false

/-- `archive::Stop` -/
inductive ArchiveStop where
  | cancelled
  | deadline
  deriving DecidableEq

/-- How a call ends. The last two are no results of the code: a subtraction from the budget that
would go below zero, and a recursion that was given too little fuel here. -/
inductive Expanded where
  | ok
  | stop (s : ArchiveStop)
  | underflow
  | unfinished
  deriving DecidableEq

/-- The `Expander`'s settings and what it runs on: the ZIP library, the digest, and what the
successive calls of `check` find. -/
structure Expander where
  limits : ArchiveLimits
  maxMemberSize : ℕ
  openZip : Bytes → Except ZipError (List ZipEntry)
  sha256 : Bytes → Sha256Digest
  halted : ℕ → Option ArchiveStop

/-- The state of an expansion. `place` holds the loop indices of the archives that are open, one for
each name of `chain`; an event is logged with the place it was reported at. -/
structure Expansion where
  budgetLeft : ℕ
  budgetReported : Bool
  chain : List ObservedPath
  place : List ℕ
  checks : ℕ
  decompressed : ℕ
  log : List (List ℕ × ArchiveEvent)
  deriving DecidableEq

namespace Expansion

def visit (event : ArchiveEvent) (run : Expansion) : Expansion :=
  { run with log := run.log ++ [(run.place, event)] }

/-- `chain.push(name)` -/
def push (name : ObservedPath) (index : ℕ) (run : Expansion) : Expansion :=
  { run with chain := run.chain ++ [name], place := run.place ++ [index] }

/-- `chain.pop()` -/
def pop (run : Expansion) : Expansion :=
  { run with chain := run.chain.dropLast, place := run.place.dropLast }

/-- `self.budget_left -= total`, where it does not underflow. -/
def spend (total : ℕ) (run : Expansion) : Option Expansion :=
  if total ≤ run.budgetLeft then some { run with budgetLeft := run.budgetLeft - total } else none

/-- The events in the order they were delivered. -/
def events (run : Expansion) : List ArchiveEvent := run.log.map Prod.snd

end Expansion

/-- The locals of `member` while it reads; `hashed` is what the hasher was given. -/
structure MemberRead where
  content : Bytes
  keep : Bool
  hashed : Bytes
  total : ℕ

/-- How a `read` in the loop leaves it: for another turn, or out of `member`. -/
inductive ReadTurn where
  | again (m : MemberRead)
  | returned (outcome : Expanded)

inductive ReadEnd where
  | finished (m : MemberRead)
  | returned (outcome : Expanded)

namespace Expander

variable (x : Expander)

/-- `Expander::new` -/
def new : Expansion := ⟨x.limits.maxTotalBytes, false, [], [], 0, 0, []⟩

def check (run : Expansion) : Option ArchiveStop × Expansion :=
  (x.halted run.checks, { run with checks := run.checks + 1 })

/-- The body of the loop of `member`, after its `check`. -/
def readTurn (m : MemberRead) (run : Expansion) : ReadResult → Expansion × ReadTurn
  | .interrupted => (run, .again m)
  | .failed e =>
    -- what was read of the member is paid for
    let run := run.visit (.error run.chain ("corrupt member: " ++ e))
    ({ run with budgetLeft := run.budgetLeft - m.total }, .returned .ok)
  | .data bytes _ _ =>
    let run := { run with decompressed := run.decompressed + bytes.length }
    let total := m.total + bytes.length
    -- the budget of the whole file comes before the limit of one member
    if run.budgetLeft < total then
      let run := { run with budgetLeft := 0, budgetReported := true }
      (run.visit (.skipped run.chain .archiveLimitReached), .returned .ok)
    else if x.maxMemberSize < total then
      match run.spend total with
      | none => (run, .returned .underflow)
      | some run => (run.visit (.skipped run.chain .exceedsMaxFileSize), .returned .ok)
    else
      let hashed := m.hashed ++ bytes
      -- content is kept up to a limit, and hashed in any case
      if m.keep then
        if x.limits.maxMemberContent < total then (run, .again ⟨[], false, hashed, total⟩)
        else (run, .again ⟨m.content ++ bytes, true, hashed, total⟩)
      else (run, .again ⟨m.content, false, hashed, total⟩)

/-- The loop of `member`. -/
def readLoop : List ReadResult → MemberRead → Expansion → Expansion × ReadEnd
  | [], m, run =>
    match x.check run with
    | (some s, run) => (run, .returned (.stop s))
    | (none, run) => (run, .finished m)
  | read :: rest, m, run =>
    match x.check run with
    | (some s, run) => (run, .returned (.stop s))
    | (none, run) =>
      match x.readTurn m run read with
      | (run, .again m) => readLoop rest m run
      | (run, .returned outcome) => (run, .returned outcome)

/-- The end of `member`: the member is delivered, and expanded by `nested` if it is a ZIP itself. -/
def deliver (nested : Bytes → ℕ → Expansion → Expansion × Expanded) (depth : ℕ) (m : MemberRead)
    (run : Expansion) : Expansion × Expanded :=
  match run.spend m.total with
  | none => (run, .underflow)
  | some run =>
    let run := run.visit
      (.member run.chain (x.sha256 m.hashed) m.total (if m.keep then some m.content else none))
    if m.keep && looksLikeZip m.content then
      if depth < x.limits.maxDepth then nested m.content (depth + 1) run
      else (run.visit (.skipped run.chain .archiveLimitReached), .ok)
    else (run, .ok)

/-- `Expander::member` -/
def member (nested : Bytes → ℕ → Expansion → Expansion × Expanded) (depth : ℕ) (entry : ZipEntry)
    (run : Expansion) : Expansion × Expanded :=
  match entry.opened with
  | .error e =>
    match e.kind with
    | .unsupportedArchive | .compressionMethodNotSupported =>
      (run.visit (.skipped run.chain .archiveMemberUnsupported), .ok)
    | .other => (run.visit (.error run.chain ("unreadable member: " ++ e.display)), .ok)
  | .ok reads =>
    match x.readLoop reads ⟨[], true, [], 0⟩ run with
    | (run, .returned outcome) => (run, outcome)
    | (run, .finished m) => x.deliver nested depth m run

/-- The body of the loop of `expand`, after the test of the budget. -/
def expandEntry (nested : Bytes → ℕ → Expansion → Expansion × Expanded) (depth index : ℕ)
    (entry : ZipEntry) (run : Expansion) : Expansion × Expanded :=
  match entry.raw with
  | .error e =>
    (run.visit (.error run.chain ("unreadable entry #" ++ toString index ++ ": " ++ e.display)), .ok)
  | .ok raw =>
    -- a directory entry is passed over without an event
    if raw.isDir then (run, .ok)
    else
      -- the entry's name is on the chain while the entry is visited
      let run := run.push raw.memberName index
      let (run, outcome) :=
        if raw.encrypted then (run.visit (.skipped run.chain .archiveMemberEncrypted), .ok)
        else if raw.isSymlink then (run.visit (.skipped run.chain .archiveMemberUnsupported), .ok)
        else x.member nested depth entry run
      (run.pop, outcome)

/-- The loop of `expand` from `index` on. -/
def expandEntries (nested : Bytes → ℕ → Expansion → Expansion × Expanded) (depth : ℕ) :
    ℕ → List ZipEntry → Expansion → Expansion × Expanded
  | _, [], run => (run, .ok)
  | index, entry :: rest, run =>
    match x.check run with
    | (some s, run) => (run, .stop s)
    | (none, run) =>
      if run.budgetLeft = 0 then
        if run.budgetReported then (run, .ok)
        else
          let run := { run with budgetReported := true }
          (run.visit (.skipped run.chain .archiveLimitReached), .ok)
      else
        match x.expandEntry nested depth index entry run with
        | (run, .ok) => expandEntries nested depth (index + 1) rest run
        | (run, outcome) => (run, outcome)

/-- `Expander::expand`; the fuel is for the archives inside archives. -/
def expand : ℕ → Bytes → ℕ → Bool → Expansion → Expansion × Expanded
  | 0, _, _, _, run => (run, .unfinished)
  | fuel + 1, data, depth, strict, run =>
    match x.openZip data with
    -- only what is known to be an archive is reported as unreadable
    | .error e =>
      (if strict then run.visit (.error run.chain ("not a readable ZIP archive: " ++ e.display))
        else run, .ok)
    | .ok entries =>
      -- entries beyond the limit are reported once, before the others are read
      let run := if x.limits.maxEntries < entries.length then
        run.visit (.skipped run.chain .archiveLimitReached) else run
      x.expandEntries (fun data depth => expand fuel data depth true) depth 0
        (entries.take x.limits.maxEntries) run

/-- `Expander::expand_file` of a new expander. -/
def expandFile (fuel : ℕ) (data : Bytes) : Expansion × Expanded :=
  x.expand fuel data 1 (looksLikeZip data) x.new

end Expander

/-- A file entry whose content comes in one read. -/
def plainEntry (name : String) (content : Bytes) (hne : content ≠ []) (hfits : content.length ≤ archiveChunk) :
    ZipEntry where
  raw := .ok ⟨name, utf8Bytes name, false, false, false⟩
  opened := .ok [.data content hne hfits]
  content := content
  sound := by
    intro reads bytes hreads hbytes
    rw [← Except.ok.inj hreads, readBytes, readBytes, Option.map_some, List.append_nil] at hbytes
    exact (Option.some.inj hbytes).symm

/-- A file that holds only the signature of a ZIP. -/
def zipSignature : Bytes := [0x50, 0x4B, 0x03, 0x04]

def smallLimits : ArchiveLimits := ⟨true, 3, 10, 100, 50⟩

end AbyssalWarden

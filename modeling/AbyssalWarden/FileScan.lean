import AbyssalWarden.Aggregator
import AbyssalWarden.ArchiveBounds

/-! What a worker does with a file: it is opened, checked and read once, given to every detector, and expanded if it
may hold a ZIP archive. What the system and the detectors answer is given with the file. -/
namespace AbyssalWarden

/-! ### Reading a file -/

/-- A modification time: seconds since the epoch, and nanoseconds on top. -/
structure SystemTime where
  secs : ℤ
  nanos : ℕ
  secs_range : -2^63 ≤ secs ∧ secs < 2^63
  nanos_lt : nanos < 10^9

/-- `OffsetDateTime::from`; `none` is its panic. -/
def SystemTime.toOffsetDateTime (t : SystemTime) : Option OffsetDateTime := epoch.add (t.secs * 10^9 + t.nanos)

inductive FileType where
  | regular
  | symlink
  | other
  deriving DecidableEq

structure Metadata where
  fileType : FileType
  len : ℕ
  modified : Option SystemTime
  mode : ℕ
  dev : ℕ
  ino : ℕ

inductive IoErrorKind where
  | permissionDenied
  | notFound
  | other
  deriving DecidableEq

structure IoError where
  errno : Option ℕ
  kind : IoErrorKind
  display : String
  deriving DecidableEq

/-- `ELOOP` or `EMLINK` -/
def IoError.isSymlinkRefusal (e : IoError) : Bool := e.errno = some 40 || e.errno = some 31

/-- cap-std's refusal to let resolution leave the base directory. -/
def IoError.isEscapeRefusal (e : IoError) : Bool :=
  e.kind = .permissionDenied && e.display = "a path led outside of the filesystem"

/-- What one `read` returns before the end of the file. -/
inductive FileRead where
  | data (bytes : Bytes) (nonempty : bytes ≠ []) (fits : bytes.length ≤ 64 * 1024)
  | interrupted
  | failed (e : IoError)

inductive Halt where
  | cancelled
  | deadline
  deriving DecidableEq

/-- An open file: its metadata, its reads, and what the checks between them find. -/
structure OpenFile where
  metadata : Except IoError Metadata
  reads : List FileRead
  halted : ℕ → Option Halt

inductive HashFileError where
  | skipped (reason : SkipReason)
  | cancelled
  | timedOut (bytesRead : ℕ)
  | io (e : IoError)

structure HashedFile where
  sha256 : Sha256Digest
  metadata : FileMetadata

structure ReadOptions where
  maxSize : ℕ
  contentLimit : Option ℕ
  /-- Files already scanned, when links are followed. -/
  seen : Option (List (ℕ × ℕ))
  keepOnlyArchives : Bool

structure ReadOutcome where
  hashed : HashedFile
  content : Bytes
  hasContent : Bool
  zipMagic : Bool

/-- The locals of the read loop. -/
structure ReadState where
  content : Bytes
  keep : Bool
  zipMagic : Bool
  hashed : Bytes
  total : ℕ

/-- A ZIP, or a Windows executable, which may have one appended. -/
def mayContainZip (data : Bytes) : Bool := looksLikeZip data || [0x4D, 0x5A].isPrefixOf data

/-- One chunk; of the file at most one byte more is read than the limit allows. -/
def readChunk (opts : ReadOptions) (st : ReadState) (bytes : Bytes) : Except HashFileError ReadState :=
  let chunk := bytes.take (opts.maxSize + 1 - st.total)
  let zipMagic := if st.total = 0 then looksLikeZip chunk else st.zipMagic
  let keep := st.keep && !(st.total = 0 && opts.keepOnlyArchives && !mayContainZip chunk)
  let total := st.total + chunk.length
  if total > opts.maxSize then .error (.skipped .exceedsMaxFileSize)
  else
    let hashed := st.hashed ++ chunk
    if keep then
      if opts.contentLimit.any (total > ·) then .ok ⟨[], false, zipMagic, hashed, total⟩
      else .ok ⟨st.content ++ chunk, true, zipMagic, hashed, total⟩
    else .ok ⟨st.content, false, zipMagic, hashed, total⟩

/-- The loop of `read_file`. -/
def readLoop (opts : ReadOptions) (halted : ℕ → Option Halt) :
    List FileRead → ℕ → ReadState → Except HashFileError ReadState
  | reads, i, st =>
    match halted i with
    | some .cancelled => .error .cancelled
    | some .deadline => .error (.timedOut st.total)
    | none =>
      match reads with
      | [] => .ok st
      | .interrupted :: rest => readLoop opts halted rest (i + 1) st
      | .failed e :: _ => .error (.io e)
      | .data bytes _ _ :: rest =>
        match readChunk opts st bytes with
        | .error e => .error e
        | .ok st => readLoop opts halted rest (i + 1) st

/-- The end of `read_file`: the digest, and the metadata with its time converted; `none` is a panic. -/
def hashedFile (sha256 : Bytes → Sha256Digest) (stat : Metadata) (st : ReadState) : Option ReadOutcome :=
  let outcome (modified : Option OffsetDateTime) : ReadOutcome :=
    ⟨⟨sha256 st.hashed, ⟨st.total, modified, some (stat.mode % 0o10000)⟩⟩, st.content, st.keep, st.zipMagic⟩
  match stat.modified with
  | none => some (outcome none)
  | some t => t.toOffsetDateTime.map fun modified => outcome (some modified)

/-- `read_file` from its buffer on, for a regular file within the limit. -/
def readOpened (sha256 : Bytes → Sha256Digest) (opts : ReadOptions) (file : OpenFile) (stat : Metadata) :
    Option (Except HashFileError ReadOutcome) :=
  let contentLimit := opts.contentLimit.filter (stat.len ≤ ·)
  match readLoop { opts with contentLimit := contentLimit } file.halted file.reads 0
      ⟨[], contentLimit.isSome, false, [], 0⟩ with
  | .error e => some (.error e)
  | .ok st => (hashedFile sha256 stat st).map .ok

/-- `read_file`; `none` is a panic. -/
def Fsio.readFile (sha256 : Bytes → Sha256Digest) (opts : ReadOptions) (opened : Except IoError OpenFile) :
    Option (Except HashFileError ReadOutcome) :=
  match opened with
  | .error e =>
    if e.isSymlinkRefusal || e.isEscapeRefusal then some (.error (.skipped .symlinkNotFollowed))
    else some (.error (.io e))
  | .ok file =>
    match file.metadata with
    | .error e => some (.error (.io e))
    | .ok stat =>
      if stat.fileType = .symlink then some (.error (.skipped .symlinkNotFollowed))
      else if stat.fileType ≠ .regular then some (.error (.skipped .notRegularFile))
      else if stat.len > opts.maxSize then some (.error (.skipped .exceedsMaxFileSize))
      else if opts.seen.any ((stat.dev, stat.ino) ∈ ·) then some (.error (.skipped .duplicateFile))
      else readOpened sha256 opts file stat

/-! ### Evaluating a file -/

/-- What a detector makes of an observation; its panic is caught. -/
inductive Inspection where
  | found (findings : List Finding)
  | failed (message : String)
  | panicked

structure FileObservation where
  path : NativePath
  sha256 : Sha256Digest
  metadata : FileMetadata
  content : Option Bytes
  member : Option (List ObservedPath)

/-- The `FindingTarget` describing this file, or this archive member. -/
def FileObservation.target (obs : FileObservation) : FindingTarget :=
  match obs.member with
  | none => .file (ObservedPath.fromPath obs.path) (some obs.sha256) (some obs.metadata)
  | some chain => .archiveMember (ObservedPath.fromPath obs.path) chain (some obs.sha256) obs.metadata.size

structure ScanDetector where
  info : DetectorInfo
  content : Bool

/-- What all workers of a scan share. -/
structure WorkerCtx where
  detectors : List ScanDetector
  maxFileSize : ℕ
  maxContentSize : ℕ
  fileTimeoutMs : ℕ
  archives : ArchiveLimits
  sha256 : Bytes → Sha256Digest
  openZip : Bytes → Except ZipError (List ZipEntry)

/-- A file on the work queue and what it meets: how it opens, what the shared set holds then, what the detectors
make of its observations (the file is the first, its members follow), and what the checks of the clock and of the
stop signal find in turn. A panic of the ZIP library comes after some of the events. -/
structure WorkItem where
  path : NativePath
  opened : Except IoError OpenFile
  seen : Option (List (ℕ × ℕ))
  inspect : ℕ → ℕ → FileObservation → Inspection
  inspectHalted : ℕ → ℕ → Option Halt
  expandHalted : ℕ → Option ArchiveStop
  expandPanic : Option ℕ
  /-- The stop signal is set when the file is taken from the queue. -/
  stopped : Bool
  /-- The watchdog gave up the worker while it had the file. -/
  abandoned : Bool
  /-- The coordinator still receives messages. -/
  heard : Bool

structure FileResult where
  findings : List Finding
  issues : List ScanIssue
  skips : List (SkipReason × Option (List ObservedPath))
  members : ℕ

def ioIssue (path : Option NativePath) (e : IoError) : ScanIssue :=
  ⟨path.map ObservedPath.fromPath,
    match e.kind with
    | .permissionDenied => .permissionDenied
    | .notFound => .notFound
    | .other => .io,
    none, e.display, none⟩

/-- The loop of `run_detectors` from detector `i` on; `none` is the cancelled scan. -/
def runDetectorsFrom (ctx : WorkerCtx) (item : WorkItem) (index : ℕ) (obs : FileObservation) :
    List ScanDetector → ℕ → Bool → FileResult → Option (Bool × FileResult)
  | [], _, contentSkipped, out => some (contentSkipped, out)
  | detector :: rest, i, contentSkipped, out =>
    let issue (kind : IssueKind) (id : Option String) (message : String) : FileResult :=
      { out with issues := out.issues ++ [⟨some (ObservedPath.fromPath obs.path), kind, id, message, obs.member⟩] }
    match item.inspectHalted index i with
    | some .cancelled => none
    | some .deadline =>
      some (contentSkipped, issue .timeout none ("the " ++ toString ctx.fileTimeoutMs ++
        " ms per-file limit was reached; detectors not run: " ++
          ", ".intercalate ((detector :: rest).map (·.info.id))))
    | none =>
      -- a detector that needs content is left out for a file that was not kept
      if detector.content && obs.content.isNone then runDetectorsFrom ctx item index obs rest (i + 1) true out
      else
        match item.inspect index i obs with
        | .found findings =>
          runDetectorsFrom ctx item index obs rest (i + 1) contentSkipped
            { out with findings := out.findings ++ findings }
        | .failed message =>
          runDetectorsFrom ctx item index obs rest (i + 1) contentSkipped
            (issue .detectorFailed (some detector.info.id) message)
        -- the panic is caught, and the next detectors run
        | .panicked =>
          runDetectorsFrom ctx item index obs rest (i + 1) contentSkipped
            (issue .detectorFailed (some detector.info.id)
              "detector panicked; its results for this file are missing")

/-- Evaluate one observation with every detector. -/
def runDetectors (ctx : WorkerCtx) (item : WorkItem) (index : ℕ) (obs : FileObservation) (out : FileResult) :
    Option FileResult :=
  (runDetectorsFrom ctx item index obs ctx.detectors 0 false out).map fun (contentSkipped, out) =>
    if contentSkipped then { out with skips := out.skips ++ [(.contentNotInspected, obs.member)] } else out

def WorkerCtx.wantsContent (ctx : WorkerCtx) : Bool := ctx.detectors.any ScanDetector.content

def chainOf (chain : List ObservedPath) : Option (List ObservedPath) := if chain = [] then none else some chain

/-- The callback of `expand_archive`: the scan may turn out to be cancelled, and the expansion goes on. -/
def visitEvent (ctx : WorkerCtx) (item : WorkItem) (cancelled : Bool) (out : FileResult) :
    ArchiveEvent → Bool × FileResult
  | .member chain sha256 size content =>
    let out := { out with members := out.members + 1 }
    let obs : FileObservation :=
      ⟨item.path, sha256, ⟨size, none, none⟩, content.filter fun _ => ctx.wantsContent, some chain⟩
    match runDetectors ctx item out.members obs out with
    | some out => (cancelled, out)
    | none => (true, out)
  | .skipped chain reason => (cancelled, { out with skips := out.skips ++ [(reason, chainOf chain)] })
  | .error chain message =>
    (cancelled, { out with
      issues := out.issues ++ [⟨some (ObservedPath.fromPath item.path), .archiveError, none, message, chainOf chain⟩] })

def WorkItem.expander (ctx : WorkerCtx) (item : WorkItem) : Expander :=
  ⟨ctx.archives, ctx.maxFileSize, ctx.openZip, ctx.sha256, item.expandHalted⟩

/-- Expand an archive held in memory and evaluate every member; `none` is the cancelled scan. -/
def expandArchive (ctx : WorkerCtx) (item : WorkItem) (bytes : Bytes) (out : FileResult) : Option FileResult :=
  let (run, result) := (item.expander ctx).expandFile (item.expander ctx).levels bytes
  let events := match item.expandPanic with
    | none => run.events
    | some n => run.events.take n
  let (cancelled, out) := events.foldl (fun (cancelled, out) event => visitEvent ctx item cancelled out event)
    (false, out)
  let issue (kind : IssueKind) (message : String) : FileResult :=
    { out with issues := out.issues ++ [⟨some (ObservedPath.fromPath item.path), kind, none, message, none⟩] }
  let panicked := issue .archiveError "the archive parser panicked; remaining members were not inspected"
  let out := match item.expandPanic, result with
    | some _, _ => some panicked
    | none, .ok => some out
    | none, .stop .cancelled => none
    | none, .stop .deadline =>
      some (issue .timeout ("archive expansion stopped at the " ++ toString ctx.fileTimeoutMs ++
        " ms per-file limit; remaining members were not inspected"))
    | none, .underflow => some panicked
    | none, .unfinished => some out
  if cancelled then none else out

/-! ### The worker -/

def WorkItem.options (ctx : WorkerCtx) (item : WorkItem) : ReadOptions where
  maxSize := ctx.maxFileSize
  contentLimit := if ctx.wantsContent || ctx.archives.enabled then some ctx.maxContentSize else none
  seen := item.seen
  keepOnlyArchives := ctx.archives.enabled && !ctx.wantsContent

/-- What is made of a file that was read; no message for a cancelled scan. -/
def evaluateFile (ctx : WorkerCtx) (item : WorkItem) (read : ReadOutcome) : Option Msg :=
  let data := if read.hasContent then some read.content else none
  let obs : FileObservation :=
    ⟨item.path, read.hashed.sha256, read.hashed.metadata, data.filter fun _ => ctx.wantsContent, none⟩
  match runDetectors ctx item 0 obs ⟨[], [], [], 0⟩ with
  | none => none
  | some out =>
    let out := if ctx.archives.enabled then
      match data with
      | some bytes => if mayContainZip bytes then expandArchive ctx item bytes out else some out
      | none =>
        if read.zipMagic then some { out with skips := out.skips ++ [(.archiveTooLarge, none)] } else some out
      else some out
    out.map fun out =>
      .scanned item.path read.hashed.metadata.size out.findings out.issues out.skips out.members

/-- `process_file`; `none` is a panic. -/
def processFile (ctx : WorkerCtx) (item : WorkItem) : Option (Option Msg) :=
  (Fsio.readFile ctx.sha256 (item.options ctx) item.opened).map fun
    | .ok read => evaluateFile ctx item read
    | .error .cancelled => none
    | .error (.skipped reason) => some (.skipped item.path reason)
    | .error (.io e) => some (.issue (ioIssue (some item.path) e))
    | .error (.timedOut bytesRead) =>
      some (.issue ⟨some (ObservedPath.fromPath item.path), .timeout, none,
        "time limit exceeded after reading " ++ toString bytesRead ++ " bytes; the " ++ toString ctx.fileTimeoutMs ++
          " ms per-file limit was reached, so the file was not evaluated", none⟩)

/-- What a worker has sent when its thread ends, and whether it ended in a panic. -/
structure WorkerRun where
  sent : List Msg
  panicked : Bool

/-- `worker_main` on the files it takes from the queue. -/
def workerMain (ctx : WorkerCtx) : List WorkItem → WorkerRun
  | [] => ⟨[], false⟩
  | item :: rest =>
    if item.stopped then workerMain ctx rest
    else
      match processFile ctx item with
      | none => ⟨[], true⟩
      | some msg =>
        if item.abandoned then ⟨[], false⟩
        else
          match msg with
          | none => workerMain ctx rest
          | some msg =>
            if item.heard then
              let run := workerMain ctx rest
              ⟨msg :: run.sent, run.panicked⟩
            else ⟨[], false⟩

inductive ScanError where
  | threadSpawn
  | threadPanicked
  deriving DecidableEq

/-- The end of `scan`: the report of the messages, in the order they were received, if no thread panicked. -/
def Scanner.join (scanner : Scanner) (runs : List WorkerRun) (received : List Msg) : Except ScanError ScanReport :=
  if runs.any WorkerRun.panicked then .error .threadPanicked
  else .ok (scanner.report [] .completed none 0 received)

end AbyssalWarden

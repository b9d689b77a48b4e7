import AbyssalWarden.AuditLog
import AbyssalWarden.QuarantineOpen

/-! Whole runs of the store: it is opened, called, stopped in the middle and opened again. -/
namespace AbyssalWarden

/-- A machine with the store open on it, or not. -/
structure StoreState where
  disk : Disk
  store : Option QuarantineStore

inductive StoreOp where
  | quarantine (req : QuarantineRequest) (d : Draws)
  | restore (id : QuarantineId) (destDir : Option NativePath) (d : Draws)
  | delete (id : QuarantineId) (d : Draws)

/-- Something that happens to the store, and what happens to its calls meanwhile. -/
inductive StoreEvent where
  | reopen (now : Now) (faults : List (Fault Errno))
  | call (op : StoreOp) (faults : List (Fault Errno))

/-- The identifiers that are drawn. -/
def StoreEvent.drawn : StoreEvent → List QuarantineId
  | .call (.quarantine _ d) _ => [d.id]
  | _ => []

variable (host : Host)

namespace Host

/-- An operation on an open store. What it returns to its caller is left out. -/
def callOp (store : QuarantineStore) : StoreOp → Prog storeSystem Empty QuarantineStore
  | .quarantine req d => do
    let (store, _) ← host.quarantine store req d
    pure store
  | .restore id destDir d => do
    let (store, _) ← host.restore store id destDir d
    pure store
  | .delete id d => do
    let (store, _) ← host.delete store id d
    pure store

/-- A process that is stopped, or fails to open the store, leaves it closed. -/
def step (mayFail : StoreCall → Bool) (s : StoreState) : StoreEvent → StoreState
  | .reopen now faults =>
    match (host.openStore now).run mayFail faults s.disk with
    | (.ok store, disk) => ⟨disk, some store⟩
    | (.error _, disk) => ⟨disk, none⟩
    | (.stopped, disk) => ⟨disk, none⟩
  | .call op faults =>
    match s.store with
    | none => s
    | some store =>
      match (host.callOp store op).run mayFail faults s.disk with
      | (.ok store, disk) => ⟨disk, some store⟩
      | (.error e, _) => e.elim
      | (.stopped, disk) => ⟨disk, none⟩

def runEvents (mayFail : StoreCall → Bool) (s : StoreState) (evs : List StoreEvent) : StoreState :=
  evs.foldl (host.step mayFail) s

end Host

/-- A machine without a store yet. -/
def StoreState.Fresh (s : StoreState) : Prop := s.disk.items = ∅ ∧ s.store = none

/-! ### A sample store -/

def samplePath : NativePath := NativePath.ofString "/home/user/sample.bin"

def sampleKey : FileKey := ["home", "user", "sample.bin"].map NativePath.ofString

/-- A file of two bytes. -/
def sampleFile : FileNode where
  kind := .regular
  content := [0x4D, 0x5A]
  dev := 1
  ino := 7
  mode := 0o100644
  uid := 1000
  gid := 1000
  nlink := 1
  mtime := 0

def sampleSha256 : Sha256Digest :=
  ⟨[155, 141, 181, 16, 239, 66, 184, 237, 84, 163, 113, 38, 54, 253, 165, 90,
    79, 140, 252, 213, 73, 62, 32, 183, 74, 176, 12, 212, 243, 151, 159, 45], rfl⟩

def sampleId : QuarantineId := ⟨"0123456789abcdef0123456789abcdef", by decide⟩

def sampleNow : Now := ⟨epoch, by decide⟩

def sampleDraws : Draws where
  id := sampleId
  key := ⟨(List.range 32).map UInt8.ofNat, by decide⟩
  users := []
  pauseProblems := []
  killProblems := []
  dev := 1
  inode := 8
  gid := 0
  mtime := 0
  now := sampleNow
  later := sampleNow
  audited := sampleNow

def sampleRequest : QuarantineRequest where
  path := samplePath
  expectedSha256 := none
  reason := ⟨none, none, none, none, none, none⟩
  maxSize := 1024
  allowProtected := false
  killProcesses := false

/-- Its record in a state. -/
def sampleRecord (state : ItemState) : QuarantineRecord where
  formatVersion := 1
  id := sampleId
  state := state
  original :=
    { path := ⟨"/home/user/sample.bin", none⟩
      size := 2
      sha256 := sampleSha256
      mode := 0o644
      uid := 1000
      gid := 1000
      dev := 1
      ino := 7
      ownerSid := none
      modified := some epoch }
  keyHex := "000102030405060708090a0b0c0d0e0f101112131415161718191a1b1c1d1e1f"
  reason := ⟨none, none, none, none, none, none⟩
  actorUid := 0
  createdAt := epoch
  updatedAt := epoch
  restoredTo := none
  notes := []

def sampleJson (state : String) : Bytes :=
  ("\x7b\n  \"format_version\": 1,\n  \"id\": \"0123456789abcdef0123456789abcdef\",\n  \"state\": \"" ++
  state ++ "\",\n  \"original\": \x7b\n    \"path\": \x7b\n      \"text\": \"/home/user/sample.bin\"\n" ++
  "    \x7d,\n    \"size\": 2,\n    \"sha256\": " ++
  "\"9b8db510ef42b8ed54a3712636fda55a4f8cfcd5493e20b74ab00cd4f3979f2d\",\n    \"mode\": 420,\n" ++
  "    \"uid\": 1000,\n    \"gid\": 1000,\n    \"dev\": 1,\n    \"ino\": 7,\n" ++
  "    \"modified\": \"1970-01-01T00:00:00Z\"\n  \x7d,\n  \"key_hex\": " ++
  "\"000102030405060708090a0b0c0d0e0f101112131415161718191a1b1c1d1e1f\",\n  \"reason\": \x7b\x7d,\n" ++
  "  \"actor_uid\": 0,\n  \"created_at\": \"1970-01-01T00:00:00Z\",\n" ++
  "  \"updated_at\": \"1970-01-01T00:00:00Z\"\n\x7d").toUTF8.data.toList

def sampleRecords : RecordCodec :=
  RecordCodec.ofTable [(sampleRecord .pending, sampleJson "pending"),
      (sampleRecord .quarantined, sampleJson "quarantined")]
    (by decide) (by decide) (by decide)

def sampleEntry : AuditEntry where
  seq := 1
  time := epoch
  actorUid := 0
  actorSid := none
  onBehalfOf := none
  action := "quarantine"
  item := some "0123456789abcdef0123456789abcdef"
  path := some ⟨"/home/user/sample.bin", none⟩
  sha256 := some sampleSha256
  outcome := "ok"
  detail := none
  prev := genesis

def sampleLine : Bytes :=
  ("\x7b\"seq\":1,\"time\":\"1970-01-01T00:00:00Z\",\"actor_uid\":0,\"action\":\"quarantine\"," ++
  "\"item\":\"0123456789abcdef0123456789abcdef\",\"path\":\x7b\"text\":\"/home/user/sample.bin\"\x7d," ++
  "\"sha256\":\"9b8db510ef42b8ed54a3712636fda55a4f8cfcd5493e20b74ab00cd4f3979f2d\"," ++
  "\"outcome\":\"ok\",\"prev\":" ++
  "\"0000000000000000000000000000000000000000000000000000000000000000\"\x7d").toUTF8.data.toList

def sampleLineSha256 : Sha256Digest :=
  ⟨[33, 49, 125, 215, 172, 67, 119, 101, 4, 131, 92, 221, 255, 105, 207, 86,
    45, 115, 48, 174, 166, 156, 71, 102, 134, 217, 146, 251, 46, 133, 176, 200], rfl⟩

/-- The SHA-256 of the sample, of its line in the log, and of `#`. -/
def sampleDigests (data : Bytes) : Sha256Digest :=
  if data = sampleFile.content then sampleSha256
  else if data = sampleLine then sampleLineSha256
  else
    ⟨[51, 67, 89, 185, 14, 254, 215, 93, 165, 240, 173, 161, 213, 230, 178, 86,
      244, 166, 189, 10, 238, 126, 179, 156, 15, 144, 24, 42, 2, 31, 252, 139], rfl⟩

theorem sampleEntries_nodup : ([(sampleEntry, sampleLine)].map Prod.snd).Nodup := by decide

theorem sampleEntries_oneLine : ∀ p ∈ [(sampleEntry, sampleLine)], newline ∉ p.2 := by decide +kernel

def sampleHost : Host :=
  rootHost sampleDigests sampleRecords
    (EntryCodec.ofTable [(sampleEntry, sampleLine)] sampleEntries_nodup sampleEntries_oneLine)

def sampleState : StoreState :=
  ⟨{ emptyDisk with outside := Function.update (fun _ => none) sampleKey (some sampleFile) }, none⟩

/-- The sample is quarantined, after that many calls without a fault. -/
def quarantineSample (calls : ℕ) (fault : List (Fault Errno)) : StoreEvent :=
  .call (.quarantine sampleRequest sampleDraws) (List.replicate calls .none ++ fault)

end AbyssalWarden

import AbyssalWarden.StoreSystem

/-! The stored content: a header and the content XORed with the item's key, written and read back piece
by piece. -/
namespace AbyssalWarden

/-- A directory outside the store. -/
structure DirStat where
  dev : ℕ
  ino : ℕ
  mode : ℕ
  uid : ℕ

/-- What the store runs on: its directory, the directories outside it, the codecs, and the pieces a file
is read in. -/
structure Host where
  root : NativePath
  rootDir : ℕ × ℕ
  itemsDir : ℕ × ℕ
  euid : ℕ
  openDir : List Bytes → Except Errno DirStat
  sha256 : Bytes → Sha256Digest
  records : RecordCodec
  entries : EntryCodec
  pieces : Bytes → List Bytes
  flatten_pieces : ∀ data, (pieces data).flatten = data

/-- `"AWQDATA1"` -/
def dataMagic : Bytes := [0x41, 0x57, 0x51, 0x44, 0x41, 0x54, 0x41, 0x31]
def keyLen : ℕ := 32

abbrev Key := {key : Bytes // key.length = keyLen}

def xorInPlace (buf key : Bytes) (offset : ℕ) : Bytes :=
  buf.mapIdx fun i b => b ^^^ key.getD ((offset + i) % key.length) 0

/-- The whole file of some content. -/
def encoded (key content : Bytes) : Bytes := dataMagic ++ xorInPlace content key 0

/-- The content of a whole file. -/
def decoded (key file : Bytes) : Option Bytes :=
  if file.take dataMagic.length = dataMagic then
    some (xorInPlace (file.drop dataMagic.length) key 0)
  else none

variable (host : Host)

namespace Host

def itemPath (f : ItemFile) : NativePath :=
  (host.root.join (NativePath.ofString "items")).join (NativePath.ofString f.name)

/-- One round of the loop of `decode_file`. -/
def decodePiece (key : Bytes) (out : Option FileKey) (path : NativePath) (acc : Bytes × ℕ)
    (piece : Bytes) : StoreProg (Bytes × ℕ) := do
  let buf := xorInPlace piece key acc.2
  match out with
  | some target => (StoreCall.appendFile target buf).orErr (.io "write" path)
  | none => pure ()
  pure (acc.1 ++ buf, acc.2 + piece.length)

/-- Decode a file of the item, hashing it and optionally writing it out. -/
def decodeFile (id : QuarantineId) (f : ItemFile) (key : Bytes) (out : Option FileKey) :
    StoreProg (Sha256Digest × ℕ) := do
  let path := host.itemPath f
  let file ← (StoreCall.readItem f).orErr (.io "open" path)
  refuse (file.length < dataMagic.length) (.corrupt id "missing header")
  refuse (file.take dataMagic.length ≠ dataMagic) (.corrupt id "bad header")
  let (plain, total) ← Prog.forEach (decodePiece key out path) ([], 0)
    (host.pieces (file.drop dataMagic.length))
  pure (host.sha256 plain, total)

/-- Decode `items/<id>.data`, hashing it and optionally writing it out. -/
def decodeTo (id : QuarantineId) (key : Bytes) (out : Option FileKey) : StoreProg (Sha256Digest × ℕ) :=
  host.decodeFile id (.data id) key out

/-- One round of the loop of `write_encoded`. -/
def encodePiece (f : ItemFile) (key : Bytes) (max : ℕ) (path : NativePath) (acc : Bytes × ℕ)
    (piece : Bytes) : StoreProg (Bytes × ℕ) := do
  let total := acc.2 + piece.length
  refuse (total > max) (.tooLarge path max)
  (StoreCall.appendItem f (xorInPlace piece key (total - piece.length))).orErr (.io "write" host.root)
  pure (acc.1 ++ piece, total)

/-- Copy the content into `items/<id>.data.tmp` encoded, fsync, then re-read and verify. Returns the
SHA-256 and size of the original content. -/
def writeEncoded (id : QuarantineId) (content key : Bytes) (max : ℕ) (path : NativePath) :
    StoreProg (Sha256Digest × ℕ) := do
  let tmp := ItemFile.dataTmp id
  (StoreCall.createItem tmp).orErr (.io "create" (host.itemPath tmp))
  (StoreCall.appendItem tmp dataMagic).orErr (.io "write" host.root)
  let (hashed, total) ← Prog.forEach (host.encodePiece tmp key max path) ([], 0) (host.pieces content)
  (StoreCall.syncItem tmp).orErr (.io "sync" host.root)
  let sha := host.sha256 hashed
  let (check, len) ← host.decodeFile id tmp key none
  refuse (check ≠ sha ∨ len ≠ total) (.corrupt id "verification of the written copy failed")
  pure (sha, total)

end Host

end AbyssalWarden

import AbyssalWarden.CallTree
import AbyssalWarden.QuarantineRecord

/-! The file system as the quarantine store meets it: the files outside the store, the files in `items/`
and the audit log. Directories are opened without following links, so a path has one meaning. -/
namespace AbyssalWarden

inductive FileKind where
  | regular
  | symlink
  | other
  deriving DecidableEq

structure FileNode where
  kind : FileKind
  content : Bytes
  dev : ℕ
  ino : ℕ
  mode : ℕ
  uid : ℕ
  gid : ℕ
  nlink : ℕ
  mtime : ℤ

/-- A file outside the store: the components of its directory, and its name. -/
abbrev FileKey := List Bytes

/-- The files of an item in `items/`. -/
inductive ItemFile where
  | data (id : QuarantineId)
  | dataTmp (id : QuarantineId)
  | json (id : QuarantineId)
  | jsonTmp (id : QuarantineId)
  deriving DecidableEq

def ItemFile.id : ItemFile → QuarantineId
  | data id | dataTmp id | json id | jsonTmp id => id

def ItemFile.name : ItemFile → String
  | data id => id.text ++ ".data"
  | dataTmp id => id.text ++ ".data.tmp"
  | json id => id.text ++ ".json"
  | jsonTmp id => "." ++ id.text ++ ".json.tmp"

structure Disk where
  outside : FileKey → Option FileNode
  items : AList fun _ : ItemFile => Bytes
  audit : Bytes

inductive StoreCall where
  -- files outside the store
  | openFile (key : FileKey)
  | statFile (key : FileKey)
  | removeFile (key : FileKey)
  | syncDir (dir : List Bytes)
  | createFile (key : FileKey) (node : FileNode)
  | appendFile (key : FileKey) (data : Bytes)
  | chmodFile (key : FileKey) (mode : ℕ)
  | chownFile (key : FileKey) (uid gid : ℕ)
  | syncFile (key : FileKey)
  | renameNew (source target : FileKey)
  | linkFile (source target : FileKey)
  -- files of items in the store
  | createItem (f : ItemFile)
  | truncateItem (f : ItemFile)
  | appendItem (f : ItemFile) (data : Bytes)
  | syncItem (f : ItemFile)
  | readItem (f : ItemFile)
  | renameItem (source target : ItemFile)
  | removeItem (f : ItemFile)
  | syncItems
  | listItems
  -- the audit log of the store
  | appendAudit (data : Bytes)
  | syncAudit
  | readAudit

abbrev StoreAnswer : StoreCall → Type
  | .openFile _ => FileNode
  | .statFile _ => ℕ × ℕ
  | .readItem _ => Bytes
  | .listItems => List ItemFile
  | .readAudit => Bytes
  | _ => Unit

namespace Disk

def setFile (w : Disk) (key : FileKey) (node : Option FileNode) : Disk :=
  { w with outside := Function.update w.outside key node }

def mapFile (w : Disk) (key : FileKey) (f : FileNode → FileNode) : Disk :=
  w.setFile key ((w.outside key).map f)

/-- The other names of a file gain or lose a link. -/
def relink (w : Disk) (node : FileNode) (f : ℕ → ℕ) : Disk :=
  { w with outside := fun key => (w.outside key).map fun other =>
      if other.dev = node.dev ∧ other.ino = node.ino then { other with nlink := f other.nlink }
      else other }

/-- `unlinkat` -/
def removeFile (w : Disk) (key : FileKey) : Except Errno Unit × Disk :=
  match w.outside key with
  | none => (.error .noent, w)
  | some node => (.ok (), (w.setFile key none).relink node (· - 1))

/-- `openat` with `O_EXCL` -/
def createFile (w : Disk) (key : FileKey) (node : FileNode) : Except Errno Unit × Disk :=
  match w.outside key with
  | some _ => (.error .exist, w)
  | none => (.ok (), w.setFile key (some node))

/-- `renameat2` with `RENAME_NOREPLACE` -/
def renameNew (w : Disk) (source target : FileKey) : Except Errno Unit × Disk :=
  match w.outside source, w.outside target with
  | none, _ => (.error .noent, w)
  | some _, some _ => (.error .exist, w)
  | some node, none => (.ok (), (w.setFile source none).setFile target (some node))

/-- `linkat` -/
def linkFile (w : Disk) (source target : FileKey) : Except Errno Unit × Disk :=
  match w.outside source, w.outside target with
  | none, _ => (.error .noent, w)
  | some _, some _ => (.error .exist, w)
  | some node, none => (.ok (), (w.setFile target (some node)).relink node (· + 1))

def setItem (w : Disk) (f : ItemFile) (data : Bytes) : Disk :=
  { w with items := w.items.insert f data }

def eraseItem (w : Disk) (f : ItemFile) : Disk := { w with items := w.items.erase f }

def createItem (w : Disk) (f : ItemFile) : Except Errno Unit × Disk :=
  match w.items.lookup f with
  | some _ => (.error .exist, w)
  | none => (.ok (), w.setItem f [])

def appendItem (w : Disk) (f : ItemFile) (data : Bytes) : Disk :=
  match w.items.lookup f with
  | some before => w.setItem f (before ++ data)
  | none => w

def renameItem (w : Disk) (source target : ItemFile) : Except Errno Unit × Disk :=
  match w.items.lookup source with
  | none => (.error .noent, w)
  | some data => (.ok (), (w.eraseItem source).setItem target data)

def removeItem (w : Disk) (f : ItemFile) : Except Errno Unit × Disk :=
  match w.items.lookup f with
  | none => (.error .noent, w)
  | some _ => (.ok (), w.eraseItem f)

def appendFile (w : Disk) (key : FileKey) (data : Bytes) : Disk :=
  w.mapFile key fun node => { node with content := node.content ++ data }

/-- `openat` without following a link, and `fstat` -/
def openFile (w : Disk) (key : FileKey) : Except Errno FileNode :=
  match w.outside key with
  | none => .error .noent
  | some node => if node.kind = .symlink then .error .loop else .ok node

def apply (w : Disk) : (c : StoreCall) → Except Errno (StoreAnswer c) × Disk
  | .openFile key => (w.openFile key, w)
  | .statFile key => ((w.outside key).elim (.error .noent) fun node => .ok (node.dev, node.ino), w)
  | .removeFile key => w.removeFile key
  -- a sync changes nothing that is seen afterwards
  | .syncDir _ => (.ok (), w)
  | .createFile key node => w.createFile key node
  | .appendFile key data => (.ok (), w.appendFile key data)
  | .chmodFile key mode => (.ok (), w.mapFile key fun node => { node with mode := mode })
  | .chownFile key uid gid =>
    (.ok (), w.mapFile key fun node => { node with uid := uid, gid := gid })
  | .syncFile _ => (.ok (), w)
  | .renameNew source target => w.renameNew source target
  | .linkFile source target => w.linkFile source target
  | .createItem f => w.createItem f
  | .truncateItem f => (.ok (), w.setItem f [])
  | .appendItem f data => (.ok (), w.appendItem f data)
  | .syncItem _ => (.ok (), w)
  | .readItem f => ((w.items.lookup f).elim (.error .noent) .ok, w)
  | .renameItem source target => w.renameItem source target
  | .removeItem f => w.removeItem f
  | .syncItems => (.ok (), w)
  | .listItems => (.ok w.items.keys, w)
  | .appendAudit data => (.ok (), { w with audit := w.audit ++ data })
  | .syncAudit => (.ok (), w)
  | .readAudit => (.ok w.audit, w)

/-- A write may leave a part of its data; any other call takes place or not. -/
def torn (w : Disk) (n : ℕ) : StoreCall → Disk
  | .appendFile key data => w.appendFile key (data.take n)
  | .appendItem f data => w.appendItem f (data.take n)
  | .appendAudit data => { w with audit := w.audit ++ data.take n }
  | c => if n = 0 then w else (w.apply c).2

/-- A write that fails may have written a part of its data; any other call that fails does nothing. -/
def failed (w : Disk) (n : ℕ) : StoreCall → Disk
  | .appendFile key data => w.appendFile key (data.take n)
  | .appendItem f data => w.appendItem f (data.take n)
  | .appendAudit data => { w with audit := w.audit ++ data.take n }
  | _ => w

end Disk

/-- The calls the store makes of the kernel. -/
abbrev storeSystem : System Disk Errno where
  Call := StoreCall
  Answer := StoreAnswer
  apply c w := w.apply c
  torn c n w := w.torn n c
  failed c n w := w.failed n c

abbrev StoreProg := Prog storeSystem RemediationError

namespace StoreCall

/-- The call, its error worded by `onError`. -/
abbrev orErr (c : StoreCall) (onError : Errno → RemediationError) : StoreProg (StoreAnswer c) :=
  Prog.request (S := storeSystem) c onError

abbrev result (c : StoreCall) : StoreProg (Except Errno (StoreAnswer c)) :=
  Prog.ask (S := storeSystem) c

abbrev ignored (c : StoreCall) : StoreProg Unit := Prog.ignore (S := storeSystem) c

end StoreCall

/-- `if bad { return Err(e) }` -/
abbrev refuse (bad : Prop) [Decidable bad] (e : RemediationError) : StoreProg Unit :=
  Prog.ofExcept (refuseIf bad e)

end AbyssalWarden

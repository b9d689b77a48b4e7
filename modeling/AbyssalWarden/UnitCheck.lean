import AbyssalWarden.UnitReading

/-! The check of systemd units: the directories it looks into, the names it meets there, each inode once, and the units
that it reads. -/
namespace AbyssalWarden.SystemCheck

/-! ### Directories -/

structure User where
  name : String
  uid : ℕ
  home : NativePath

structure UnitDir where
  path : NativePath
  scope : Scope
  owner : Option ℕ

def systemDirs : List String :=
  ["/etc/systemd/system", "/run/systemd/system", "/usr/local/lib/systemd/system", "/usr/lib/systemd/system",
    "/lib/systemd/system"]

def globalUserDirs : List String :=
  ["/etc/systemd/user", "/usr/local/lib/systemd/user", "/usr/lib/systemd/user", "/lib/systemd/user"]

def unitDirs (users : List User) : List UnitDir :=
  systemDirs.map (fun d => ⟨utf8Bytes d, .system, none⟩) ++ globalUserDirs.map (fun d => ⟨utf8Bytes d, .user, none⟩) ++
    users.map fun u => ⟨u.home.join (utf8Bytes ".config/systemd/user"), .user, some u.uid⟩

/-- The links of a directory of an enabled target, when the entry is one. -/
def linksOf (root : Root) (dir : NativePath) (e : Entry) : List String :=
  if e.kind = .dir ∧ (endsWith e.name.toList ".wants" ∨ endsWith e.name.toList ".requires") then
    match root.readDir (dir.join (utf8Bytes e.name)) with
    | .ok links => links.map (·.name)
    | .error _ => []
  else []

/-- Units wanted by some target (enabled). -/
def wantedUnits (root : Root) (dirs : List UnitDir) : List String :=
  dirs.flatMap fun d =>
    match root.readDir d.path with
    | .ok entries => entries.flatMap (linksOf root d.path)
    | .error _ => []

/-! ### The names that are met -/

/-- The file name of a path that ends in one -/
def fileName (path : NativePath) : List Char :=
  (toStringLossy (path.reverse.takeWhile (· ≠ NativePath.slash)).reverse).toList

def isUnitName (name : List Char) : Bool := endsWith name ".service" || endsWith name ".timer"

/-- A file that is met, with the unit that it belongs to, if it is one's. -/
structure Met where
  path : NativePath
  info : Meta
  unit : Option (List Char)
  deriving DecidableEq

def Meta.inode (m : Meta) : ℕ × ℕ := (m.dev, m.ino)

/-- A file of a directory of units -/
def metFile (x : NativePath × Meta) : Met :=
  ⟨x.1, x.2, if isUnitName (fileName x.1) then some (fileName x.1) else none⟩

/-- `path.extension()` is `conf`: a name that is nothing else has no extension. -/
def isConf (path : NativePath) : Bool := endsWith (fileName path) ".conf" && fileName path ≠ ".conf".toList

/-- The unit that a directory of drop-ins is for: its name without the `.d`. -/
def dropInUnit (e : Entry) : Option (List Char) :=
  let name := e.name.toList
  if e.kind = .dir ∧ (endsWith name ".service.d" ∨ endsWith name ".timer.d") then some name.dropLast.dropLast else none

/-- Drop-ins: NAME.service.d/*.conf -/
def metDropIns (root : Root) (dir : NativePath) : List Entry → Checking → List Met × Checking
  | [], s => ([], s)
  | e :: entries, s =>
    match dropInUnit e with
    | none => metDropIns root dir entries s
    | some unit =>
      let (files, s) := filesIn root (dir.join (utf8Bytes e.name)) s
      let (met, s) := metDropIns root dir entries s
      (((files.filter fun x => isConf x.1).map fun x => ⟨x.1, x.2, some unit⟩) ++ met, s)

/-- The names met in one directory of units: its files, then its drop-ins. -/
def metIn (root : Root) (dir : NativePath) (s : Checking) : List Met × Checking :=
  let (files, s) := filesIn root dir s
  match root.readDir dir with
  | .error _ => (files.map metFile, s)
  | .ok entries =>
    let (dropIns, s) := metDropIns root dir entries s
    (files.map metFile ++ dropIns, s)

/-- The loops over the names: every inode is taken once, under the name that is met first, and `seen` are the inodes that
were met. -/
def takeUnits : List Met → List (ℕ × ℕ) → List (NativePath × List Char) × List (ℕ × ℕ)
  | [], seen => ([], seen)
  | x :: rest, seen =>
    if x.info.inode ∈ seen then takeUnits rest seen
    else
      let (units, seen) := takeUnits rest (x.info.inode :: seen)
      (x.unit.toList.map (fun unit => (x.path, unit)) ++ units, seen)

/-! ### The check -/

/-- The answers of the cancellation token, which stays cancelled. -/
structure Cancellation where
  asked : ℕ → Bool
  stays : ∀ i, asked i = true → asked (i + 1) = true

/-- A unit that was read, and its text -/
structure Inspected where
  src : UnitSource
  text : List Char

/-- `inspect_unit` for one unit after another -/
def inspectUnits (root : Root) (dir : UnitDir) (wanted : List String) :
    List (NativePath × List Char) → Checking → List Inspected × Checking
  | [], s => ([], s)
  | (path, unit) :: rest, s =>
    match read root path s with
    | (none, s) => inspectUnits root dir wanted rest s
    | (some (text, info), s) =>
      let src : UnitSource := ⟨path, unit, dir.scope, dir.owner, some (wanted.any fun w => w.toList = unit), info⟩
      let (inspected, s) := inspectUnits root dir wanted rest s
      (⟨src, text.toList⟩ :: inspected, s)

/-- The loop over the directories. -/
def checkDirs (root : Root) (wanted : List String) (cancel : Cancellation) :
    ℕ → List UnitDir → List (ℕ × ℕ) → Checking → List Inspected × Checking
  | _, [], _, s => ([], s)
  | i, dir :: dirs, seen, s =>
    if cancel.asked i then ([], s)
    else
      let (met, s) := metIn root dir.path s
      let (units, seen) := takeUnits met seen
      let (inspected, s) := inspectUnits root dir wanted units s
      let (rest, s) := checkDirs root wanted cancel (i + 1) dirs seen s
      (inspected ++ rest, s)

/-- Notes that other users' files were not inspected. -/
def noteUserLimits (usersLimited : Bool) (s : Checking) : Checking :=
  if usersLimited then
    let note := "only the current user's files were inspected; run as root for all users"
    { s with run := { s.run with isPartial := true, notes := s.run.notes ++ [note] } }
  else s

/-- A check that has just been started. -/
def idle (issues : List ScanIssue) : Checking := ⟨⟨0, false, []⟩, issues⟩

structure SystemdCheck where
  inspected : List Inspected
  entries : List Found
  issues : List ScanIssue
  result : CheckResult

/-- `check` of the systemd units -/
def systemdCheck (root : Root) (users : List User) (usersLimited : Bool) (cancel : Cancellation)
    (issues : List ScanIssue) : SystemdCheck :=
  let dirs := unitDirs users
  let (inspected, s) := checkDirs root (wantedUnits root dirs) cancel 0 dirs [] (idle issues)
  let s := noteUserLimits usersLimited s
  { inspected := inspected
    entries := inspected.flatMap fun i => i.src.inspect i.text
    issues := s.issues
    result := s.run.finish "persistence.systemd" "systemd services and timers" (cancel.asked dirs.length) }

/-! ### Units of a tree -/

/-- The names of a unit's file, as the directories have them: a unit's own name, or a drop-in's. -/
inductive NamesUnit (root : Root) (dirs : List UnitDir) (node : Node) : Prop where
  | file (d : UnitDir) (entries : List RawEntry) (e : RawEntry) (hd : d ∈ dirs)
      (hlisting : root.listing d.path = .ok entries) (he : e ∈ entries)
      (hname : utf8Bytes ".service" <:+ e.name ∨ utf8Bytes ".timer" <:+ e.name)
      (hnode : root.resolve (d.path.join e.name) = .ok node)
  | dropIn (d : UnitDir) (entries entries' : List RawEntry) (sub e : RawEntry) (hd : d ∈ dirs)
      (hlisting : root.listing d.path = .ok entries) (hsub : sub ∈ entries)
      (hname : utf8Bytes ".service.d" <:+ sub.name ∨ utf8Bytes ".timer.d" <:+ sub.name)
      (hlisting' : root.listing (d.path.join sub.name) = .ok entries') (he : e ∈ entries')
      (hconf : utf8Bytes ".conf" <:+ e.name)
      (hnode : root.resolve ((d.path.join sub.name).join e.name) = .ok node)

/-- A regular file that is read without an error. -/
def Node.CanBeRead (node : Node) : Prop :=
  node.info.kind = .file ∧ ∃ steps, node.reads = .ok steps ∧ ∀ err, ReadStep.failed err ∉ steps

/-- The entry of a command has its value, and ends with its key. -/
structure OfCommand (c : ExecKey × List Char) (f : Found) : Prop where
  command : f.command = some c.2
  detail : ∃ unit, f.detail = some ("unit ".toList ++ unit ++ ", ".toList ++ c.1.text)

/-- There is an entry of every file of a unit that can be read, under a unit's name; and where there is an entry of a
service, there is one for every command of its text. -/
structure UnitsInspected (root : Root) (dirs : List UnitDir) (entries : List Found) : Prop where
  files : ∀ node, NamesUnit root dirs node → node.CanBeRead →
    ∃ f ∈ entries, (isUnitName (fileName f.location) = true ∨ isConf f.location = true) ∧
      ∃ node', root.resolve f.location = .ok node' ∧ node'.info.inode = node.info.inode
  commands : ∀ f ∈ entries, f.mechanism = .systemdService → ∃ t cs, root.readText f.location = .ok t ∧
    Commands (unitLines t.text.toList) cs ∧
      List.Forall₂ OfCommand cs (entries.filter fun g => g.location = f.location ∧ g.findExecutable)

/-! ### The names of a tree -/

/-- The regular file that an entry of a directory leads to. -/
def regularFile (root : Root) (dir : NativePath) (e : Entry) : Option (NativePath × Meta) :=
  if e.kind = .dir then none
  else
    match root.stat (dir.join (utf8Bytes e.name)) with
    | .ok m => if m.kind = .file then some (dir.join (utf8Bytes e.name), m) else none
    | .error _ => none

/-- What is listed of a directory, by name; nothing if it cannot be. -/
def listedEntries (root : Root) (dir : NativePath) : List Entry :=
  match root.readDir dir with
  | .ok entries => entries
  | .error _ => []

/-- The regular files of a directory, by name. -/
def regularFiles (root : Root) (dir : NativePath) : List (NativePath × Meta) :=
  (listedEntries root dir).filterMap (regularFile root dir)

/-- The drop-ins in a directory that is an entry of `dir`. -/
def dropIns (root : Root) (dir : NativePath) (e : Entry) : List Met :=
  match dropInUnit e with
  | none => []
  | some unit => ((regularFiles root (dir.join (utf8Bytes e.name))).filter fun x => isConf x.1).map fun x =>
      ⟨x.1, x.2, some unit⟩

/-- The names of one directory of units: the files, then the drop-ins. -/
def namesIn (root : Root) (dir : NativePath) : List Met :=
  (regularFiles root dir).map metFile ++ (listedEntries root dir).flatMap (dropIns root dir)

/-- All names, in order: the directories one after another, in each of them the files by name and then the drop-ins. -/
def metNames (root : Root) (dirs : List UnitDir) : List Met := dirs.flatMap fun d => namesIn root d.path

/-- The inode of `x` has not been met before. -/
def FirstMet (pre : List Met) (x : Met) : Prop := ∀ y ∈ pre, y.info.inode ≠ x.info.inode

/-- Of every file of a unit that can be read, the first name is a name of a unit. -/
def FirstIsUnit (root : Root) (dirs : List UnitDir) : Prop :=
  ∀ node, NamesUnit root dirs node → node.CanBeRead → ∃ pre x post, metNames root dirs = pre ++ x :: post ∧
    FirstMet pre x ∧ x.info.inode = node.info.inode ∧ x.unit.isSome

/-- The text of a file whose first name is a service's, or a drop-in's of a service. -/
def ServiceText (root : Root) (dirs : List UnitDir) (text : List Char) : Prop :=
  ∃ pre x post unit t, metNames root dirs = pre ++ x :: post ∧ FirstMet pre x ∧ x.unit = some unit ∧
    endsWith unit ".timer" = false ∧ root.readText x.path = .ok t ∧ text = t.text.toList

/-- There are no more commands than are read. -/
def FewCommands (text : List Char) : Prop := ∀ cs, Commands (unitLines text) cs → cs.length ≤ 65

/-- Of every file of a unit that can be read, the first name is a name of a unit; in no service that is met does a
backslash join a comment with a line that is none, and none has more than 65 commands. -/
structure UnitsSeen (root : Root) (dirs : List UnitDir) : Prop where
  first : FirstIsUnit root dirs
  separate : ∀ text, ServiceText root dirs text → Separate isComment (lines text)
  few : ∀ text, ServiceText root dirs text → FewCommands text

end AbyssalWarden.SystemCheck

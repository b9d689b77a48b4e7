import AbyssalWarden.DirectoryListing
import AbyssalWarden.ShellTokens

/-! Units of systemd: how their text is parsed, and the entries that are recorded of a unit. -/
namespace AbyssalWarden.SystemCheck

/-! ### Logical lines -/

/-- A line without the backslash that it ends in: `strip_suffix('\\')` -/
def stripBackslash (line : List Char) : Option (List Char) :=
  if line.getLast? = some '\\' then some line.dropLast else none

/-- The loop of `logical_lines`; `cur` is what was continued so far. -/
def joinLines : List Char → List (List Char) → List (List Char)
  | cur, [] => if cur = [] then [] else [cur]
  | cur, line :: rest =>
    match stripBackslash line with
    | some stripped => joinLines (cur ++ stripped ++ [' ']) rest
    | none => (cur ++ line) :: joinLines [] rest

/-- Joins shell/systemd-style continuation lines (ending in a backslash). -/
def logicalLines (text : List Char) : List (List Char) := joinLines [] (lines text)

/-! ### Units -/

structure UnitFile where
  exec : List (List Char × List Char)
  environment : List (List Char)
  user : Option (List Char)
  schedule : List (List Char)
  timerUnit : Option (List Char)
  deriving DecidableEq

def UnitFile.default : UnitFile := ⟨[], [], none, [], none⟩

def execKeys : List (List Char) :=
  ["ExecStart", "ExecStartPre", "ExecStartPost", "ExecStop", "ExecStopPost", "ExecReload", "ExecCondition"].map
    String.toList

def scheduleKeys : List (List Char) :=
  ["OnCalendar", "OnBootSec", "OnStartupSec", "OnUnitActiveSec", "OnUnitInactiveSec", "OnActiveSec"].map String.toList

def environmentKey : List Char := "Environment".toList

/-- The key and the value of a logical line; comments, sections and other lines have none. -/
def settingOf (line : List Char) : Option (List Char × List Char) :=
  let line := trim line
  if line = [] ∨ line.head? = some '#' ∨ line.head? = some ';' ∨ line.head? = some '[' then none
  else (splitOnce '=' line).map fun (k, v) => (trim k, trim v)

def UnitFile.set (unit : UnitFile) (k v : List Char) : UnitFile :=
  if k ∈ execKeys then if v ≠ [] then { unit with exec := unit.exec ++ [(k, v)] } else unit
  else if k = environmentKey then { unit with environment := unit.environment ++ [v] }
  else if k = "User".toList then { unit with user := some v }
  else if k = "Unit".toList then { unit with timerUnit := some v }
  else if k ∈ scheduleKeys then { unit with schedule := unit.schedule ++ [k ++ '=' :: v] }
  else unit

/-- The loop of `parse_unit`, which ends when there are more than 64 commands. -/
def parseLines : List (List Char) → UnitFile → UnitFile
  | [], unit => unit
  | line :: rest, unit =>
    match settingOf line with
    | none => parseLines rest unit
    | some (k, v) =>
      let unit := unit.set k v
      if unit.exec.length > 64 then unit else parseLines rest unit

def parseUnit (text : List Char) : UnitFile := parseLines (logicalLines text) .default

/-! ### Entries -/

/-- `ends_with` -/
def endsWith (s : List Char) (suffix : String) : Bool := suffix.toList.isSuffixOf s

inductive Scope where
  | system
  | user
  deriving DecidableEq

/-- A persistence entry as found, before evaluation. -/
structure Found where
  mechanism : PersistenceMechanism
  scope : Scope
  location : NativePath
  command : Option (List Char)
  enabled : Option Bool
  detail : Option (List Char)
  defMeta : Option Meta
  ownerUid : Option ℕ
  findExecutable : Bool
  deriving DecidableEq

/-- Dynamic-loader variables that inject code into every program started with them. -/
def loaderVars : List (List Char) := ["LD_PRELOAD", "LD_AUDIT", "LD_LIBRARY_PATH"].map String.toList

/-- A word that sets one of them -/
def setsLoader (word : List Char) : Bool :=
  match splitOnce '=' word with
  | some (k, _) => k ∈ loaderVars
  | none => false

/-- What is read of a unit, and where it stands. -/
structure UnitSource where
  path : NativePath
  unit : List Char
  scope : Scope
  owner : Option ℕ
  enabled : Option Bool
  info : Meta

namespace UnitSource

variable (src : UnitSource)

/-- A unit whose name ends in `.timer` -/
def isTimer : Bool := endsWith src.unit ".timer"

/-- The entry that all entries of the unit are made from. -/
def base (user : Option (List Char)) : Found where
  mechanism := if src.isTimer then .systemdTimer else .systemdService
  scope := if src.scope = .system ∧ (user.any fun u => u ≠ "root".toList ∧ u ≠ "0".toList) then .user else src.scope
  location := src.path
  command := none
  enabled := src.enabled
  detail := none
  defMeta := some src.info
  ownerUid := src.owner
  findExecutable := true

def timerEntry (parsed : UnitFile) : Found :=
  let detail := parsed.schedule ++ (parsed.timerUnit.map ("Unit=".toList ++ ·)).toList
  { src.base parsed.user with
    detail := if detail = [] then none else some (", ".toList.intercalate detail)
    findExecutable := false }

/-- Environment values often hold secrets: only dynamic-loader variables are ever recorded. -/
def environmentEntries (parsed : UnitFile) : List Found :=
  ((parsed.environment.flatMap shellTokens).filter setsLoader).map fun assignment =>
    { src.base parsed.user with
      command := some assignment
      detail := some ("unit ".toList ++ src.unit ++ ", Environment".toList)
      findExecutable := false }

def execEntries (parsed : UnitFile) : List Found :=
  parsed.exec.map fun (key, cmd) =>
    { src.base parsed.user with
      command := some cmd
      detail := some ("unit ".toList ++ src.unit ++ ", ".toList ++ key) }

/-- A unit without commands is still inventoried. -/
def bareEntry (parsed : UnitFile) : Found :=
  { src.base parsed.user with detail := some ("unit ".toList ++ src.unit), findExecutable := false }

/-- The entries that `inspect_unit` records of a text. -/
def inspect (text : List Char) : List Found :=
  let parsed := parseUnit text
  if src.isTimer then [src.timerEntry parsed]
  else if parsed.exec = [] then src.environmentEntries parsed ++ [src.bareEntry parsed]
  else src.environmentEntries parsed ++ src.execEntries parsed

end UnitSource

/-! ### Settings -/

/-- The settings of a text, in order. -/
def settings (text : List Char) : List (List Char × List Char) := (logicalLines text).filterMap settingOf

/-- A setting that is a command -/
def isCommand (s : List Char × List Char) : Bool := s.1 ∈ execKeys ∧ s.2 ≠ []

/-- The loop over the settings alone. -/
def setAll : List (List Char × List Char) → UnitFile → UnitFile
  | [], unit => unit
  | (k, v) :: rest, unit =>
    let unit := unit.set k v
    if unit.exec.length > 64 then unit else setAll rest unit

theorem parseLines_eq (ls : List (List Char)) (unit : UnitFile) :
    parseLines ls unit = setAll (ls.filterMap settingOf) unit := by
  induction ls generalizing unit with
  | nil => rfl
  | cons line ls ih =>
    rw [parseLines, List.filterMap_cons]
    cases settingOf line with
    | none => exact ih unit
    | some s =>
      simp only [setAll]
      split
      · rfl
      · exact ih _

theorem parseUnit_eq (text : List Char) : parseUnit text = setAll (settings text) .default := parseLines_eq _ _

end AbyssalWarden.SystemCheck

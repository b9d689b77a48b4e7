import AbyssalWarden.Checked
import AbyssalWarden.DirectoryListing
import AbyssalWarden.TextFields

/-! Structure heuristics for ELF files: segments, the entry point, the interpreter and the run paths. -/
namespace AbyssalWarden.Elf

/-- What a build with checks stops at. -/
inductive Panic where
  | overflow
  | outOfRange
  deriving DecidableEq

def checkedAdd (a b : UInt64) : Except Panic UInt64 := if a.toNat + b.toNat < 2 ^ 64 then .ok (a + b) else .error .overflow

def checkedSub (a b : UInt64) : Except Panic UInt64 := if b ≤ a then .ok (a - b) else .error .overflow

/-- `u64::saturating_add` -/
def saturatingAdd (a b : UInt64) : UInt64 := UInt64.ofNat (min (a.toNat + b.toNat) (2 ^ 64 - 1))

/-- `data.get(s..)` -/
def getFrom (data : Bytes) (s : ℕ) : Option Bytes := if s ≤ data.length then some (data.drop s) else none

/-- `&bytes[..n]` -/
def sliceTo (bytes : Bytes) (n : ℕ) : Except Panic Bytes := if n ≤ bytes.length then .ok (bytes.take n) else .error .outOfRange

/-! ### Headers as they are read -/

structure Dyn where
  dTag : Int64
  dVal : UInt64
  deriving DecidableEq

/-- A program header, with what is read through it: an interpreter's path, the dynamic entries. -/
structure ProgramHeader where
  pType : UInt32
  pFlags : UInt32
  pVaddr : UInt64
  pMemsz : UInt64
  pOffset : UInt64
  pFilesz : UInt64
  interpreter : Option Bytes
  dynamic : Option (List Dyn)
  deriving DecidableEq

structure FileHeader where
  eType : UInt16
  eEntry : UInt64
  eShnum : UInt16
  eShoff : UInt64
  programHeaders : List ProgramHeader
  deriving DecidableEq

def etExec : UInt16 := 2
def etDyn : UInt16 := 3
def ptLoad : UInt32 := 1
def ptDynamic : UInt32 := 2
def ptInterp : UInt32 := 3
def ptGnuStack : UInt32 := 0x6474E551
def pfX : UInt32 := 1
def pfW : UInt32 := 2
def dtNull : Int64 := 0
def dtStrtab : Int64 := 5
def dtStrsz : Int64 := 10
def dtRpath : Int64 := 15
def dtRunpath : Int64 := 29

/-- Observations about one ELF file. -/
structure ElfFacts where
  executable : Bool
  rwxSegments : ℕ
  execStack : Bool
  upx : Bool
  noSections : Bool
  entryOutsideCode : Option String
  unsafeRpath : List String
  interpreter : Option String
  oddInterpreter : Bool
  deriving DecidableEq

def tempDirs : List String := ["/tmp/", "/var/tmp/", "/dev/shm/", "/run/shm/"]

/-- A load segment. -/
structure Load where
  vaddr : UInt64
  memsz : UInt64
  offset : UInt64
  filesz : UInt64
  exec : Bool
  deriving DecidableEq

/-! ### Segments -/

/-- What the loop over the program headers has seen. -/
structure Segments where
  rwxSegments : ℕ
  execStack : Bool
  interpreter : Option String
  oddInterpreter : Bool
  loads : List Load
  dynamic : Option (List Dyn)

def Segments.none : Segments := ⟨0, false, .none, false, [], .none⟩

def executableSegment (ph : ProgramHeader) : Bool := ph.pFlags &&& pfX ≠ 0

def ProgramHeader.load (ph : ProgramHeader) : Load :=
  ⟨ph.pVaddr, ph.pMemsz, ph.pOffset, ph.pFilesz, executableSegment ph⟩

/-- An interpreter that is not named like a loader, or lies where no loader does. -/
def isOddInterpreter (i : String) : Bool :=
  let base := ((i.toList.splitOn '/').getLast?).getD []
  let standard := ["ld-", "ld64", "ld.so"].any fun name => name.toList.isPrefixOf base
  !standard || tempDirs.any (fun t => t.toList.isPrefixOf i.toList) || !("/".toList.isPrefixOf i.toList)

/-- One turn of the loop over the program headers. -/
def segment (st : Segments) (ph : ProgramHeader) : Segments :=
  if ph.pType = ptLoad then
    { st with
      rwxSegments := if ph.pFlags &&& pfW ≠ 0 ∧ ph.pFlags &&& pfX ≠ 0 then st.rwxSegments + 1 else st.rwxSegments
      loads := st.loads ++ [ph.load] }
  else if ph.pType = ptGnuStack then { st with execStack := executableSegment ph }
  else if ph.pType = ptInterp then
    match ph.interpreter with
    | some i => { st with interpreter := some (SystemCheck.toStringLossy i), oddInterpreter := isOddInterpreter (SystemCheck.toStringLossy i) }
    | .none => st
  else if ph.pType = ptDynamic then { st with dynamic := ph.dynamic }
  else st

/-! ### Run paths -/

/-- The dynamic entries that lead to the run paths. -/
structure DynamicTable where
  strtab : Option UInt64
  strsz : UInt64
  paths : List UInt64
  deriving DecidableEq

/-- One dynamic entry. -/
def DynamicTable.entry (table : DynamicTable) (d : Dyn) : DynamicTable :=
  if d.dTag = dtStrtab then { table with strtab := some d.dVal }
  else if d.dTag = dtStrsz then { table with strsz := d.dVal }
  else if d.dTag = dtRpath ∨ d.dTag = dtRunpath then { table with paths := table.paths ++ [d.dVal] }
  else table

/-- The entries up to the one that ends the table. -/
def readDynamic (entries : List Dyn) : DynamicTable :=
  (entries.takeWhile (·.dTag ≠ dtNull)).foldl DynamicTable.entry ⟨.none, 0, []⟩

/-- The segment holds the address, as the search for the string table sees it. -/
def Load.maps (load : Load) (addr : UInt64) : Bool :=
  load.vaddr ≤ addr && addr < saturatingAdd load.vaddr load.filesz

/-- A component that does not start at the root or at the file's own directory, or lies in a directory for temporary
files. -/
def isBadEntry (entry : String) : Bool :=
  entry = "" || entry = "." ||
    (!("/".toList.isPrefixOf entry.toList) && !("$ORIGIN".toList.isPrefixOf entry.toList) &&
      !("$\x7bORIGIN\x7d".toList.isPrefixOf entry.toList)) ||
    tempDirs.any fun t => t.toList.isPrefixOf entry.toList || entry ++ "/" = t

def emptyLabel : String := "(empty: current directory)"

/-- A component as it is reported. -/
def shownEntry (entry : String) : String := if entry = "" then emptyLabel else entry

def pushEntry (acc : List String) (entry : String) : List String :=
  if isBadEntry entry = true ∧ entry ∉ acc then acc ++ [shownEntry entry] else acc

def splitColon (text : String) : List String := (text.toList.splitOn ':').map String.ofList

def maxEntries : ℕ := 4096

def maxPathBytes : ℕ := 4096

/-- The components of the string at a place of the file. -/
def pushString (data : Bytes) (acc : List String) (s : ℕ) : Except Panic (List String) :=
  match getFrom data s with
  | .none => .ok acc
  | some bytes => do
    let text ← sliceTo bytes (min (bytes.findIdx (· = 0)) maxPathBytes)
    .ok ((splitColon (SystemCheck.toStringLossy text)).foldl pushEntry acc)

/-- One run path, by its place in the string table. -/
def runPath (data : Bytes) (strsz base : UInt64) (acc : List String) (p : UInt64) : Except Panic (List String) :=
  if strsz ≤ p then .ok acc
  else do
    let s ← checkedAdd base p
    pushString data acc s.toNat

def runPaths (loads : List Load) (data : Bytes) (entries : List Dyn) : Except Panic (List String) :=
  let table := readDynamic (entries.take maxEntries)
  match table.strtab with
  | .none => .ok []
  | some addr =>
    match loads.find? (·.maps addr) with
    | .none => .ok []
    | some load => do
      let base ← checkedAdd load.offset (← checkedSub addr load.vaddr)
      checkEach (runPath data table.strsz base) [] table.paths

/-- `if let Some(entries) = dynamic { .. }` -/
def dynamicRunPaths (loads : List Load) (data : Bytes) (dynamic : Option (List Dyn)) : Except Panic (List String) :=
  match dynamic with
  | some entries => runPaths loads data entries
  | .none => .ok []

/-! ### The analysis -/

/-- Where the entry point is in no executable segment. -/
def entryOutsideCode (executable : Bool) (entry : UInt64) (loads : List Load) : Option String :=
  if executable = true ∧ entry ≠ 0 ∧ loads ≠ [] ∧
      loads.any (fun l => l.exec && l.vaddr ≤ entry && entry < saturatingAdd l.vaddr l.memsz) = false then
    some ("entry point 0x" ++ String.ofList (Nat.toDigits 16 entry.toNat) ++ " is not in an executable segment")
  else .none

/-- `memmem::find(data, pattern).is_some()` -/
def hasInfix (pattern data : Bytes) : Bool := data.tails.any (pattern.isPrefixOf ·)

def analyzeAs (header : FileHeader) (data : Bytes) : Except Panic ElfFacts := do
  let executable : Bool := header.eType = etExec || header.eType = etDyn
  let st := header.programHeaders.foldl segment .none
  let noSections : Bool := executable && header.eShnum = 0 && header.eShoff = 0 && st.loads ≠ []
  let unsafeRpath ← dynamicRunPaths st.loads data st.dynamic
  .ok
    { executable
      rwxSegments := st.rwxSegments
      execStack := st.execStack
      upx := executable && hasInfix (utf8Bytes "UPX!") (data.take 1024)
      noSections
      entryOutsideCode := entryOutsideCode executable header.eEntry st.loads
      unsafeRpath
      interpreter := st.interpreter
      oddInterpreter := st.oddInterpreter }

end AbyssalWarden.Elf

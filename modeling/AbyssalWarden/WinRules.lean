import AbyssalWarden.UdevPrograms

/-! The file that a Windows command starts, and what its place says. -/
namespace AbyssalWarden.WinRules

/-- `to_ascii_lowercase` -/
def lowercase (s : List Char) : List Char := s.map Char.toLower

def exe : List Char := ['.', 'e', 'x', 'e']

/-- The start of each match of `.exe`; no match overlaps another. -/
def matchIndices (s : List Char) : List ℕ := (List.range s.length).filter fun i => exe.isPrefixOf (s.drop i)

/-- `chars().next().is_none_or(char::is_whitespace)` -/
def endsWord (s : List Char) : Bool :=
  match s with
  | [] => true
  | c :: _ => isWhitespace c

def exeEnd (lower : List Char) : Option ℕ :=
  ((matchIndices lower).map (· + 4)).find? fun e => endsWord (lower.drop e)

/-- The program of a trimmed command, and what follows it. -/
def splitProgram (cmd : List Char) : Option (List Char × List Char) :=
  if cmd.head? = some '"' then splitOnce '"' cmd.tail
  else
    let stop := (exeEnd (lowercase cmd)).getD (cmd.findIdx isWhitespace)
    some (cmd.take stop, cmd.drop stop)

/-- What follows the last separator, in lower case. -/
def baseName (first : List Char) : List Char :=
  lowercase (((first.splitOnP fun c => c = '\\' || c = '/').getLast?).getD first)

/-- The programs that load the library they are given. -/
inductive Loader where
  | rundll32
  | regsvr32
  deriving DecidableEq

def loaderOf (base : List Char) : Option Loader :=
  if base = "rundll32.exe".toList ∨ base = "rundll32".toList then some .rundll32
  else if base = "regsvr32.exe".toList ∨ base = "regsvr32".toList then some .regsvr32
  else none

def isSwitch (a : List Char) : Bool := a.head? = some '/' || a.head? = some '-'

/-- `split(',').next()` -/
def beforeComma (a : List Char) : List Char := a.takeWhile (· ≠ ',')

def chooseFile (loader : Option Loader) (first : List Char) (args : List (List Char)) : Option (List Char) :=
  match loader with
  | some .rundll32 => args.head?.map fun a => beforeComma (Udev.trimQuotes a)
  | some .regsvr32 => (args.reverse.find? fun a => !isSwitch a).map Udev.trimQuotes
  | none => some first

/-- The file a Windows command starts; of the loaders, the library they load. Only paths with a directory. -/
def commandExecutable (cmd : List Char) : Option (List Char) := do
  let (first, rest) ← splitProgram (trim cmd)
  let chosen ← chooseFile (loaderOf (baseName first)) first (splitWhitespace rest)
  if '\\' ∈ chosen ∨ ':' ∈ chosen then some chosen else none

inductive Location where
  | temp
  | userWritable
  | other
  deriving DecidableEq

def tempMarks : List (List Char) :=
  ["\\temp\\".toList, "\\tmp\\".toList, "\\users\\public\\".toList, "$recycle.bin".toList, "\\perflogs\\".toList,
    "\\windows\\tasks\\".toList]

/-- `p.get(1..).unwrap_or("")`: the rest after a first character of one byte. -/
def afterFirst (p : List Char) : List Char :=
  match p with
  | [] => []
  | c :: tail => if c.toNat < 0x80 then tail else []

def classify (path : List Char) : Location :=
  let p := lowercase (path.map fun c => if c = '/' then '\\' else c)
  if tempMarks.any (fun t => p.tails.any (t.isPrefixOf ·)) then .temp
  else if ":\\users\\".toList.isPrefixOf (afterFirst p) || ":\\programdata\\".toList.isPrefixOf (afterFirst p) then
    .userWritable
  else .other

end AbyssalWarden.WinRules

import AbyssalWarden.ReferencedScan
import AbyssalWarden.Words

/-! The PAM check: how a line of a stack is read, and what is reported of it. -/
namespace AbyssalWarden.Pam

/-- Directories PAM modules are installed in. -/
def moduleDirs : List (List Char) :=
  ["/lib/security/".toList, "/lib64/security/".toList, "/usr/lib/security/".toList, "/usr/lib64/security/".toList,
    "/lib/x86_64-linux-gnu/security/".toList, "/usr/lib/x86_64-linux-gnu/security/".toList,
    "/lib/aarch64-linux-gnu/security/".toList, "/usr/lib/aarch64-linux-gnu/security/".toList,
    "/usr/lib/i386-linux-gnu/security/".toList]

structure PamLine where
  kind : List Char
  module : List Char
  args : List (List Char)
  deriving DecidableEq

/-- `str::trim_start` -/
def trimStart (s : List Char) : List Char := s.dropWhile isWhitespace

/-- `split_once(char::is_whitespace)` -/
def splitBlank (s : List Char) : Option (List Char × List Char) :=
  if s.any isWhitespace then some (s.takeWhile (!isWhitespace ·), (s.dropWhile (!isWhitespace ·)).tail) else none

def kinds : List (List Char) := ["auth".toList, "account".toList, "password".toList, "session".toList]

/-- The control, a word or a group in brackets, is skipped. -/
def afterControl (r : List Char) : Option (List Char) :=
  match r with
  | '[' :: stripped => (splitOnce ']' stripped).map Prod.snd
  | _ => (splitBlank r).map Prod.snd

/-- Lines of `pam.conf` start with the service name. -/
def afterService (conf : Bool) (line : List Char) : Option (List Char) :=
  if conf then (splitBlank (trimStart line)).map Prod.snd else some line

/-- The module and its arguments, where the type is known. -/
def pamLine (kind : List Char) : List (List Char) → Option PamLine
  | [] => none
  | module :: args => if kind.dropWhile (· = '-') ∈ kinds then some ⟨kind, module, args⟩ else none

/-- `[-]type control module args...`, after the service in `pam.conf`. -/
def parseLine (line : List Char) (conf : Bool) : Option PamLine :=
  if line = [] ∨ line.head? = some '#' ∨ line.head? = some '@' then none
  else do
    let rest ← afterService conf line
    let (kind, r) ← splitBlank (trimStart rest)
    let r ← afterControl (trimStart r)
    pamLine kind (splitWhitespace r)

/-! ### What is reported -/

/-- An absolute path outside the module directories. -/
def isNonstandard (module : List Char) : Bool :=
  "/".toList.isPrefixOf module && !moduleDirs.any (·.isPrefixOf module)

/-- The last part of the path is `pam_exec.so`. -/
def isPamExec (module : List Char) : Bool := (module.splitOn '/').getLast? = some "pam_exec.so".toList

/-- What a line gives: its excerpt and the summaries of its findings, and its entry in the inventory. -/
structure Report where
  entry : String
  nonstandard : Option (List Char)
  pamExec : Option (List Char)
  command : Option (List Char)
  detail : List Char
  deriving DecidableEq

/-- The command of the entry: the arguments of `pam_exec`, or the module. -/
def entryCommand (l : PamLine) : Option (List Char) :=
  let program := if isPamExec l.module then l.args.find? (['/'].isPrefixOf ·) else some l.module
  program.map fun p =>
    let rest := if isPamExec l.module then [' '].intercalate l.args else []
    if rest = [] then p else rest

/-- `nonstandard || exec` -/
def isReported (module : List Char) : Bool := isNonstandard module || isPamExec module

def reportOf (line : List Char) (l : PamLine) : Option Report :=
  if isReported l.module then
    some
      { entry := snippet (String.ofList line)
        nonstandard := if isNonstandard l.module then some ("loads ".toList ++ l.module) else none
        pamExec := if isPamExec l.module then some (l.kind ++ " runs pam_exec".toList) else none
        command := entryCommand l
        detail := l.kind ++ ' ' :: l.module }
  else none

/-- The reports of one line of a file. -/
def checkLine (conf : Bool) (line : List Char) : Option Report := (parseLine (trim line) conf).bind (reportOf (trim line))

/-- The reports of a file. -/
def checkText (conf : Bool) (text : List Char) : List Report := (lines text).filterMap (checkLine conf)

end AbyssalWarden.Pam

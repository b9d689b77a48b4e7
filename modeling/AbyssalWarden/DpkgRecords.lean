import AbyssalWarden.UnitCoverage

/-! The digests that dpkg recorded of selected files: which packages are looked at, and what is read of them. -/
namespace AbyssalWarden.Packages

open SystemCheck

inductive Algo where
  | md5
  | sha224
  | sha256
  | sha384
  | sha512
  deriving DecidableEq

/-- A recorded digest for one file. -/
structure Recorded where
  path : List Char
  algo : Algo
  digest : List Char
  package : Option (List Char)
  deriving DecidableEq

/-! ### Lines and names -/

def isHexDigit (c : Char) : Bool := c.isDigit || ('a' ≤ c && c ≤ 'f') || ('A' ≤ c && c ≤ 'F')

/-- A line of a `.md5sums` file: `<md5>  <path without leading />` -/
def parseSum (package line : List Char) : Option Recorded :=
  match line.dropWhile (fun c => !isWhitespace c) with
  | [] => none
  | _ :: rest =>
    let digest := line.takeWhile fun c => !isWhitespace c
    let path := rest.dropWhile isWhitespace
    if digest.length = 32 ∧ digest.all isHexDigit ∧ path ≠ [] then
      some ⟨'/' :: path.dropWhile (· = '/'), .md5, digest.map Char.toLower, some package⟩
    else none

def parseMd5sums (text package : List Char) : List Recorded := (lines text).filterMap (parseSum package)

def usr : List Char := "/usr".toList

def mergedDirs : List (List Char) :=
  ["/bin/", "/sbin/", "/lib/", "/lib64/", "/lib32/", "/libx32/"].map String.toList

/-- The other spelling of a path where `/usr` is merged (`/bin/ls` and `/usr/bin/ls`). -/
def usrmergeAlias (path : List Char) : Option (List Char) :=
  mergedDirs.findSome? fun dir =>
    if dir.isPrefixOf path then some (usr ++ path)
    else if usr.isPrefixOf path ∧ dir.isPrefixOf (path.drop usr.length) then some (path.drop usr.length)
    else none

/-- A reversed name without `.list` at its end, however often it stands there. -/
def trimLists : List Char → List Char
  | 't' :: 's' :: 'i' :: 'l' :: '.' :: rest => trimLists rest
  | name => name

/-- `trim_end_matches(".list")` -/
def listStem (name : List Char) : List Char := (trimLists name.reverse).reverse

/-- `strip_suffix(".md5sums")` -/
def sumsStem (name : List Char) : Option (List Char) :=
  if endsWith name ".md5sums" then some (name.take (name.length - ".md5sums".toList.length)) else none

/-! ### The records -/

/-- Recorded path to our path -/
abbrev Wanted := List Char → Option (List Char)

/-- One target, and its alias unless there is an entry for it. -/
def want (wanted : Wanted) (t : List Char) : Wanted :=
  let wanted : Wanted := fun p => if p = t then some t else wanted p
  match usrmergeAlias t with
  | none => wanted
  | some a => fun p => if p = a then some ((wanted a).getD t) else wanted p

def wantedOf (targets : List (List Char)) : Wanted := targets.foldl want fun _ => none

def infoDir : NativePath := utf8Bytes "/var/lib/dpkg/info"

def infoPath (name : List Char) : NativePath := infoDir.join (utf8Bytes (String.ofList name))

def isList (e : SystemCheck.Entry) : Bool := endsWith e.name.toList ".list"

/-- Packages owning the selected files, from the *.list files. -/
def owningOf (root : Root) (wanted : Wanted) (cancel : Cancellation) : ℕ → List SystemCheck.Entry → List (List Char)
  | _, [] => []
  | i, e :: entries =>
    if isList e then
      if cancel.asked i then []
      else
        let owning := owningOf root wanted cancel (i + 1) entries
        match root.readText (infoPath e.name.toList) with
        | .ok t =>
          if (lines t.text.toList).any fun l => (wanted l).isSome then listStem e.name.toList :: owning else owning
        | .error _ => owning
    else owningOf root wanted cancel i entries

def sumsName (stem : List Char) : List Char := stem ++ ".md5sums".toList

/-- What is recorded of the files we want, each at the path where it is. -/
def wantedRecords (wanted : Wanted) (all : Bool) (records : List Recorded) : List Recorded :=
  records.filterMap fun r => if all then some r else (wanted r.path).map fun ours => { r with path := ours }

/-- The loop over the packages. -/
def readSums (root : Root) (wanted : Wanted) (all : Bool) (owning : List (List Char)) :
    List (List Char) → Checking → List Recorded × Checking
  | [], s => ([], s)
  | stem :: stems, s =>
    if ¬ all ∧ stem ∉ owning then readSums root wanted all owning stems s
    else
      let path := infoPath (sumsName stem)
      match root.readText path with
      | .error err => readSums root wanted all owning stems (s.ioError path err)
      | .ok t =>
        let note := path.display ++ " is larger than 1 MiB; only the start was read"
        let run := { s.run with isPartial := true, notes := s.run.notes ++ [note] }
        let package := stem.takeWhile (· ≠ ':')
        let (out, s) := readSums root wanted all owning stems (if t.truncated then { s with run := run } else s)
        (wantedRecords wanted all (parseMd5sums t.text.toList package) ++ out, s)

/-- The first record of every path -/
def keepFirst : List (List Char) → List Recorded → List Recorded
  | _, [] => []
  | seen, r :: out => if r.path ∈ seen then keepFirst seen out else r :: keepFirst (r.path :: seen) out

def dpkgRecords (root : Root) (targets : List (List Char)) (all : Bool) (cancel : Cancellation) (s : Checking) :
    List Recorded × Checking :=
  match root.readDir infoDir with
  | .error err => ([], s.ioError infoDir err)
  | .ok entries =>
    let stems := entries.filterMap fun e => sumsStem e.name.toList
    let wanted := wantedOf targets
    let owning := if all then [] else owningOf root wanted cancel 0 entries
    let (out, s) := readSums root wanted all owning stems s
    (keepFirst [] out, s)

/-- How often the token is asked in the loop over the *.list files. -/
def timesAsked (root : Root) : ℕ :=
  match root.readDir infoDir with
  | .error _ => 0
  | .ok entries => entries.countP isList

/-! ### What is recorded -/

/-- A path that a target is looked for under: its own, or its alias when that is no target. -/
def Covers (targets : List (List Char)) (t p : List Char) : Prop :=
  p = t ∨ (usrmergeAlias t = some p ∧ p ∉ targets)

/-- The text of a file in the directory of the database, as far as it can be read. -/
def FileText (root : Root) (name : Bytes) (text : List Char) : Prop :=
  ∃ node steps, root.resolve (infoDir.join name) = .ok node ∧ node.info.kind = .file ∧ node.reads = .ok steps ∧
    text = (toStringLossy (SystemCheck.contentOf steps)).toList

/-- The directory has a file with this text. -/
def HasFile (root : Root) (name : Bytes) (text : List Char) : Prop :=
  (∃ entries, root.listing infoDir = .ok entries ∧ ∃ e ∈ entries, e.name = name) ∧ FileText root name text

/-- A line of digests: 32 hexadecimal digits, blanks and a path, which may go without its leading slash. -/
def SumLine (path digest line : List Char) : Prop :=
  ∃ sum gap rest, line = sum ++ gap ++ rest ∧ sum.length = 32 ∧ (∀ c ∈ sum, isHexDigit c = true) ∧ gap ≠ [] ∧ Blank gap ∧
    (∃ c ∈ rest.head?, isWhitespace c = false) ∧ digest = sum.map Char.toLower ∧ path = '/' :: rest.dropWhile (· = '/')

/-- A text records a digest of a path. -/
def RecordsSum (text path digest : List Char) : Prop := ∃ line ∈ lines text, SumLine path digest line

/-- A package lists the target, or its alias, and records a digest of it. -/
def Recordable (root : Root) (targets : List (List Char)) (t : List Char) : Prop :=
  ∃ (package : Bytes) (p digest listText sumsText : List Char), Covers targets t p ∧
    HasFile root (package ++ utf8Bytes ".list") listText ∧ p ∈ lines listText ∧
    HasFile root (package ++ utf8Bytes ".md5sums") sumsText ∧ RecordsSum sumsText p digest

/-- Every target that a package records has one record, with a digest recorded for it, and only targets have records. -/
structure Covered (root : Root) (targets : List (List Char)) (records : List Recorded) : Prop where
  one : ∀ t ∈ targets, Recordable root targets t → ∃ r, records.filter (fun r => r.path = t) = [r] ∧ r.algo = .md5 ∧
    ∃ (package : Bytes) (text p : List Char), FileText root (package ++ utf8Bytes ".md5sums") text ∧
      RecordsSum text p r.digest ∧ Covers targets t p
  only : ∀ r ∈ records, r.path ∈ targets

/-- A package is selected, and its digests are read: among the names listed are its `.md5sums` and a `.list` that has a
line with a target or alias in the part that is read. -/
structure Selected (root : Root) (targets : List (List Char)) (package : List Char) (sums : Text) : Prop where
  listed : ∃ entries, root.readDir infoDir = .ok entries ∧ (∃ e ∈ entries, e.name.toList = sumsName package) ∧
    ∃ e ∈ entries, isList e = true ∧ listStem e.name.toList = package ∧
      ∃ t, root.readText (infoPath e.name.toList) = .ok t ∧
        ∃ p ∈ lines t.text.toList, ∃ target ∈ targets, Covers targets target p
  sums : root.readText (infoPath (sumsName package)) = .ok sums

/-- Every target that a package records is recorded by a package that is selected. -/
def AllSelected (root : Root) (targets : List (List Char)) : Prop :=
  ∀ t ∈ targets, Recordable root targets t → ∃ package sums, Selected root targets package sums ∧
    ∃ p digest, RecordsSum sums.text.toList p digest ∧ Covers targets t p

end AbyssalWarden.Packages

import AbyssalWarden.WinRules

/-! Scheduled tasks as they are read: a scanner for the elements of one name, and the references in their texts. -/
namespace AbyssalWarden.TaskXml

open WinRules

/-! ### Elements -/

/-- `after.starts_with(['>', ' ', '\t', '\r', '\n', '/'])` -/
def isDelimiter (c : Char) : Bool := c = '>' || c = ' ' || c = '\t' || c = '\r' || c = '\n' || c = '/'

def startsTag (after : List Char) : Bool := after.head?.any isDelimiter

def opening (tag : List Char) : List Char := '<' :: tag

def closing (tag : List Char) : List Char := '<' :: ('/' :: tag ++ ['>'])

/-- What the next occurrence of an opening gives. -/
inductive Next where
  | finished
  | other (rest : List Char)
  | empty (rest : List Char)
  | whole (body rest : List Char)

/-- The element that starts with the head of a tag, up to its `>`. -/
def nextBody (tag head body : List Char) : Next :=
  if head.getLast? = some '/' then .empty body
  else
    match findStr (closing tag) body with
    | none => .finished
    | some ended => .whole (body.take (body.length - ended.length)) (ended.drop (closing tag).length)

def nextTag (tag after : List Char) : Next :=
  if startsTag after = false then .other after
  else
    match splitOnce '>' after with
    | none => .finished
    | some (head, body) => nextBody tag head body

/-- One round of the loop. -/
def next (tag rest : List Char) : Next :=
  match findStr (opening tag) rest with
  | none => .finished
  | some found => nextTag tag (found.drop (opening tag).length)

/-- The loop, after `k` elements; it ends when `full` says there are enough. -/
def elementsFrom (full : ℕ → Bool) (tag : List Char) : ℕ → ℕ → List Char → List (List Char)
  | 0, _, _ => []
  | fuel + 1, k, rest =>
    match next tag rest with
    | .finished => []
    | .other rest => elementsFrom full tag fuel k rest
    | .empty rest => [] :: elementsFrom full tag fuel (k + 1) rest
    | .whole body rest => body :: if full (k + 1) then [] else elementsFrom full tag fuel (k + 1) rest

/-- Contents of the elements with a name, until there are 64. -/
def elements (xml tag : List Char) : List (List Char) := elementsFrom (64 ≤ ·) tag (xml.length + 1) 0 xml

/-! ### References -/

/-- `str::parse::<u32>`: an optional `+`, then digits, below `2^32`. -/
def parseU32 (s : List Char) : Option ℕ :=
  let digits := if s.head? = some '+' then s.tail else s
  if digits ≠ [] ∧ digits.all Char.isDigit ∧ Nat.ofDigitChars 10 digits 0 < 2^32 then
    some (Nat.ofDigitChars 10 digits 0)
  else none

/-- `char::from_u32` -/
def charFromU32 (n : ℕ) : Option Char := if n.isValidChar then some (Char.ofNat n) else none

/-- `ent.strip_prefix(start)` -/
def stripStart (start ent : List Char) : Option (List Char) :=
  if start.isPrefixOf ent then some (ent.drop start.length) else none

/-- The character that is named between `&` and `;`. -/
def entityChar (ent : List Char) : Option Char :=
  if ent = "amp".toList then some '&'
  else if ent = "lt".toList then some '<'
  else if ent = "gt".toList then some '>'
  else if ent = "quot".toList then some '"'
  else if ent = "apos".toList then some '\''
  else (((stripStart ['#', 'x'] ent).bind parseHexU32).or ((stripStart ['#'] ent).bind parseU32)).bind charFromU32

def utf8Length (s : List Char) : ℕ := (s.map Char.utf8Size).sum

/-- The name between `&` and a `;` at most ten bytes further on, and what follows. -/
def reference (after : List Char) : Option (List Char × List Char) :=
  (splitOnce ';' after).filter fun (ent, _) => 1 + utf8Length ent ≤ 10

def unescapeFrom : ℕ → List Char → List Char
  | 0, rest => rest
  | fuel + 1, rest =>
    match splitOnce '&' rest with
    | none => rest
    | some (pre, after) =>
      match reference after with
      | none => pre ++ '&' :: unescapeFrom fuel after
      | some (ent, rest) => pre ++ ((entityChar ent).elim ('&' :: ent ++ [';']) ([·]) ++ unescapeFrom fuel rest)

def unescape (s : List Char) : List Char := unescapeFrom (trim s).length (trim s)

/-! ### Tasks -/

structure Task where
  commands : List (List Char)
  comHandlers : List (List Char)
  enabled : Bool
  hidden : Bool
  user : Option (List Char)
  deriving DecidableEq

def first (xml tag : List Char) : Option (List Char) := (elements xml tag).head?.map unescape

/-- A command with its arguments. -/
def commandLine (cmd args : List Char) : List Char := if args = [] then cmd else cmd ++ ' ' :: args

def execCommand (exec : List Char) : Option (List Char) :=
  (first exec "Command".toList).map fun cmd => commandLine cmd ((first exec "Arguments".toList).getD [])

def parseTask (xml : List Char) : Task :=
  let settings := (elements xml "Settings".toList).head?.getD []
  { commands := (elements xml "Exec".toList).filterMap execCommand
    comHandlers := (elements xml "ComHandler".toList).filterMap (first · "ClassId".toList)
    enabled := (first settings "Enabled".toList).all fun v => lowercase v ≠ "false".toList
    hidden := (first settings "Hidden".toList).any fun v => lowercase v = "true".toList
    user := (elements xml "Principal".toList).head?.bind fun p =>
      (first p "UserId".toList).or (first p "GroupId".toList) }

end AbyssalWarden.TaskXml

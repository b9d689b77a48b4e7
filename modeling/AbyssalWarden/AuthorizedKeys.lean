import AbyssalWarden.TextFields

/-! Lines of `authorized_keys`: how they are taken apart into options, key and comment, and how the command that a key is
forced to is found in its options. -/
namespace AbyssalWarden.SshKeys

structure Key where
  kind : List Char
  comment : List Char
  options : List Char
  command : Option (List Char)
  deriving DecidableEq

def keyTypes : List (List Char) := ["ssh-", "ecdsa-", "sk-"].map String.toList

/-- A text that starts as a key type does -/
def startsKey (t : List Char) : Bool := keyTypes.any fun p => p.isPrefixOf t

/-- `join(" ")` -/
def unwords (tokens : List (List Char)) : List Char := [' '].intercalate tokens

/-- The loop of `split_options_aware`; `cur` is the token so far. -/
def splitFrom (cur : List Char) (quoted escaped : Bool) : List Char → List (List Char)
  | [] => if cur = [] then [] else [cur]
  | c :: rest =>
    if escaped then splitFrom (cur ++ [c]) quoted false rest
    else if c = '\\' ∧ quoted then splitFrom (cur ++ [c]) quoted true rest
    else if c = '"' then splitFrom (cur ++ [c]) (!quoted) false rest
    else if isWhitespace c ∧ ¬ quoted then
      if cur = [] then splitFrom [] quoted false rest else cur :: splitFrom [] quoted false rest
    else splitFrom (cur ++ [c]) quoted false rest

/-- Whitespace split that keeps quoted option values together. -/
def splitOptionsAware (line : List Char) : List (List Char) := splitFrom [] false false line

/-- The loop of `forced_command`: up to the next quote that is not escaped. -/
def unquote : Bool → List Char → Option (List Char)
  | _, [] => none
  | true, c :: rest => (unquote false rest).map (c :: ·)
  | false, c :: rest =>
    if c = '\\' then unquote true rest
    else if c = '"' then some []
    else (unquote false rest).map (c :: ·)

def commandStart : List Char := "command=\"".toList

def forcedCommand (options : List Char) : Option (List Char) :=
  (findStr commandStart options).bind fun found => unquote false (found.drop commandStart.length)

/-- What stands for a missing comment. -/
def shownComment (comment : List Char) : List Char := if comment = [] then "(no comment)".toList else comment

/-- The key among the words of a line: its type is the first that starts as one. -/
def keyOf (tokens : List (List Char)) : Option Key :=
  match tokens.dropWhile (fun t => !startsKey t) with
  | [] => none
  | kind :: rest =>
    let options := unwords (tokens.takeWhile fun t => !startsKey t)
    some ⟨kind, shownComment (unwords rest.tail), options, forcedCommand options⟩

/-- The key of one line, if it has one -/
def parseKey (line : List Char) : Option Key :=
  let line := trim line
  if line = [] ∨ line.head? = some '#' then none else keyOf (splitOptionsAware line)

def maxLines : ℕ := 10000

def parseKeys (text : List Char) : List Key := ((lines text).take maxLines).filterMap parseKey

/-! ### What is printed -/

/-- An option: a name, and perhaps a value in quotes. -/
structure Opt where
  name : List Char
  value : Option (List Char)
  named : name ≠ [] ∧ ∀ c ∈ name, isWhitespace c = false ∧ c ∉ ['"', '\\', ',', '=', '#']
  valued : ∀ v ∈ value, ∀ c ∈ v, c ∉ ['\\', '\n', '\r']
  deriving DecidableEq

/-- Quotes in a value have a backslash before them. -/
def escape (v : List Char) : List Char := v.flatMap fun c => if c = '"' then ['\\', '"'] else [c]

def Opt.text (o : Opt) : List Char :=
  match o.value with
  | none => o.name
  | some v => o.name ++ '=' :: '"' :: escape v ++ ['"']

/-- A word in a line of a key: no quotes and no white space. -/
def IsWord (w : List Char) : Prop := w ≠ [] ∧ ∀ c ∈ w, isWhitespace c = false ∧ c ≠ '"'

instance (w : List Char) : Decidable (IsWord w) := inferInstanceAs (Decidable (_ ∧ _))

/-- A key as it is printed: its comment is any text, and may be missing. -/
structure KeyLine where
  options : List Opt
  kind : List Char
  blob : List Char
  comment : List Char
  kindWord : IsWord kind
  kindStarts : startsKey kind = true
  blobWord : IsWord blob
  commentLine : ∀ c ∈ comment, c ∉ ['\n', '\r']

namespace KeyLine

def optionsText (k : KeyLine) : List Char := [','].intercalate (k.options.map Opt.text)

def text (k : KeyLine) : List Char :=
  (if k.options = [] then [] else k.optionsText ++ [' ']) ++ k.kind ++ ' ' :: k.blob ++
    (if k.comment = [] then [] else ' ' :: k.comment)

end KeyLine

/-- No key type starts at the beginning of the text or after white space. -/
def NoKey (text : List Char) : Prop :=
  startsKey text = false ∧ ∀ pre c post, text = pre ++ c :: post → isWhitespace c = true → startsKey post = false

/-- A line of the file: a key, or a line that is blank, a comment or without a key. -/
inductive Item where
  | key (k : KeyLine)
  | other (text : List Char) (h : trim text = [] ∨ (trim text).head? = some '#' ∨ NoKey text)
      (hline : ∀ c ∈ text, c ∉ ['\n', '\r'])

namespace Item

def text : Item → List Char
  | key k => k.text
  | other text _ _ => text

def key? : Item → Option KeyLine
  | key k => some k
  | other _ _ _ => none

end Item

/-- The text of a file -/
def fileText (items : List Item) : List Char := unlines '\n' (items.map Item.text)

/-! ### What should be recovered -/

/-- A value of a command option -/
def IsCommand (options : List Opt) (c : List Char) : Prop :=
  ∃ o ∈ options, o.name = "command".toList ∧ o.value = some c

/-- What is parsed of a key: its type, options and comment, and the value of its command option. -/
structure Recovers (k : KeyLine) (key : Key) : Prop where
  kind : key.kind = k.kind
  options : key.options = k.optionsText
  comment : key.comment = shownComment k.comment
  command : ∀ c, key.command = some c ↔ IsCommand k.options c

/-- One key is parsed for each key line, in order. -/
def AllRecovered (items : List Item) : Prop :=
  List.Forall₂ Recovers (items.filterMap Item.key?) (parseKeys (fileText items))

/-! ### When it is -/

/-- Blanks outside quotes are single and have a word after them; the text starts in a word. -/
def spacedFrom (quoted escaped : Bool) : List Char → Bool
  | [] => true
  | c :: rest =>
    if escaped then spacedFrom quoted false rest
    else if c = '\\' ∧ quoted then spacedFrom quoted true rest
    else if c = '"' then spacedFrom (!quoted) false rest
    else if isWhitespace c ∧ ¬ quoted then
      c = ' ' && rest.head?.any (fun d => !isWhitespace d) && spacedFrom quoted false rest
    else spacedFrom quoted false rest

/-- The words of a comment are separated by single blanks. -/
def SingleSpaced (comment : List Char) : Prop := trim comment = comment ∧ spacedFrom false false comment = true

/-- The text between the last option that was read and the value of the next one -/
def upToQuote : List Opt → Option (List Char)
  | [] => none
  | o :: rest =>
    match o.value with
    | none => (upToQuote rest).map fun t => ',' :: o.name ++ t
    | some _ => some (',' :: o.name ++ ['='])

/-- The first option whose name ends in `command`, or whose value ends in `command=`, is a command option, and no other
has another value; or it so happens that what stands in its place is read as the command. -/
def CommandFirst : List Opt → Prop
  | [] => True
  | o :: rest =>
    match o.value with
    | none => CommandFirst rest
    | some v =>
      if o.name = "command".toList then ∀ c, IsCommand rest c → c = v
      else if "command".toList <:+ o.name then ∀ c, IsCommand rest c ↔ c = v
      else if "command=".toList <:+ v then ∀ c, IsCommand rest c ↔ upToQuote rest = some c
      else CommandFirst rest

/-- The options are told from the type, the words of the comment are separated by single blanks, and the first thing that
looks like the command is the command. -/
structure KeyLine.Plain (k : KeyLine) : Prop where
  named : ∀ o ∈ k.options.head?, startsKey o.name = false
  spaced : SingleSpaced k.comment
  command : CommandFirst k.options

end AbyssalWarden.SshKeys

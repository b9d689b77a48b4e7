import AbyssalWarden.XmlScanning

/-! Scheduled tasks that are printed as XML documents, and the tasks that are read back. -/
namespace AbyssalWarden.TaskXml

open WinRules

namespace Forest

/-! ### What a document says -/

/-- The text that stands directly in it. -/
def pieces : Forest → List Piece
  | .nil => []
  | .text ps rest => ps ++ rest.pieces
  | .comment _ _ rest => rest.pieces
  | .empty _ rest => rest.pieces
  | .elem _ _ _ _ rest => rest.pieces

/-- The text, without the white space around it. -/
def value (f : Forest) : List Char := valueOf (core f.pieces)

/-- The text of the first element with a name. -/
def firstValue (name : List Char) (f : Forest) : Option (List Char) := (f.find name).head?.map value

def command (exec : Forest) : Option (List Char) :=
  (exec.firstValue "Command".toList).map fun cmd => commandLine cmd ((exec.firstValue "Arguments".toList).getD [])

/-- The task that a document describes. -/
def task (f : Forest) : Task :=
  let settings := (f.find "Settings".toList).head?.getD .nil
  { commands := (f.find "Exec".toList).filterMap command
    comHandlers := (f.find "ComHandler".toList).filterMap (firstValue "ClassId".toList)
    enabled := (settings.firstValue "Enabled".toList).all fun v => lowercase v ≠ "false".toList
    hidden := (settings.firstValue "Hidden".toList).any fun v => lowercase v = "true".toList
    user := (f.find "Principal".toList).head?.bind fun p =>
      (p.firstValue "UserId".toList).or (p.firstValue "GroupId".toList) }

/-- Nothing but text. -/
def Leaf : Forest → Prop
  | .nil => True
  | .text _ rest => rest.Leaf
  | .comment _ _ _ => False
  | .empty _ _ => False
  | .elem _ _ _ _ _ => False

/-- The elements of a name can be seen, and are texts with short references. -/
def Field (name : List Char) (f : Forest) : Prop :=
  f.Shown name ∧ ∀ l ∈ f.find name, l.Leaf ∧ ∀ p ∈ core l.pieces, p.Short

/-- A document in which the elements of a task can be seen, with at most 64 actions of a kind. -/
structure Readable (f : Forest) : Prop where
  settings : f.Shown "Settings".toList
  principal : f.Shown "Principal".toList
  exec : f.Shown "Exec".toList
  comHandler : f.Shown "ComHandler".toList
  flags : ∀ b ∈ f.find "Settings".toList, b.Field "Enabled".toList ∧ b.Field "Hidden".toList
  user : ∀ b ∈ f.find "Principal".toList, b.Field "UserId".toList ∧ b.Field "GroupId".toList
  command : ∀ b ∈ f.find "Exec".toList, b.Field "Command".toList ∧ b.Field "Arguments".toList
  classId : ∀ b ∈ f.find "ComHandler".toList, b.Field "ClassId".toList
  execFew : (f.find "Exec".toList).length ≤ 64
  comHandlerFew : (f.find "ComHandler".toList).length ≤ 64

/-- The document without its comments. -/
def strip : Forest → Forest
  | .nil => .nil
  | .text ps rest => .text ps rest.strip
  | .comment _ _ rest => rest.strip
  | .empty tag rest => .empty tag rest.strip
  | .elem tag endGap h body rest => .elem tag endGap h body.strip rest.strip

end Forest

/-- A document: elements, perhaps after an XML declaration. -/
structure Document where
  declaration : Option (List Attribute)
  forest : Forest

def declarationText (attributes : List Attribute) : List Char :=
  '<' :: '?' :: 'x' :: 'm' :: 'l' :: (attributes.flatMap Attribute.text ++ ['?', '>'])

def Document.text (d : Document) : List Char := (d.declaration.elim [] declarationText) ++ d.forest.print

section

variable {name : List Char} {f : Forest} {d : Document}

/-! ### Reading -/

theorem scanAll_nil : scanAll name [] = [] := rfl

theorem scanAll_forest (hname : Wanted name) (h : f.Shown name) : scanAll name f.print = (f.find name).map Forest.print := by
  have hscan := scanAll_print (t := []) hname h
  rwa [List.append_nil, scanAll_nil, List.append_nil] at hscan

/-- The declaration is passed over. -/
theorem scanAll_document (hname : Wanted name) (h : d.forest.Shown name) :
    scanAll name d.text = (d.forest.find name).map Forest.print := by
  rw [Document.text]
  cases d.declaration with
  | none => exact scanAll_forest hname h
  | some attributes =>
    have hlt : '<' ∉ attributes.flatMap Attribute.text := by
      intro hmem
      obtain ⟨a, -, ha⟩ := List.mem_flatMap.mp hmem
      exact (attribute_clean a).1 ha
    have hquiet : Quiet (Starts name) (declarationText attributes) d.forest.print := by
      refine quiet_markup starts_fromMarkup ?_ (not_starts hname (by decide))
      simp [hlt]
    rw [Option.elim_some, scanAll_quiet (hname.not_mem (by decide)) hquiet, scanAll_forest hname h]

theorem print_leaf (h : f.Leaf) : f.print = textOf f.pieces := by
  induction f with
  | nil => rfl
  | text ps rest ih => rw [Forest.print, Forest.pieces, textOf_append, ih h]
  | comment c hc rest ih => cases h
  | empty tag rest ih => cases h
  | elem tag endGap hgap body rest ihbody ih => cases h

/-- A field is read as its text. -/
theorem first_print (hname : Wanted name) (h : f.Field name) : first f.print name = f.firstValue name := by
  rw [first, head?_elements, scanAll_forest hname h.1, Forest.firstValue, List.head?_map, Option.map_map]
  cases hhead : (f.find name).head? with
  | none => rfl
  | some l =>
    obtain ⟨hleaf, hshort⟩ := h.2 l (List.mem_of_head? hhead)
    rw [Option.map_some, Option.map_some, Function.comp_apply, print_leaf hleaf, unescape_textOf_iff.mpr hshort, Forest.value]

theorem filterMap_print {α : Type*} {read : List Char → Option α} {say : Forest → Option α} {l : List Forest}
    (h : ∀ b ∈ l, read b.print = say b) : (l.map Forest.print).filterMap read = l.filterMap say := by
  induction l with
  | nil => rfl
  | cons b l ih =>
    obtain ⟨hb, hl⟩ := List.forall_mem_cons.mp h
    rw [List.map_cons, List.filterMap_cons, List.filterMap_cons, hb, ih hl]

theorem wanted_names : ∀ name ∈ ["Settings".toList, "Principal".toList, "Exec".toList, "ComHandler".toList, "Enabled".toList,
    "Hidden".toList, "UserId".toList, "GroupId".toList, "Command".toList, "Arguments".toList, "ClassId".toList],
    Wanted name := by decide

/-- A task is read as it is described. -/
theorem parseTask_text (h : d.forest.Readable) : parseTask d.text = d.forest.task := by
  -- of at most 64 elements with a name the scanner finds all
  have hfew {name : List Char} (hname : Wanted name) (hshown : d.forest.Shown name) (hfew : (d.forest.find name).length ≤ 64) :
      elements d.text name = (d.forest.find name).map Forest.print := by
    have hscan := scanAll_document hname hshown
    rw [elements_eq_scanAll (by rw [hscan, List.length_map]; exact hfew), hscan]
  -- the first one it finds in any case
  have hfirst {name : List Char} (hname : Wanted name) (hshown : d.forest.Shown name) :
      (elements d.text name).head? = (d.forest.find name).head?.map Forest.print := by
    rw [head?_elements, scanAll_document hname hshown, List.head?_map]
  have hexec := hfew (wanted_names _ (by decide)) h.exec h.execFew
  have hcom := hfew (wanted_names _ (by decide)) h.comHandler h.comHandlerFew
  have hsettings := hfirst (wanted_names _ (by decide)) h.settings
  have hprincipal := hfirst (wanted_names _ (by decide)) h.principal
  have hcommands : (elements d.text "Exec".toList).filterMap execCommand =
      (d.forest.find "Exec".toList).filterMap Forest.command := by
    rw [hexec]
    apply filterMap_print
    intro b hb
    obtain ⟨hcommand, harguments⟩ := h.command b hb
    rw [execCommand, first_print (wanted_names _ (by decide)) hcommand, first_print (wanted_names _ (by decide)) harguments,
      Forest.command]
  have hhandlers : (elements d.text "ComHandler".toList).filterMap (first · "ClassId".toList) =
      (d.forest.find "ComHandler".toList).filterMap (Forest.firstValue "ClassId".toList) := by
    rw [hcom]
    apply filterMap_print
    intro b hb
    exact first_print (wanted_names _ (by decide)) (h.classId b hb)
  -- without settings the flags have their defaults
  have hflags : ∀ b, (d.forest.find "Settings".toList).head?.getD .nil = b →
      (elements d.text "Settings".toList).head?.getD [] = b.print ∧ b.Field "Enabled".toList ∧ b.Field "Hidden".toList := by
    rintro b rfl
    rw [hsettings]
    cases hhead : (d.forest.find "Settings".toList).head? with
    | none =>
      refine ⟨rfl, ⟨trivial, ?_⟩, ⟨trivial, ?_⟩⟩
      · exact List.forall_mem_nil _
      · exact List.forall_mem_nil _
    | some b => exact ⟨rfl, h.flags b (List.mem_of_head? hhead)⟩
  obtain ⟨hsettings', henabled, hhidden⟩ := hflags _ rfl
  have huser : ((elements d.text "Principal".toList).head?.bind fun p =>
      (first p "UserId".toList).or (first p "GroupId".toList)) =
      (d.forest.find "Principal".toList).head?.bind fun p =>
        (p.firstValue "UserId".toList).or (p.firstValue "GroupId".toList) := by
    rw [hprincipal]
    cases hhead : (d.forest.find "Principal".toList).head? with
    | none => rfl
    | some b =>
      obtain ⟨huserId, hgroupId⟩ := h.user b (List.mem_of_head? hhead)
      rw [Option.map_some, Option.bind_some, Option.bind_some, first_print (wanted_names _ (by decide)) huserId,
        first_print (wanted_names _ (by decide)) hgroupId]
  simp only [parseTask, Forest.task, hcommands, hhandlers, hsettings', first_print (wanted_names _ (by decide)) henabled,
    first_print (wanted_names _ (by decide)) hhidden, huser]

/-! ### Comments -/

theorem find_strip : f.strip.find name = (f.find name).map Forest.strip := by
  induction f with
  | nil => rfl
  | text ps rest ih => exact ih
  | comment c hc rest ih => exact ih
  | empty tag rest ih =>
    rw [Forest.strip, Forest.find, Forest.find, ih]
    split
    · rfl
    · rfl
  | elem tag endGap hgap body rest ihbody ih =>
    rw [Forest.strip, Forest.find, Forest.find, ih, ihbody, List.map_append]
    split
    · rfl
    · rfl

theorem pieces_strip : f.strip.pieces = f.pieces := by
  induction f with
  | nil => rfl
  | text ps rest ih => rw [Forest.strip, Forest.pieces, Forest.pieces, ih]
  | comment c hc rest ih => exact ih
  | empty tag rest ih => exact ih
  | elem tag endGap hgap body rest ihbody ih => exact ih

theorem firstValue_strip : f.strip.firstValue name = f.firstValue name := by
  rw [Forest.firstValue, Forest.firstValue, find_strip, List.head?_map, Option.map_map]
  congr 1
  funext l
  rw [Function.comp_apply, Forest.value, Forest.value, pieces_strip]

/-- Comments say nothing. -/
theorem task_strip : f.strip.task = f.task := by
  have hcommand : ∀ b : Forest, b.strip.command = b.command := by
    intro b
    rw [Forest.command, Forest.command, firstValue_strip, firstValue_strip]
  have hsettings : ((f.find "Settings".toList).head?.map Forest.strip).getD .nil =
      ((f.find "Settings".toList).head?.getD .nil).strip := by
    cases (f.find "Settings".toList).head? with
    | none => rfl
    | some b => rfl
  simp only [Forest.task, find_strip, List.head?_map, hsettings, firstValue_strip, List.filterMap_map, Option.bind_map,
    Function.comp_def, hcommand]

/-- Where comments can be told from elements, they can be put in and taken out. -/
theorem parseTask_of_strip_eq {d' : Document} (h : d.forest.Readable) (h' : d'.forest.Readable)
    (hstrip : d.forest.strip = d'.forest.strip) : parseTask d.text = parseTask d'.text := by
  rw [parseTask_text h, parseTask_text h', ← task_strip, hstrip, task_strip]

end

/-- The task of a readable document is read as it is described, and does not change with its comments; a text is read
back, up to the white space around it, exactly when its references are short. -/
theorem tasks_read (d : Document) :
    (d.forest.Readable → parseTask d.text = d.forest.task) ∧
    (∀ d' : Document, d.forest.Readable → d'.forest.Readable → d.forest.strip = d'.forest.strip →
      parseTask d.text = parseTask d'.text) ∧
    ∀ ps, unescape (textOf ps) = valueOf (core ps) ↔ ∀ p ∈ core ps, p.Short :=
  ⟨parseTask_text, fun _ => parseTask_of_strip_eq, fun _ => unescape_textOf_iff⟩

/-! ### Documents -/

def plainTag (name : List Char) (named : name ≠ [] ∧ ∀ c ∈ name, isNameChar c = true) : Tag where
  name := name
  attributes := []
  gap := []
  named := named
  blank := List.forall_mem_nil _

def execTag : Tag := plainTag "Exec".toList (by decide)

def commandTag : Tag := plainTag "Command".toList (by decide)

/-- `<Command>x</Command>`, with a tag of its own. -/
def commandX (tag : Tag) : Forest :=
  .elem tag [] (List.forall_mem_nil _) (.text [.raw 'x' (by decide)] .nil) .nil

/-- `<Exec><Command>x</Command></Exec>`, before other elements. -/
def execX (rest : Forest) : Forest := .elem execTag [] (List.forall_mem_nil _) (commandX commandTag) rest

/-- A comment without markup, before an action. -/
def notedAction : Document where
  declaration := some []
  forest := .comment " daily ".toList (by decide) (execX .nil)

theorem not_starts_of_not_mem {name c : List Char} (h : '<' ∉ c) :
    ¬ ∃ d, isDelimiter d = true ∧ opening name ++ [d] <:+: c := by
  rintro ⟨d, -, hpart⟩
  exact h (hpart.subset List.mem_cons_self)

theorem commandX_shown {name : List Char} (h : "Command".toList ≠ name) : (commandX commandTag).Shown name :=
  ⟨fun heq => absurd heq h, fun _ => trivial, trivial⟩

theorem notedAction_shown {name : List Char} (hexec : "Exec".toList ≠ name) (hcommand : "Command".toList ≠ name) :
    notedAction.forest.Shown name :=
  ⟨not_starts_of_not_mem (by decide), fun heq => absurd heq hexec, fun _ => commandX_shown hcommand, trivial⟩

theorem notedAction_find {name : List Char} (hexec : "Exec".toList ≠ name) (hcommand : "Command".toList ≠ name) :
    notedAction.forest.find name = [] := by
  have hfind : notedAction.forest.find name = (if "Exec".toList = name then [commandX commandTag] else
    (if "Command".toList = name then [.text [.raw 'x' (by decide)] .nil] else []) ++ []) ++ [] := rfl
  rw [hfind, if_neg hexec, if_neg hcommand]
  rfl

theorem commandX_field {name : List Char} : (commandX commandTag).Field name := by
  by_cases hname : "Command".toList = name
  · subst hname
    refine ⟨⟨fun _ => ⟨List.forall_mem_nil _, rfl, trivial⟩, fun h => absurd rfl h, trivial⟩, ?_⟩
    intro l hl
    obtain rfl : l = .text [.raw 'x' (by decide)] .nil := List.mem_singleton.mp hl
    refine ⟨trivial, ?_⟩
    intro p hp
    obtain rfl : p = .raw 'x' (by decide) := List.mem_singleton.mp hp
    trivial
  · refine ⟨commandX_shown hname, ?_⟩
    have hfind : (commandX commandTag).find name =
      (if "Command".toList = name then [.text [.raw 'x' (by decide)] .nil] else []) ++ [] := rfl
    rw [hfind, if_neg hname]
    exact List.forall_mem_nil _

theorem notedAction_readable : notedAction.forest.Readable where
  settings := notedAction_shown (by decide) (by decide)
  principal := notedAction_shown (by decide) (by decide)
  exec := ⟨not_starts_of_not_mem (by decide), fun _ => ⟨List.forall_mem_nil _, rfl, by decide, trivial, trivial⟩,
    fun h => absurd rfl h, trivial⟩
  comHandler := notedAction_shown (by decide) (by decide)
  flags b hb := by
    rw [notedAction_find (by decide) (by decide)] at hb
    cases hb
  user b hb := by
    rw [notedAction_find (by decide) (by decide)] at hb
    cases hb
  command b hb := by
    obtain rfl : b = commandX commandTag := List.mem_singleton.mp hb
    exact ⟨commandX_field, commandX_field⟩
  classId b hb := by
    rw [notedAction_find (by decide) (by decide)] at hb
    cases hb
  execFew := by decide
  comHandlerFew := by decide

theorem notedAction_read : parseTask notedAction.text = notedAction.forest.task ∧
    notedAction.forest.task.commands = [['x']] :=
  ⟨(tasks_read notedAction).1 notedAction_readable, by decide⟩

/-- A comment that holds an action, before an action. -/
def commentedAction : Document where
  declaration := none
  forest := .comment "<Exec><Command>y</Command></Exec>".toList (by decide) (execX .nil)

def plainAction : Document := ⟨none, execX .nil⟩

/-- An end tag with a blank. -/
def spacedEnd : Document where
  declaration := none
  forest := .elem execTag [' '] (by decide) (commandX commandTag) .nil

/-- `<Command a="b>c">` -/
def markedAttribute : Document where
  declaration := none
  forest := .elem execTag [] (List.forall_mem_nil _)
    (commandX
      { name := "Command".toList
        attributes := [⟨[' '], ['a'], [], [], '"', "b>c".toList, by decide, by decide, by decide, by decide, by decide⟩]
        gap := []
        named := by decide
        blank := by decide })
    .nil

/-- Actions without a command, before one with a command. -/
def manyActions : ℕ → Forest
  | 0 => execX .nil
  | n + 1 => .elem execTag [] (List.forall_mem_nil _) .nil (manyActions n)

/-- `&#000000120;` -/
def longReference : List Piece := [.ref (.decimal "000000120".toList 'x' (by decide))]

/-- The plain document is read; a comment with markup adds a command, a blank in an end tag or a `>` in an attribute loses
or changes one, the last of 65 actions is not read, and a long reference is not decoded. -/
theorem tasks_not_read :
    parseTask plainAction.text = plainAction.forest.task ∧
    (commentedAction.forest.strip = plainAction.forest.strip ∧ commentedAction.forest.task.commands = [['x']] ∧
      (parseTask commentedAction.text).commands = [['y'], ['x']]) ∧
    (spacedEnd.forest.task.commands = [['x']] ∧ (parseTask spacedEnd.text).commands = []) ∧
    (markedAttribute.forest.task.commands = [['x']] ∧ (parseTask markedAttribute.text).commands = ["c\">x".toList]) ∧
    ((manyActions 64).task.commands = [['x']] ∧ (parseTask (manyActions 64).print).commands = []) ∧
    valueOf longReference = ['x'] ∧ unescape (textOf longReference) = "&#000000120;".toList := by
  refine ⟨?_, ⟨rfl, ?_, ?_⟩, ⟨?_, ?_⟩, ⟨?_, ?_⟩, ⟨?_, ?_⟩, ?_, ?_⟩
  all_goals decide +kernel

end AbyssalWarden.TaskXml

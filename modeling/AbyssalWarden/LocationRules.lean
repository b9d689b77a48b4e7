import AbyssalWarden.PathSpellings
import AbyssalWarden.PamStacks

/-! The rules about the place of an executable or a module, and how far they see the same place in other spellings. -/
namespace AbyssalWarden.Locations

open Spelling

/-- Directories whose files anyone can create. -/
def tempDirs : List (List Char) :=
  ["/tmp".toList, "/var/tmp".toList, "/dev/shm".toList, "/run/shm".toList, "/dev/mqueue".toList]

/-- Dot-directories that commonly hold user-installed tools. -/
def benignDotDirs : List (List Char) :=
  [".local".toList, ".cargo".toList, ".rustup".toList, ".npm".toList, ".nvm".toList, ".pyenv".toList, ".rbenv".toList,
    ".sdkman".toList, ".deno".toList, ".bun".toList, ".gem".toList, ".var".toList, ".config".toList, ".dotnet".toList,
    ".volta".toList, ".asdf".toList, ".opam".toList, ".ghcup".toList, ".go".toList]

inductive Component where
  | rootDir
  | curDir
  | parentDir
  | normal (name : List Char)
  deriving DecidableEq

def componentOf (part : List Char) : Component := if part = up then .parentDir else .normal part

/-- `Path::components`: a component that stays in its directory counts only at the start of a relative path. -/
def components (path : List Char) : List Component :=
  let parts := path.splitOn '/'
  let body := (parts.filter (!isIdle ·)).map componentOf
  if path.head? = some '/' then .rootDir :: body
  else if parts.head? = some here then .curDir :: body
  else body

/-- `path.starts_with(dir)` for one of the directories -/
def inTempDir (path : List Char) : Bool := tempDirs.any fun d => (components d).isPrefixOf (components path)

def Component.name? : Component → Option (List Char)
  | .normal name => some name
  | _ => none

/-- `name.starts_with('.') && name.len() > 1` -/
def isDotted (name : List Char) : Bool := name.head? = some '.' && 1 < name.length

/-- The file name is dotted, or a directory that is no tool directory. -/
def hidesName (names : List (List Char)) : Bool :=
  match names.getLast? with
  | none => false
  | some file => isDotted file || names.dropLast.any fun d => isDotted d && d ∉ benignDotDirs

def isHidden (path : List Char) : Bool := hidesName ((components path).filterMap Component.name?)

inductive LocationRule where
  | tempExec
  | hiddenExec
  deriving DecidableEq

/-- The finding about the place of an executable; `own` where the line that starts it is the command of the entry. -/
def locationRule (exe : List Char) (own : Bool) : Option LocationRule :=
  if inTempDir exe then some .tempExec else if isHidden exe && own then some .hiddenExec else none

/-! ### Absolute paths -/

section

variable {p q : List Char}

/-- The parts of the absolute path `/p`. -/
def parts (p : List Char) : List (List Char) := p.splitOn '/'

theorem components_absolute : components ('/' :: p) = .rootDir :: (location '/' false (parts p)).map componentOf := by
  have hsplit : ('/' :: p).splitOn '/' = [] :: parts p := List.splitOn_append_cons_self_of_not_mem List.not_mem_nil p
  rw [components, if_pos List.head?_cons, hsplit, location_false]
  rfl

/-- Components that stay and repeated separators do not change the components. -/
theorem components_plain (h : Respelled '/' false (parts p) (parts q)) : components ('/' :: q) = components ('/' :: p) := by
  rw [components_absolute, components_absolute, respelled_iff.mp h]

theorem inTempDir_plain (h : Respelled '/' false (parts p) (parts q)) : inTempDir ('/' :: q) = inTempDir ('/' :: p) := by
  rw [inTempDir, inTempDir, components_plain h]

theorem isHidden_plain (h : Respelled '/' false (parts p) (parts q)) : isHidden ('/' :: q) = isHidden ('/' :: p) := by
  rw [isHidden, isHidden, components_plain h]

theorem locationRule_plain {own : Bool} (h : Respelled '/' false (parts p) (parts q)) :
    locationRule ('/' :: q) own = locationRule ('/' :: p) own := by
  rw [locationRule, locationRule, inTempDir_plain h, isHidden_plain h]

/-! ### Names that are taken back -/

theorem parts_front {name : List Char} (hsep : '/' ∉ name) : parts (name ++ "/../".toList ++ p) = name :: up :: parts p := by
  have hslash : "/../".toList ++ p = '/' :: (up ++ '/' :: p) := rfl
  rw [parts, List.append_assoc, hslash, List.splitOn_append_cons_self_of_not_mem hsep,
    List.splitOn_append_cons_self_of_not_mem (by decide), parts]

/-- A name that is taken back at the start. -/
theorem respelled_front {pairs : Bool} (name : List Char) (hpairs : pairs = true) (hname : isName '/' name = true) :
    Respelled '/' pairs (parts p) (parts (name ++ "/../".toList ++ p)) := by
  have hsep : '/' ∉ name := by
    rw [isName, decide_eq_true_iff] at hname
    exact hname.2.2.2
  rw [parts_front hsep]
  exact (Inserted.pair [] (parts p) name hpairs hname).respelled

theorem components_front (name : List Char) (hsep : '/' ∉ name) (hidle : isIdle name = false) (hup : name ≠ up) :
    ∃ rest, components ('/' :: (name ++ "/../".toList ++ p)) = .rootDir :: .normal name :: rest := by
  refine ⟨(location '/' false (up :: parts p)).map componentOf, ?_⟩
  rw [components_absolute, parts_front hsep, location_false, location_false, List.filter_cons_of_pos (by rw [hidle]; rfl),
    List.map_cons, componentOf, if_neg hup]

theorem inTempDir_front_tmp : inTempDir ('/' :: ("tmp".toList ++ "/../".toList ++ p)) = true := by
  obtain ⟨rest, hrest⟩ := components_front (p := p) "tmp".toList (by decide) (by decide) (by decide)
  have htmp : components "/tmp".toList = [.rootDir, .normal "tmp".toList] := by decide
  rw [inTempDir, hrest]
  refine List.any_eq_true.mpr ⟨"/tmp".toList, List.mem_cons_self, ?_⟩
  rw [htmp]
  rfl

theorem inTempDir_front_other : inTempDir ('/' :: ("a".toList ++ "/../".toList ++ p)) = false := by
  obtain ⟨rest, hrest⟩ := components_front (p := p) "a".toList (by decide) (by decide) (by decide)
  -- the second component of no directory is the name
  have hsecond : ∀ d ∈ tempDirs, (components d)[1]? ≠ some (.normal "a".toList) ∧ (components d)[1]? ≠ none := by decide
  rw [inTempDir, hrest, List.any_eq_false]
  intro d hd hprefix
  obtain ⟨hother, hsome⟩ := hsecond d hd
  obtain ⟨t, ht⟩ := List.isPrefixOf_iff_prefix.mp hprefix
  have hget : (components d ++ t)[1]? = some (.normal "a".toList) := by rw [ht]; rfl
  rcases Nat.lt_or_ge 1 (components d).length with hlt | hge
  · rw [List.getElem?_append_left hlt] at hget
    exact hother hget
  · exact hsome (List.getElem?_eq_none hge)

/-- In some spelling the place of any path is in a temporary directory, and in another it is not. -/
theorem inTempDir_unstable :
    ¬ ∀ q, Respelled '/' true (parts p) (parts q) → inTempDir ('/' :: q) = inTempDir ('/' :: p) := by
  intro h
  have htmp := h _ (respelled_front (p := p) "tmp".toList rfl (by decide))
  have hother := h _ (respelled_front (p := p) "a".toList rfl (by decide))
  rw [inTempDir_front_tmp] at htmp
  rw [inTempDir_front_other, ← htmp] at hother
  cases hother

theorem locationRule_eq_tempExec_iff {exe : List Char} (own : Bool) :
    locationRule exe own = some .tempExec ↔ inTempDir exe = true := by
  rw [locationRule]
  cases inTempDir exe with
  | true => simp
  | false =>
    cases isHidden exe && own with
    | true => simp
    | false => simp

theorem locationRule_unstable {own : Bool} :
    ¬ ∀ q, Respelled '/' true (parts p) (parts q) → locationRule ('/' :: q) own = locationRule ('/' :: p) own := by
  intro h
  apply inTempDir_unstable (p := p)
  intro q hq
  apply Bool.eq_iff_iff.mpr
  rw [← locationRule_eq_tempExec_iff own, ← locationRule_eq_tempExec_iff own, h q hq]

/-! ### Hidden names -/

theorem hidesName_of_mem {names : List (List Char)} {name : List Char} (hname : name ∈ names) (hdotted : isDotted name = true)
    (hbenign : name ∉ benignDotDirs) : hidesName names = true := by
  rw [hidesName]
  rcases List.eq_nil_or_concat names with rfl | ⟨dirs, file, rfl⟩
  · cases hname
  · rw [List.concat_eq_append, List.mem_append, List.mem_singleton] at hname
    rw [List.concat_eq_append, List.getLast?_concat, List.dropLast_concat]
    rcases hname with hname | rfl
    · have hany : (dirs.any fun d => isDotted d && decide (d ∉ benignDotDirs)) = true :=
        List.any_eq_true.mpr ⟨name, hname, by rw [hdotted]; exact decide_eq_true hbenign⟩
      dsimp only
      rw [hany, Bool.or_true]
    · dsimp only
      rw [hdotted, Bool.true_or]

theorem names_absolute : (components ('/' :: p)).filterMap Component.name? =
    (location '/' false (parts p)).filter fun part => part ≠ up := by
  rw [components_absolute, List.filterMap_cons]
  have hname : ∀ part, Component.name? (componentOf part) = if part = up then none else some part := by
    intro part
    rw [componentOf]
    split
    · rfl
    · rfl
  have hmap : ∀ l : List (List Char), (l.map componentOf).filterMap Component.name? = l.filter fun part => part ≠ up := by
    intro l
    induction l with
    | nil => rfl
    | cons part l ih =>
      rw [List.map_cons, List.filterMap_cons, hname, ih]
      by_cases h : part = up
      · simp [h]
      · simp [h]
  exact hmap _

/-- A spelling of a place holds its components. -/
theorem mem_names_of_location {pairs : Bool} {part : List Char} (h : part ∈ location '/' pairs (parts p)) (hup : part ≠ up) :
    part ∈ (components ('/' :: p)).filterMap Component.name? := by
  rw [names_absolute, location_false]
  exact List.mem_filter.mpr ⟨mem_filter_of_location h, decide_eq_true hup⟩

/-- A component of the place is hidden and no tool directory. -/
def Dotted (p : List Char) : Prop :=
  ∃ part ∈ location '/' true (parts p), part ≠ up ∧ isDotted part = true ∧ part ∉ benignDotDirs

theorem isHidden_of_dotted (h : Dotted p) (hq : Respelled '/' true (parts p) (parts q)) : isHidden ('/' :: q) = true := by
  obtain ⟨part, hpart, hup, hdotted, hbenign⟩ := h
  rw [respelled_iff.mp hq] at hpart
  exact hidesName_of_mem (mem_names_of_location hpart hup) hdotted hbenign

theorem isHidden_front : isHidden ('/' :: (".x".toList ++ "/../".toList ++ p)) = true := by
  obtain ⟨rest, hrest⟩ := components_front (p := p) ".x".toList (by decide) (by decide) (by decide)
  rw [isHidden, hrest]
  exact hidesName_of_mem (List.mem_cons_self) (by decide) (by decide)

/-- The canonical spelling, with a name that is taken back at its end. -/
theorem exists_shown (h : ¬ Dotted p) : ∃ q, Respelled '/' true (parts p) (parts q) ∧ isHidden ('/' :: q) = false := by
  have hclean : ∀ part ∈ location '/' true (parts p) ++ ["a".toList, up], '/' ∉ part := by
    intro part hpart
    rcases List.mem_append.mp hpart with hpart | hpart
    · exact not_mem_of_mem_splitOn part (location_sublist.subset hpart)
    · rcases List.mem_pair.mp hpart with rfl | rfl
      all_goals decide
  -- a name is added and taken back, so that the last name is a plain one
  obtain ⟨q, hq⟩ := exists_splitOn (List.append_ne_nil_of_right_ne_nil _ (List.cons_ne_nil _ _)) hclean
  have hnames : (components ('/' :: q)).filterMap Component.name? =
      (location '/' true (parts p)).filter (fun part => part ≠ up) ++ ["a".toList] := by
    have hkept : (location '/' true (parts p)).filter (!isIdle ·) = location '/' true (parts p) :=
      List.filter_eq_self.mpr fun part hpart => by rw [location_kept part hpart]; rfl
    rw [names_absolute, parts, hq, location_false, List.filter_append, hkept, List.filter_append]
    rfl
  refine ⟨q, ?_, ?_⟩
  · rw [parts, parts, hq]
    have hpair : Respelled '/' true (location '/' true (p.splitOn '/') ++ []) (location '/' true (p.splitOn '/') ++ ["a".toList, up]) :=
      (Inserted.pair _ [] "a".toList rfl (by decide)).respelled
    rw [List.append_nil] at hpair
    exact respelled_location.trans hpair
  · rw [isHidden, hnames, hidesName, List.getLast?_concat, List.dropLast_concat]
    have hany : (((location '/' true (parts p)).filter fun part => part ≠ up).any
        fun d => isDotted d && decide (d ∉ benignDotDirs)) = false := by
      rw [List.any_eq_false]
      intro part hpart hbad
      obtain ⟨hmem, hup⟩ := List.mem_filter.mp hpart
      obtain ⟨hdotted, hbenign⟩ := (Bool.and_eq_true _ _).mp hbad
      exact h ⟨part, hmem, of_decide_eq_true hup, hdotted, of_decide_eq_true hbenign⟩
    dsimp only
    rw [hany]
    rfl

/-- Whether a path is hidden is one answer for all its spellings exactly when the place itself has a hidden component. -/
theorem isHidden_stable_iff :
    (∀ q, Respelled '/' true (parts p) (parts q) → isHidden ('/' :: q) = isHidden ('/' :: p)) ↔ Dotted p := by
  constructor
  · intro h
    by_contra hdotted
    obtain ⟨q, hq, hshown⟩ := exists_shown hdotted
    have hfront := h _ (respelled_front (p := p) ".x".toList rfl (by decide))
    rw [isHidden_front] at hfront
    have hcanonical := h q hq
    rw [hshown, ← hfront] at hcanonical
    cases hcanonical
  · intro h q hq
    rw [isHidden_of_dotted h hq, isHidden_of_dotted h Respelled.refl]

/-! ### Module directories -/

/-- The names of a module directory. -/
def dirNames (d : List Char) : List (List Char) := (parts d.tail).dropLast

/-- A module directory is its names, each with a separator after it. -/
theorem moduleDir_eq : ∀ d ∈ Pam.moduleDirs, d = '/' :: (dirNames d).flatMap (· ++ ['/']) := by decide

theorem dirNames_clean : ∀ d ∈ Pam.moduleDirs, ∀ n ∈ dirNames d, '/' ∉ n ∧ isIdle n = false ∧ n ≠ up := by decide

theorem isPrefix_moduleDir {d : List Char} (hd : d ∈ Pam.moduleDirs) :
    d <+: '/' :: q ↔ ∃ rest, rest ≠ [] ∧ parts q = dirNames d ++ rest := by
  have hd' := moduleDir_eq d hd
  rw [parts, ← isPrefix_iff fun n hn => (dirNames_clean d hd n hn).1]
  conv_lhs => rw [hd']
  rw [List.cons_prefix_cons]
  exact and_iff_right rfl

theorem isNonstandard_eq_false_iff : Pam.isNonstandard ('/' :: q) = false ↔
    ∃ d ∈ Pam.moduleDirs, ∃ rest, rest ≠ [] ∧ parts q = dirNames d ++ rest := by
  have habsolute : "/".toList.isPrefixOf ('/' :: q) = true := rfl
  rw [Pam.isNonstandard, habsolute, Bool.true_and, Bool.not_eq_false', List.any_eq_true]
  apply exists_congr
  intro d
  apply and_congr_right
  intro hd
  rw [List.isPrefixOf_iff_prefix, isPrefix_moduleDir hd]

/-- The path is that of a module directory or goes below it. -/
def BelowModules (p : List Char) : Prop := ∃ d ∈ Pam.moduleDirs, dirNames d <+: location '/' false (parts p)

theorem belowModules_of_standard (h : Pam.isNonstandard ('/' :: p) = false) : BelowModules p := by
  obtain ⟨d, hd, rest, -, hsplit⟩ := isNonstandard_eq_false_iff.mp h
  have hkept : (dirNames d).filter (!isIdle ·) = dirNames d :=
    List.filter_eq_self.mpr fun n hn => by rw [(dirNames_clean d hd n hn).2.1]; rfl
  refine ⟨d, hd, rest.filter (!isIdle ·), ?_⟩
  rw [hsplit, location_false, List.filter_append, hkept]

theorem parts_here : parts ("./".toList ++ p) = here :: parts p := by
  have hsep : '/' ∉ here := by decide
  exact List.splitOn_append_cons_self_of_not_mem hsep p

/-- No module directory is named by a path that starts with a component that stays. -/
theorem isNonstandard_here : Pam.isNonstandard ('/' :: ("./".toList ++ q)) = true := by
  rw [← Bool.not_eq_false, isNonstandard_eq_false_iff]
  rintro ⟨d, hd, rest, -, hsplit⟩
  have hhead : parts ("./".toList ++ q) = here :: parts q := parts_here
  have hnonempty : ∀ d ∈ Pam.moduleDirs, dirNames d ≠ [] := by decide
  obtain ⟨n, names, hn⟩ := List.exists_cons_of_ne_nil (hnonempty d hd)
  rw [hhead, hn, List.cons_append] at hsplit
  have hidle := (dirNames_clean d hd n (hn ▸ List.mem_cons_self)).2.1
  rw [← (List.cons.inj hsplit).1] at hidle
  cases hidle

theorem respelled_here {pairs : Bool} : Respelled '/' pairs (parts p) (parts ("./".toList ++ p)) := by
  rw [parts_here]
  exact (Inserted.dot [] (parts p)).respelled

/-- A path below a module directory has a spelling that shows it. -/
theorem exists_standard (h : BelowModules p) :
    ∃ q, Respelled '/' false (parts p) (parts q) ∧ Pam.isNonstandard ('/' :: q) = false := by
  obtain ⟨d, hd, rest, hrest⟩ := h
  have hclean : ∀ part ∈ location '/' false (parts p) ++ [here], '/' ∉ part := by
    intro part hpart
    rcases List.mem_append.mp hpart with hpart | hpart
    · exact not_mem_of_mem_splitOn part (location_sublist.subset hpart)
    · rw [List.mem_singleton.mp hpart]
      decide
  obtain ⟨q, hq⟩ := exists_splitOn (List.append_ne_nil_of_right_ne_nil _ (List.cons_ne_nil _ _)) hclean
  refine ⟨q, ?_, ?_⟩
  · have hdot : Respelled '/' false (location '/' false (parts p) ++ []) (location '/' false (parts p) ++ [here]) :=
      (Inserted.dot _ []).respelled
    rw [List.append_nil] at hdot
    rw [parts, parts, hq]
    exact respelled_location.trans hdot
  · rw [isNonstandard_eq_false_iff]
    refine ⟨d, hd, rest ++ [here], List.append_ne_nil_of_right_ne_nil _ (List.cons_ne_nil _ _), ?_⟩
    rw [parts, hq, ← hrest, List.append_assoc]

/-- The answer for a module is one for all its spellings without names that are taken back exactly when its path is not
below a module directory. -/
theorem isNonstandard_plain_iff :
    (∀ q, Respelled '/' false (parts p) (parts q) → Pam.isNonstandard ('/' :: q) = Pam.isNonstandard ('/' :: p)) ↔
      ¬ BelowModules p := by
  constructor
  · intro h hbelow
    obtain ⟨q, hq, hstandard⟩ := exists_standard hbelow
    have hhere := h _ respelled_here
    have hq' := h q hq
    rw [isNonstandard_here] at hhere
    rw [hstandard, ← hhere] at hq'
    cases hq'
  · intro hbelow q hq
    have hbelow' : ¬ BelowModules q := by
      rw [BelowModules, ← respelled_iff.mp hq]
      exact hbelow
    have hnonstandard : ∀ r, ¬ BelowModules r → Pam.isNonstandard ('/' :: r) = true := by
      intro r hr
      rw [← Bool.not_eq_false]
      exact fun hfalse => hr (belowModules_of_standard hfalse)
    rw [hnonstandard q hbelow', hnonstandard p hbelow]

/-- In some spelling any module is in a module directory, and in another it is not. -/
theorem isNonstandard_unstable :
    ¬ ∀ q, Respelled '/' true (parts p) (parts q) → Pam.isNonstandard ('/' :: q) = Pam.isNonstandard ('/' :: p) := by
  intro h
  have hhere := h _ respelled_here
  have hclean : ∀ n ∈ ["lib".toList, "security".toList, up, up], '/' ∉ n := by decide
  have hsplit : parts ("lib/security/../../".toList ++ p) = "lib".toList :: "security".toList :: up :: up :: parts p :=
    splitOn_flatMap hclean
  have hstandard : Pam.isNonstandard ('/' :: ("lib/security/../../".toList ++ p)) = false :=
    isNonstandard_eq_false_iff.mpr ⟨"/lib/security/".toList, List.mem_cons_self, up :: up :: parts p,
      List.cons_ne_nil _ _, by rw [hsplit]; rfl⟩
  have hrespelled : Respelled '/' true (parts p) (parts ("lib/security/../../".toList ++ p)) := by
    rw [hsplit]
    have houter : Respelled '/' true (parts p) ("lib".toList :: up :: parts p) :=
      (Inserted.pair [] (parts p) "lib".toList rfl (by decide)).respelled
    have hinner : Respelled '/' true ("lib".toList :: up :: parts p) ("lib".toList :: "security".toList :: up :: up :: parts p) :=
      (Inserted.pair ["lib".toList] (up :: parts p) "security".toList rfl (by decide)).respelled
    exact houter.trans hinner
  have hlib := h _ hrespelled
  rw [hstandard] at hlib
  rw [isNonstandard_here, ← hlib] at hhere
  cases hhere

end

end AbyssalWarden.Locations

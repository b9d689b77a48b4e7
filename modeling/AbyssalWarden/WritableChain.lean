import AbyssalWarden.PathWalk

/-! Who can change the program that an entry starts. The metadata of the program is taken after links are followed, and
the directories that are looked at are those of the path as it is written. -/
namespace AbyssalWarden.SystemCheck

/-! ### Permissions -/

namespace Meta

/-- Writable by someone other than root (owner not root, group-writable with a non-root group, or world-writable). -/
def writableByNonRoot (m : Meta) : Bool :=
  m.uid ≠ 0 || (m.mode &&& 0o020 ≠ 0 && m.gid ≠ 0) || m.mode &&& 0o002 ≠ 0

/-- For a directory: in a sticky directory others can add files, but not replace root's. -/
def dirWritableByNonRoot (m : Meta) : Bool :=
  let sticky := m.mode &&& 0o1000 ≠ 0
  m.uid ≠ 0 || (!sticky && m.mode &&& 0o020 ≠ 0 && m.gid ≠ 0) || (!sticky && m.mode &&& 0o002 ≠ 0)

/-- The mode as four octal digits -/
def octalMode (m : Meta) : String := String.ofList (List.leftpad 4 '0' (Nat.toDigits 8 m.mode))

end Meta

/-! ### The check -/

/-- `exe.parent()`, its parent and so on, of a path with this many components -/
def parentsOf : ℕ → NativePath → List NativePath
  | 0, _ => []
  | n + 1, path => path.parent :: parentsOf n path.parent

def parents (exe : NativePath) : List NativePath := parentsOf exe.components.length exe

/-- The loop over the parents. -/
def writableParent (image : Image) : List NativePath → Option String
  | [] => none
  | d :: rest =>
    match image.stat d with
    | .ok m =>
      if m.dirWritableByNonRoot then
        some ("directory " ++ d.display ++ " is writable by others (owner uid " ++ toString m.uid ++ ", mode " ++
          m.octalMode ++ ")")
      else writableParent image rest
    | .error _ => writableParent image rest

/-- Why `exe` can be changed by a non-root user, checking the file and every parent directory. -/
def writableChain (image : Image) (exe : NativePath) : Option String :=
  match image.stat exe with
  | .error _ => none
  | .ok m =>
    if m.kind ≠ .file then none
    else if m.writableByNonRoot then
      some ("owner uid " ++ toString m.uid ++ ", group " ++ toString m.gid ++ ", mode " ++ m.octalMode)
    else writableParent image (parents exe)

/-! ### What it should see -/

/-- A directory in which a non-root user can replace an entry -/
def Image.replaceable (image : Image) (place : Place) : Bool :=
  (image.get place).any fun o => o.info.dirWritableByNonRoot

/-- A parent of `exe` leads to the directory. -/
def LedTo (image : Image) (exe : NativePath) (place : Place) : Prop :=
  ∃ d ∈ parents exe, ∃ w, image.resolve d = .ok w ∧ w.place = place

/-- `exe` leads to a regular file, on this walk. -/
def LeadsToFile (image : Image) (exe : NativePath) (w : Walked) (m : Meta) : Prop :=
  image.resolve exe = .ok w ∧ (image.get w.place).map Object.info = some m ∧ m.kind = .file

/-- When no reason is given, the file is not writable, and no directory looked into can be changed. -/
def ChainComplete (image : Image) (exe : NativePath) : Prop :=
  ∀ w m, LeadsToFile image exe w m → writableChain image exe = none →
    m.writableByNonRoot = false ∧ ∀ place ∈ w.lookedInto, image.replaceable place = false

/-- A directory that is looked into where no parent of `exe` leads can be changed only when a reason is found elsewhere: in
the file or in a directory where a parent leads. -/
def NothingOverlooked (image : Image) (exe : NativePath) : Prop :=
  ∀ w m, LeadsToFile image exe w m →
    (∃ place ∈ w.lookedInto, ¬ LedTo image exe place ∧ image.replaceable place = true) →
      m.writableByNonRoot = true ∨ ∃ place, LedTo image exe place ∧ image.replaceable place = true

/-- Every directory looked into on the way to a file is one that a parent of `exe` leads to. -/
def OnPath (image : Image) (exe : NativePath) : Prop :=
  ∀ w m, LeadsToFile image exe w m → ∀ place ∈ w.lookedInto, LedTo image exe place

/-! ### When no reason is given -/

variable {image : Image} {exe d : NativePath} {paths : List NativePath} {place : Place} {w : Walked} {m : Meta}
  {infos : Place → Meta}

theorem stat_eq_ok : image.stat d = .ok m ↔
    ∃ w, image.resolve d = .ok w ∧ (image.get w.place).map Object.info = some m := by
  rw [Image.stat]
  cases image.resolve d with
  | error e => simp
  | ok w =>
    rw [except_ok_bind]
    cases hget : image.get w.place with
    | none => simp [hget]
    | some o => simp [hget]

theorem writableParent_eq_none : writableParent image paths = none ↔
    ∀ d ∈ paths, ∀ m, image.stat d = .ok m → m.dirWritableByNonRoot = false := by
  induction paths with
  | nil => simp [writableParent]
  | cons d paths ih =>
    rw [writableParent, List.forall_mem_cons]
    cases hstat : image.stat d with
    | error e =>
      rw [ih]
      simp
    | ok m =>
      cases hm : m.dirWritableByNonRoot with
      | false => simp [hm, ih]
      | true => simp [hm]

theorem replaceable_of_info (hm : (image.get w.place).map Object.info = some m) :
    image.replaceable w.place = m.dirWritableByNonRoot := by
  obtain ⟨o, ho, rfl⟩ := Option.map_eq_some_iff.mp hm
  rw [Image.replaceable, ho]
  rfl

/-- No parent can be written if and only if no directory that one leads to can be changed. -/
theorem parents_safe_iff : writableParent image (parents exe) = none ↔
    ∀ place, LedTo image exe place → image.replaceable place = false := by
  rw [writableParent_eq_none]
  constructor
  · rintro h place ⟨d, hd, w, hw, rfl⟩
    cases hget : image.get w.place with
    | none =>
      rw [Image.replaceable, hget]
      rfl
    | some o =>
      have hm : (image.get w.place).map Object.info = some o.info := by rw [hget, Option.map_some]
      rw [replaceable_of_info hm]
      exact h d hd o.info (stat_eq_ok.mpr ⟨w, hw, hm⟩)
  · intro h d hd m hstat
    obtain ⟨w, hw, hm⟩ := stat_eq_ok.mp hstat
    rw [← replaceable_of_info hm]
    exact h w.place ⟨d, hd, w, hw, rfl⟩

theorem writableChain_eq_none (h : LeadsToFile image exe w m) : writableChain image exe = none ↔
    m.writableByNonRoot = false ∧ ∀ place, LedTo image exe place → image.replaceable place = false := by
  obtain ⟨hw, hm, hfile⟩ := h
  rw [writableChain, stat_eq_ok.mpr ⟨w, hw, hm⟩, ← parents_safe_iff]
  cases hwritable : m.writableByNonRoot with
  | false => simp [hfile, hwritable]
  | true => simp [hfile, hwritable]

theorem chainComplete_iff : ChainComplete image exe ↔ NothingOverlooked image exe := by
  constructor
  · rintro h w m hfile ⟨place, hlooked, -, hreplaceable⟩
    by_contra hnone
    rw [not_or, Bool.not_eq_true] at hnone
    have hchain : writableChain image exe = none := by
      rw [writableChain_eq_none hfile]
      refine ⟨hnone.1, ?_⟩
      intro place' hled
      by_contra hreplaceable'
      exact hnone.2 ⟨place', hled, by simpa using hreplaceable'⟩
    have hsafe := (h w m hfile hchain).2 place hlooked
    rw [hreplaceable] at hsafe
    cases hsafe
  · intro h w m hfile hchain
    obtain ⟨hwritable, hled⟩ := (writableChain_eq_none hfile).mp hchain
    refine ⟨hwritable, ?_⟩
    intro place hlooked
    by_contra hreplaceable
    rw [Bool.not_eq_false] at hreplaceable
    have hnotLed : ¬ LedTo image exe place := by
      intro hplace
      rw [hled place hplace] at hreplaceable
      cases hreplaceable
    rcases h w m hfile ⟨place, hlooked, hnotLed, hreplaceable⟩ with hm | ⟨place', hplace', hother⟩
    · rw [hwritable] at hm
      cases hm
    · rw [hled place' hplace'] at hother
      cases hother

/-! ### Whatever the permissions are -/

theorem resolve_withInfos : (image.withInfos infos).resolve d = image.resolve d := walk_withInfos _ _ _

theorem ledTo_withInfos : LedTo (image.withInfos infos) exe place ↔ LedTo image exe place := by
  simp only [LedTo, resolve_withInfos]

/-- A file is still led to, with its new metadata. -/
theorem leadsToFile_withInfos (h : LeadsToFile image exe w m) :
    LeadsToFile (image.withInfos infos) exe w { infos w.place with kind := .file } := by
  obtain ⟨hw, hm, hfile⟩ := h
  obtain ⟨o, ho, rfl⟩ := Option.map_eq_some_iff.mp hm
  refine ⟨resolve_withInfos.trans hw, ?_, rfl⟩
  rw [Image.withInfos_get, ho, Option.map_some, Option.map_some, Object.withInfo_info, hfile]

theorem leadsToFile_of_withInfos (h : LeadsToFile (image.withInfos infos) exe w m) :
    ∃ m', LeadsToFile image exe w m' := by
  obtain ⟨hw, hm, hfile⟩ := h
  rw [Image.withInfos_get, Option.map_map] at hm
  obtain ⟨o, ho, rfl⟩ := Option.map_eq_some_iff.mp hm
  rw [Function.comp_apply, Object.withInfo_info] at hfile
  refine ⟨o.info, resolve_withInfos.symm.trans hw, ?_, hfile⟩
  rw [ho, Option.map_some]

/-- Everything is root's, and one place can be written by everyone. -/
def oneWritable (opened place : Place) : Meta :=
  ⟨0, 0, if place = opened then 0o777 else 0o755, .other, 0, 0⟩

theorem replaceable_opened {opened : Place} (h : image.isDir opened = true) :
    (image.withInfos (oneWritable opened)).replaceable opened = true := by
  cases ho : image.get opened with
  | none =>
    rw [Image.isDir, ho] at h
    cases h
  | some o =>
    rw [Image.replaceable, Image.withInfos_get, ho, Option.map_some, Option.any_some, Object.withInfo_info, oneWritable,
      if_pos rfl]
    simp [Meta.dirWritableByNonRoot]

theorem replaceable_others {opened : Place} (h : place ≠ opened) :
    (image.withInfos (oneWritable opened)).replaceable place = false := by
  rw [Image.replaceable, Image.withInfos_get]
  cases image.get place with
  | none => rfl
  | some o =>
    rw [Option.map_some, Option.any_some, Object.withInfo_info, oneWritable, if_neg h]
    simp [Meta.dirWritableByNonRoot]

theorem LeadsToFile.not_dir (h : LeadsToFile image exe w m) : image.isDir w.place = false := by
  obtain ⟨-, hm, hfile⟩ := h
  obtain ⟨o, ho, rfl⟩ := Option.map_eq_some_iff.mp hm
  rw [Image.isDir, ho, Option.any_some]
  cases o with
  | dir m => cases hfile
  | _ => rfl

theorem chainComplete_withInfos_iff : (∀ infos, ChainComplete (image.withInfos infos) exe) ↔ OnPath image exe := by
  constructor
  · intro h w m hfile opened hlooked
    -- if only that directory can be written, the check does not see it
    by_contra hnotLed
    have hdir : image.isDir opened = true := walk_lookedInto hfile.1 opened hlooked
    have hother : w.place ≠ opened := by
      intro heq
      have hnot := hfile.not_dir
      rw [heq, hdir] at hnot
      cases hnot
    have hfile' : LeadsToFile (image.withInfos (oneWritable opened)) exe w
        { oneWritable opened w.place with kind := .file } := leadsToFile_withInfos hfile
    have hchain : writableChain (image.withInfos (oneWritable opened)) exe = none := by
      rw [writableChain_eq_none hfile', oneWritable, if_neg hother]
      refine ⟨rfl, ?_⟩
      intro place hled
      apply replaceable_others
      rintro rfl
      exact hnotLed (ledTo_withInfos.mp hled)
    have hsafe := (h _ w _ hfile' hchain).2 opened hlooked
    rw [replaceable_opened hdir] at hsafe
    cases hsafe
  · intro h infos
    rw [chainComplete_iff]
    rintro w m hfile ⟨place, hlooked, hnotLed, -⟩
    obtain ⟨m', hfile'⟩ := leadsToFile_of_withInfos hfile
    rw [ledTo_withInfos] at hnotLed
    exact absurd (h w m' hfile' place hlooked) hnotLed

/-! ### Paths without links -/

variable {names : List Bytes}

theorem mem_parents_pathOf (hnames : ∀ n ∈ names, IsName n) {pre : List Bytes} (hpre : pre <+: names)
    (hproper : pre ≠ names) : dirPath pre ∈ parentsOf names.length (pathOf names) := by
  induction names using List.reverseRecOn with
  | nil => exact absurd (List.prefix_nil.mp hpre) hproper
  | append_singleton init name ih =>
    have hinit : ∀ n ∈ init, IsName n := fun n hn => hnames n (List.mem_append_left _ hn)
    have hname : IsName name := hnames name (List.mem_append_right _ List.mem_cons_self)
    rw [List.length_append, List.length_singleton, parentsOf, parent_pathOf hinit hname]
    rcases List.prefix_concat_iff.mp hpre with heq | hpre'
    · exact absurd heq hproper
    · by_cases heq : pre = init
      · rw [heq]
        exact List.mem_cons_self
      · have hne : init ≠ [] := by
          rintro rfl
          exact heq (List.prefix_nil.mp hpre')
        apply List.mem_cons_of_mem
        rw [dirPath, if_neg hne]
        exact ih hinit hpre' heq

/-- Looking up nothing stays in the directory. -/
theorem walkParts_nothing {follow : Place → List Bytes → Except IoError Walked} {cur : Place} {parts : List Bytes}
    (h : image.isDir cur = true) : image.walkParts follow cur ([] :: parts) =
      (image.walkParts follow cur parts).map fun w => ⟨w.place, cur :: w.lookedInto⟩ := by
  rw [Image.walkParts, if_pos h, if_pos (Or.inl rfl)]

theorem resolve_pathOf (hnames : ∀ n ∈ names, IsName n) : image.resolve (pathOf names) =
    (image.walkParts (image.walk 39) [] names).map fun w => ⟨w.place, [] :: w.lookedInto⟩ := by
  rw [Image.resolve, splitOn_pathOf hnames]
  exact walkParts_nothing image.rootDir

theorem resolve_dirPath {pre : List Bytes} (hpre : ∀ n ∈ pre, IsName n)
    (h : image.walkParts (image.walk 39) [] pre = .ok w) : ∃ w', image.resolve (dirPath pre) = .ok w' ∧
      w'.place = w.place := by
  unfold dirPath
  split
  · rename_i hnil
    subst hnil
    obtain rfl := Except.ok.inj h
    have hslash : [NativePath.slash].splitOn NativePath.slash = [[], []] := by decide
    have hwalk : image.walkParts (image.walk 39) [] [[], []] = .ok ⟨[], [[], []]⟩ := by
      rw [walkParts_nothing image.rootDir, walkParts_nothing image.rootDir]
      rfl
    refine ⟨⟨[], [[], []]⟩, ?_, rfl⟩
    rw [Image.resolve, hslash]
    exact hwalk
  · refine ⟨⟨w.place, [] :: w.lookedInto⟩, ?_, rfl⟩
    rw [resolve_pathOf hpre, h]
    rfl

theorem onPath_of_linkFree (hnames : ∀ n ∈ names, IsName n) (hfree : LinkFree image [] names) :
    OnPath image (pathOf names) := by
  intro w m hfile place hlooked
  have hwalk := hfile.1
  rw [resolve_pathOf hnames] at hwalk
  obtain ⟨w₀, hw₀, rfl⟩ := except_map_eq_ok.mp hwalk
  obtain ⟨hplace, hdirs, hshorter⟩ := walkParts_names hnames hfree hw₀
  -- without links, each directory on the way is a parent of the path
  have hled (pre : List Bytes) (hpre : pre <+: names) (hproper : pre ≠ names) :
      LedTo image (pathOf names) (pre.reverse ++ []) := by
    obtain ⟨w', hw', hplace'⟩ := hshorter pre hpre
    obtain ⟨w'', hw'', hsame⟩ := resolve_dirPath (fun n hn => hnames n (hpre.subset hn)) hw'
    refine ⟨dirPath pre, ?_, w'', hw'', hsame.trans hplace'⟩
    rw [parents, components_pathOf hnames]
    exact mem_parents_pathOf hnames hpre hproper
  rcases List.mem_cons.mp hlooked with rfl | hlooked
  · apply hled [] List.nil_prefix
    rintro rfl
    have hroot : image.isDir w₀.place = true := by
      rw [hplace]
      exact image.rootDir
    have hnot := hfile.not_dir
    rw [hroot] at hnot
    cases hnot
  · obtain ⟨pre, hpre, hproper, rfl⟩ := hdirs place hlooked
    exact hled pre hpre hproper

/-- The reason that is given for a program is complete if and only if nothing that can be changed is overlooked; it is
complete whatever the permissions are if and only if all directories on the way are those that the parents of the path lead
to, and they are for paths that meet no link. -/
theorem writable_chain_exactly (image : Image) (exe : NativePath) :
    (ChainComplete image exe ↔ NothingOverlooked image exe) ∧
    ((∀ infos, ChainComplete (image.withInfos infos) exe) ↔ OnPath image exe) ∧
    ∀ names, (∀ n ∈ names, IsName n) → exe = pathOf names → LinkFree image [] names → OnPath image exe := by
  refine ⟨chainComplete_iff, chainComplete_withInfos_iff, ?_⟩
  rintro names hnames rfl hfree
  exact onPath_of_linkFree hnames hfree

/-! ### A link into a directory of a user -/

/-- A program in a directory that is not root's, and a link to it. -/
def linkedObjects : List (Place × Object) :=
  let root : Meta := ⟨0, 0, 0o755, .other, 1, 2⟩
  [([], .dir root), ([utf8Bytes "bin"], .dir root), ([utf8Bytes "x", utf8Bytes "bin"], .link root (utf8Bytes "/home/x")),
    ([utf8Bytes "home"], .dir { root with uid := 1000 }), ([utf8Bytes "x", utf8Bytes "home"], .file root)]

def linkedImage : Image where
  get place := linkedObjects.lookup place
  rootDir := by decide
  closed name place h := by
    obtain ⟨x, hx, heq⟩ := List.lookup_isSome_iff.mp h
    have hall : ∀ x ∈ linkedObjects, x.1 ≠ [] → (linkedObjects.lookup x.1.tail).any Object.isDir = true := by
      decide
    have hdir := hall x hx
    rw [← eq_of_beq heq] at hdir
    exact hdir (List.cons_ne_nil _ _)

def linkedProgram : NativePath := utf8Bytes "/bin/x"

/-- The directories looked into are the root, `/bin`, the root and `/home`. -/
def linkedWalk : Walked where
  place := [utf8Bytes "x", utf8Bytes "home"]
  lookedInto := [[], [], [utf8Bytes "bin"], [], [], [utf8Bytes "home"]]

/-- No reason is given, and a user can replace the program. -/
theorem linked_program_not_reported : writableChain linkedImage linkedProgram = none ∧
    linkedImage.replaceable [utf8Bytes "home"] = true ∧ ¬ ChainComplete linkedImage linkedProgram := by
  have hnone : writableChain linkedImage linkedProgram = none := by decide
  have hhome : linkedImage.replaceable [utf8Bytes "home"] = true := by decide
  refine ⟨hnone, hhome, ?_⟩
  intro h
  have hfile : LeadsToFile linkedImage linkedProgram linkedWalk ⟨0, 0, 0o755, .file, 1, 2⟩ := by
    refine ⟨?_, ?_, rfl⟩
    · decide
    · decide
  have hsafe := (h _ _ hfile hnone).2 [utf8Bytes "home"] (by simp [linkedWalk])
  rw [hhome] at hsafe
  cases hsafe

end AbyssalWarden.SystemCheck

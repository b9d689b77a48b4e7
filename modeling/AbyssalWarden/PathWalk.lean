import AbyssalWarden.DirectoryListing

/-! A tree of directories, files and symbolic links, and how a path is resolved in it: one component after another, links
followed inside, with the directories that are looked into on the way. -/
namespace AbyssalWarden.SystemCheck

/-! ### Images -/

/-- The names that lead to an object from the root, the last one first. -/
abbrev Place := List Bytes

inductive Object where
  | file (info : Meta)
  | dir (info : Meta)
  | link (info : Meta) (target : NativePath)
  | other (info : Meta)

/-- The metadata of an object, with its kind -/
def Object.info : Object → Meta
  | file m => { m with kind := .file }
  | dir m => { m with kind := .dir }
  | link m _ => { m with kind := .symlink }
  | other m => { m with kind := .other }

def Object.isDir : Object → Bool
  | dir _ => true
  | _ => false

def Object.isLink : Object → Bool
  | link _ _ => true
  | _ => false

/-- The objects of an image: its root is a directory, and so is what holds an object. -/
structure Image where
  get : Place → Option Object
  rootDir : (get []).any Object.isDir = true
  closed : ∀ name place, (get (name :: place)).isSome → (get place).any Object.isDir = true

/-! ### Resolving a path -/

/-- Where a path leads to, and the directories that its components were looked up in. -/
structure Walked where
  place : Place
  lookedInto : List Place
  deriving DecidableEq

/-- Links that are followed on the way to one object, at most (`MAXSYMLINKS`). -/
def maxLinks : ℕ := 40

def dotDot : Bytes := [NativePath.dot, NativePath.dot]

namespace Image

variable (image : Image)

def isDir (place : Place) : Bool := (image.get place).any Object.isDir

/-- The components one after another, from a directory; `follow` walks on from the target of a link. -/
def walkParts (follow : Place → List Bytes → Except IoError Walked) : Place → List Bytes → Except IoError Walked
  | cur, [] => .ok ⟨cur, []⟩
  | cur, part :: rest =>
    if image.isDir cur then
      let next :=
        if part = [] ∨ part = [NativePath.dot] then walkParts follow cur rest
        else if part = dotDot then walkParts follow cur.tail rest  -- the root is its own parent
        else
          match image.get (part :: cur) with
          | none => .error .notFound
          | some (.link _ target) =>
            follow (if target.isAbsolute then [] else cur) (target.splitOn NativePath.slash ++ rest)
          | some _ => walkParts follow (part :: cur) rest
      next.map fun w => ⟨w.place, cur :: w.lookedInto⟩
    else .error .notDir

/-- A walk that may still follow this many links. -/
def walk : ℕ → Place → List Bytes → Except IoError Walked
  | 0 => image.walkParts fun _ _ => .error .loop
  | links + 1 => image.walkParts (walk links)

/-- An absolute path, resolved inside the image -/
def resolve (path : NativePath) : Except IoError Walked :=
  image.walk maxLinks [] (path.splitOn NativePath.slash)

/-- Metadata of the file a path names (links followed inside the root). -/
def stat (path : NativePath) : Except IoError Meta := do
  let w ← image.resolve path
  match image.get w.place with
  | some o => .ok o.info
  | none => .error .notFound

end Image

/-! ### Other permissions -/

/-- The same object with another owner and other permissions. -/
def Object.withInfo : Object → Meta → Object
  | file _, m => .file m
  | dir _, m => .dir m
  | link _ target, m => .link m target
  | other _, m => .other m

@[simp] theorem Object.withInfo_isDir (o : Object) (m : Meta) : (o.withInfo m).isDir = o.isDir := by
  cases o <;> rfl

@[simp] theorem Object.withInfo_info (o : Object) (m : Meta) : (o.withInfo m).info = { m with kind := o.info.kind } := by
  cases o <;> rfl

theorem any_map_withInfo (o : Option Object) (m : Meta) : (o.map (·.withInfo m)).any Object.isDir = o.any Object.isDir := by
  cases o with
  | none => rfl
  | some o => exact o.withInfo_isDir m

/-- The same tree with other owners and permissions. -/
def Image.withInfos (image : Image) (infos : Place → Meta) : Image where
  get place := (image.get place).map (·.withInfo (infos place))
  rootDir := by
    rw [any_map_withInfo]
    exact image.rootDir
  closed name place h := by
    rw [Option.isSome_map] at h
    rw [any_map_withInfo]
    exact image.closed name place h

variable {image : Image} {infos : Place → Meta} {follow follow' : Place → List Bytes → Except IoError Walked}

theorem Image.withInfos_get (place : Place) :
    (image.withInfos infos).get place = (image.get place).map (·.withInfo (infos place)) := rfl

theorem Image.withInfos_isDir (place : Place) : (image.withInfos infos).isDir place = image.isDir place :=
  any_map_withInfo _ _

theorem walkParts_withInfos (hfollow : ∀ place parts, follow place parts = follow' place parts) (cur : Place)
    (parts : List Bytes) : (image.withInfos infos).walkParts follow cur parts = image.walkParts follow' cur parts := by
  induction parts generalizing cur with
  | nil => rfl
  | cons part rest ih =>
    have hget : (image.withInfos infos).get (part :: cur) =
        (image.get (part :: cur)).map (·.withInfo (infos (part :: cur))) := rfl
    simp only [Image.walkParts, Image.withInfos_isDir, ih, hget]
    cases image.get (part :: cur) with
    | none => rfl
    | some o =>
      cases o with
      | link m target => simp only [Option.map_some, Object.withInfo, hfollow]
      | _ => rfl

/-- Permissions do not change where a path leads to. -/
theorem walk_withInfos (links : ℕ) (cur : Place) (parts : List Bytes) :
    (image.withInfos infos).walk links cur parts = image.walk links cur parts := by
  induction links generalizing cur parts with
  | zero => exact walkParts_withInfos (fun _ _ => rfl) cur parts
  | succ links ih => exact walkParts_withInfos (fun place parts => ih place parts) cur parts

/-! ### Paths without links -/

/-- A name that is looked up. -/
def IsName (name : Bytes) : Prop :=
  name ≠ [] ∧ name ≠ [NativePath.dot] ∧ name ≠ dotDot ∧ NativePath.slash ∉ name

/-- The absolute path of these names; none for the root. -/
def pathOf (names : List Bytes) : NativePath := names.flatMap (NativePath.slash :: ·)

/-- No name is a link's, from a directory on. -/
def LinkFree (image : Image) (cur : Place) (names : List Bytes) : Prop :=
  ∀ pre, pre <+: names → (image.get (pre.reverse ++ cur)).any Object.isLink = false

variable {cur : Place} {names : List Bytes} {w : Walked}

theorem walkParts_names (hnames : ∀ n ∈ names, IsName n) (hfree : LinkFree image cur names)
    (h : image.walkParts follow cur names = .ok w) : w.place = names.reverse ++ cur ∧
      (∀ place ∈ w.lookedInto, ∃ pre, pre <+: names ∧ pre ≠ names ∧ place = pre.reverse ++ cur) ∧
      ∀ pre, pre <+: names → ∃ w', image.walkParts follow cur pre = .ok w' ∧ w'.place = pre.reverse ++ cur := by
  -- along the names; the directory reached so far is general
  induction names generalizing cur w with
  | nil =>
    obtain rfl := Except.ok.inj h
    refine ⟨rfl, by simp, ?_⟩
    intro pre hpre
    rw [List.prefix_nil] at hpre
    subst hpre
    exact ⟨_, rfl, rfl⟩
  | cons name names ih =>
    obtain ⟨hne, hdot, hdotDot, -⟩ := hnames name List.mem_cons_self
    have hspecial : ¬ (name = [] ∨ name = [NativePath.dot]) := not_or.mpr ⟨hne, hdot⟩
    have hnotLink := hfree [name] (List.cons_prefix_cons.mpr ⟨rfl, List.nil_prefix⟩)
    simp only [List.reverse_singleton, List.singleton_append] at hnotLink
    -- one name that is there and is no link goes one directory down
    have hone (rest : List Bytes) (hdir : image.isDir cur = true) (o : Object)
        (ho : image.get (name :: cur) = some o) : image.walkParts follow cur (name :: rest) =
          (image.walkParts follow (name :: cur) rest).map fun w => ⟨w.place, cur :: w.lookedInto⟩ := by
      rw [ho] at hnotLink
      rw [Image.walkParts, if_pos hdir, if_neg hspecial, if_neg hdotDot, ho]
      cases o with
      | link m target => cases hnotLink
      | _ => rfl
    have hdir : image.isDir cur = true := by
      by_contra hno
      rw [Image.walkParts, if_neg hno] at h
      cases h
    cases ho : image.get (name :: cur) with
    | none =>
      rw [Image.walkParts, if_pos hdir, if_neg hspecial, if_neg hdotDot, ho] at h
      cases h
    | some o =>
      rw [hone names hdir o ho] at h
      obtain ⟨w', hw', rfl⟩ := except_map_eq_ok.mp h
      have hfree' : LinkFree image (name :: cur) names := by
        intro pre hpre
        have hlonger := hfree (name :: pre) (List.cons_prefix_cons.mpr ⟨rfl, hpre⟩)
        rwa [List.reverse_cons, List.append_assoc, List.singleton_append] at hlonger
      obtain ⟨hplace, hlooked, hshorter⟩ := ih (fun n hn => hnames n (List.mem_cons_of_mem _ hn)) hfree' hw'
      refine ⟨?_, ?_, ?_⟩
      · rw [hplace, List.reverse_cons, List.append_assoc, List.singleton_append]
      -- a directory looked into is this one, or one further down
      · intro place hmem
        rcases List.mem_cons.mp hmem with rfl | hmem
        · exact ⟨[], List.nil_prefix, (List.cons_ne_nil _ _).symm, rfl⟩
        · obtain ⟨pre, hpre, hproper, rfl⟩ := hlooked place hmem
          refine ⟨name :: pre, List.cons_prefix_cons.mpr ⟨rfl, hpre⟩, ?_, ?_⟩
          · intro heq
            exact hproper (List.cons.inj heq).2
          · rw [List.reverse_cons, List.append_assoc, List.singleton_append]
      · intro pre hpre
        cases pre with
        | nil => exact ⟨_, rfl, rfl⟩
        | cons name' pre =>
          obtain ⟨rfl, hrest⟩ := List.cons_prefix_cons.mp hpre
          obtain ⟨w'', hw'', hplace''⟩ := hshorter pre hrest
          refine ⟨⟨w''.place, cur :: w''.lookedInto⟩, ?_, ?_⟩
          · rw [hone pre hdir o ho, hw'']
            rfl
          · rw [hplace'', List.reverse_cons, List.append_assoc, List.singleton_append]

/-- Directories are looked into, and nothing else. -/
theorem walkParts_lookedInto {parts : List Bytes}
    (hfollow : ∀ place parts w, follow place parts = .ok w → ∀ d ∈ w.lookedInto, image.isDir d = true)
    (h : image.walkParts follow cur parts = .ok w) : ∀ d ∈ w.lookedInto, image.isDir d = true := by
  induction parts generalizing cur w with
  | nil =>
    obtain rfl := Except.ok.inj h
    intro d hd
    cases hd
  | cons part rest ih =>
    rw [Image.walkParts] at h
    split at h
    · rename_i hdir
      obtain ⟨w', hw', rfl⟩ := except_map_eq_ok.mp h
      intro d hd
      rcases List.mem_cons.mp hd with rfl | hd
      -- the directory that is entered, then those further on, also through a link
      · exact hdir
      · split at hw'
        · exact ih hw' d hd
        · split at hw'
          · exact ih hw' d hd
          · split at hw'
            · cases hw'
            · exact hfollow _ _ _ hw' d hd
            · exact ih hw' d hd
    · cases h

theorem walk_lookedInto {links : ℕ} {parts : List Bytes} (h : image.walk links cur parts = .ok w) :
    ∀ d ∈ w.lookedInto, image.isDir d = true := by
  induction links generalizing cur parts w with
  | zero =>
    refine walkParts_lookedInto (fun _ _ _ hfollow => ?_) h
    cases hfollow
  | succ links ih => exact walkParts_lookedInto (fun _ _ _ hfollow => ih hfollow) h

/-! ### The text of a path -/

theorem splitOn_append_pathOf (name : Bytes) (hname : NativePath.slash ∉ name) (hnames : ∀ n ∈ names, IsName n) :
    (name ++ pathOf names).splitOn NativePath.slash = name :: names := by
  induction names generalizing name with
  | nil => rw [pathOf, List.flatMap_nil, List.append_nil, List.splitOn_eq_singleton hname]
  | cons n names ih =>
    have hn := hnames n List.mem_cons_self
    rw [pathOf, List.flatMap_cons, ← pathOf, List.cons_append, List.splitOn_append_cons_self_of_not_mem hname,
      ih n hn.2.2.2 fun m hm => hnames m (List.mem_cons_of_mem _ hm)]

theorem splitOn_pathOf (hnames : ∀ n ∈ names, IsName n) : (pathOf names).splitOn NativePath.slash = [] :: names :=
  splitOn_append_pathOf [] List.not_mem_nil hnames

theorem components_pathOf (hnames : ∀ n ∈ names, IsName n) : (pathOf names).components = names := by
  rw [NativePath.components, splitOn_pathOf hnames, List.filter_cons_of_neg (by decide)]
  apply List.filter_eq_self.mpr
  intro n hn
  exact decide_eq_true ⟨(hnames n hn).1, (hnames n hn).2.1⟩

theorem pathOf_concat_reverse (init : List Bytes) (name : Bytes) :
    (pathOf (init ++ [name])).reverse = name.reverse ++ NativePath.slash :: (pathOf init).reverse := by
  rw [pathOf, List.flatMap_append, List.flatMap_singleton, List.reverse_append, List.reverse_cons, List.append_assoc,
    List.singleton_append, ← pathOf]

theorem trimEnd_name {name : Bytes} (hname : IsName name) (rest : Bytes) :
    NativePath.trimEnd (name.reverse ++ rest) = name.reverse ++ rest := by
  obtain ⟨hne, hdot, -, hslash⟩ := hname
  have hrev : NativePath.slash ∉ name.reverse := by
    rw [List.mem_reverse]
    exact hslash
  -- a name ends in no slash, and a name of one byte is no dot
  cases hlast : name.reverse with
  | nil =>
    rw [List.reverse_eq_nil_iff] at hlast
    exact absurd hlast hne
  | cons b t =>
    rw [hlast] at hrev
    have hb : b ≠ 0x2F := fun heq => hrev (heq ▸ List.mem_cons_self)
    cases t with
    | nil =>
      have hb' : b ≠ 0x2E := by
        rintro rfl
        rw [List.reverse_eq_iff] at hlast
        exact hdot hlast
      rw [List.singleton_append]
      unfold NativePath.trimEnd
      split
      · rename_i heq
        cases heq
      · rename_i heq
        exact absurd (List.cons.inj heq).1 hb
      · rename_i heq
        exact absurd (List.cons.inj heq).1 hb'
      · rfl
    | cons b' t =>
      have hb' : b' ≠ 0x2F := fun heq => hrev (heq ▸ List.mem_cons_of_mem _ List.mem_cons_self)
      rw [List.cons_append, List.cons_append]
      unfold NativePath.trimEnd
      split
      · rename_i heq
        cases heq
      · rename_i heq
        exact absurd (List.cons.inj heq).1 hb
      · rename_i heq
        exact absurd (List.cons.inj (List.cons.inj heq).2).1 hb'
      · rfl

/-- The path of the directory that these names lead to -/
def dirPath (names : List Bytes) : NativePath := if names = [] then [NativePath.slash] else pathOf names

theorem parent_pathOf {init : List Bytes} {name : Bytes} (hinit : ∀ n ∈ init, IsName n) (hname : IsName name) :
    (pathOf (init ++ [name])).parent = dirPath init := by
  -- a name has no slash
  have hdrop : (name.reverse ++ NativePath.slash :: (pathOf init).reverse).dropWhile (· ≠ NativePath.slash) =
      NativePath.slash :: (pathOf init).reverse := by
    rw [List.dropWhile_append_of_pos]
    · rfl
    · intro b hb
      have hb' : b ∈ name := List.mem_reverse.mp hb
      exact decide_eq_true fun heq => hname.2.2.2 (heq ▸ hb')
  have htrim : NativePath.trimEnd (NativePath.slash :: (pathOf init).reverse) = (pathOf init).reverse := by
    have hslash : NativePath.trimEnd (NativePath.slash :: (pathOf init).reverse) =
        NativePath.trimEnd (pathOf init).reverse := rfl
    rw [hslash]
    cases init using List.reverseRecOn with
    | nil => rfl
    | append_singleton front n =>
      have hn := hinit n (List.mem_append_right _ List.mem_cons_self)
      rw [pathOf_concat_reverse]
      exact trimEnd_name hn _
  rw [NativePath.parent, pathOf_concat_reverse, trimEnd_name hname, hdrop, htrim, dirPath, List.reverse_reverse]
  cases init with
  | nil => rfl
  | cons n front =>
    have hne : (pathOf (n :: front)).reverse ≠ [] := List.reverse_eq_nil_iff.not.mpr (List.cons_ne_nil _ _)
    rw [if_neg hne, if_neg (List.cons_ne_nil n front)]

end AbyssalWarden.SystemCheck

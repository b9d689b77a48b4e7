import AbyssalWarden.Bundle
import AbyssalWarden.GrowingMap

/-! The directory of installed bundles, and what an update does to it: renames, removals, and the
recovery from an interrupted swap. -/
namespace AbyssalWarden

inductive Plain where
  | file (data : Bytes)
  | dir (content : BundleDir)

/-- An entry of the directory. A link is followed to what it leads to, if anything. -/
inductive Entry where
  | plain (p : Plain)
  | link (target : Option Plain)

def Entry.resolve : Entry → Option Plain
  | .plain p => some p
  | .link target => target

abbrev ContentDir := BTreeMap String Entry

/-- The names that lead to the directory itself and to the one above: no entry has them. -/
def dotName (name : String) : Bool := name = "." || name = ".."

namespace ContentDir

/-- `Path::exists`, which follows links. -/
def exists? (d : ContentDir) (name : String) : Bool :=
  dotName name || (d[name]?.bind Entry.resolve).isSome

/-- `std::fs::read(content_dir.join(name).join(MANIFEST_FILE))`. What lies above the directory is
not looked at: no manifest is there. -/
def readManifest (d : ContentDir) (name : String) : Except IoKind Bytes :=
  if name = "." then
    match d[manifestFile]?.bind Entry.resolve with
    | none => .error .notFound
    | some (.file data) => .ok data
    | some (.dir _) => .error (.other "Is a directory (os error 21)")
  else if name = ".." then .error .notFound
  else
    match d[name]?.bind Entry.resolve with
    | none => .error .notFound
    | some (.file _) => .error (.other "Not a directory (os error 20)")
    | some (.dir content) => content.read manifestFile

/-- `std::fs::rename`. A directory takes no entry's place (it could take that of an empty
directory, but none of the calls meets one), no other entry takes a directory's, and neither the
directory itself nor the one above moves. -/
def rename (d : ContentDir) (source target : String) : Except IoKind ContentDir :=
  if dotName source || dotName target then
    .error (.other "Device or resource busy (os error 16)")
  else
    match d[source]?, d[target]? with
    | none, _ => .error .notFound
    | some e, none => .ok ((d.erase source).insert target e)
    | some (.plain (.dir _)), some _ => .error (.other "Not a directory (os error 20)")
    | some _, some (.plain (.dir _)) => .error (.other "Is a directory (os error 21)")
    | some e, some _ => .ok ((d.erase source).insert target e)

/-- `std::fs::remove_dir_all`, its error ignored: a link is removed itself, a file is kept. -/
def removeDirAll (d : ContentDir) (name : String) : ContentDir :=
  match d[name]? with
  | some (.plain (.file _)) => d
  | _ => d.erase name

/-- The names in the directory that start with `start`. -/
def startingWith (d : ContentDir) (start : String) : List String :=
  d.keys.filter fun n => start.toList.isPrefixOf n.toList

end ContentDir

def stagingPrefix (name : String) : String := ".staging-" ++ name ++ "-"
def oldPrefix (name : String) : String := ".old-" ++ name ++ "-"

/-- Finishes or undoes an interrupted swap: if the bundle directory is missing but a previous copy
was set aside, put it back; remove stale staging directories. -/
def recover (d : ContentDir) (name : String) : ContentDir :=
  let old := d.startingWith (oldPrefix name)
  let d := (d.startingWith (stagingPrefix name)).foldl ContentDir.removeDirAll d
  -- the names are sorted, so the last one is the greatest
  match old.getLast? with
  | none => d
  | some latest =>
    -- the bundle is there, so what was set aside is stale
    if d.exists? name then old.foldl ContentDir.removeDirAll d
    else
      match d.rename latest name with
      | .ok d => (old.filter (· ≠ latest)).foldl ContentDir.removeDirAll d
      | .error _ => old.foldl ContentDir.removeDirAll d

/-! ### What each call leaves alone -/

variable {d d' : ContentDir} {name source target : String}

theorem removeDirAll_get_ne (h : name ≠ target) : (d.removeDirAll target)[name]? = d[name]? := by
  unfold ContentDir.removeDirAll
  split
  · rfl
  · rw [get_erase, if_neg (Ne.symm h)]

theorem removeDirAll_get_eq (h : ∀ data, d[name]? ≠ some (.plain (.file data))) :
    (d.removeDirAll name)[name]? = none := by
  unfold ContentDir.removeDirAll
  split
  · rename_i data hdata
    exact absurd hdata (h data)
  · rw [get_erase, if_pos rfl]

theorem foldl_removeDirAll_get {names : List String} (h : name ∉ names) :
    (names.foldl ContentDir.removeDirAll d)[name]? = d[name]? := by
  induction names generalizing d with
  | nil => rfl
  | cons n names ih =>
    rw [List.mem_cons, not_or] at h
    rw [List.foldl_cons, ih h.2, removeDirAll_get_ne h.1]

theorem rename_eq_ok (h : d.rename source target = .ok d') :
    ∃ e, d[source]? = some e ∧ d' = (d.erase source).insert target e := by
  unfold ContentDir.rename at h
  split at h
  · cases h
  split at h
  · cases h
  · rename_i e he _
    exact ⟨e, he, (Except.ok.inj h).symm⟩
  · cases h
  · cases h
  · rename_i e _ _ _ he _
    exact ⟨e, he, (Except.ok.inj h).symm⟩

/-- Only entries of the directory are renamed, and only to names that an entry can have. -/
theorem rename_not_dots (h : d.rename source target = .ok d') :
    dotName source = false ∧ dotName target = false := by
  unfold ContentDir.rename at h
  split at h
  · cases h
  · rename_i hdots
    rw [Bool.or_eq_true, not_or] at hdots
    exact ⟨Bool.not_eq_true _ ▸ hdots.1, Bool.not_eq_true _ ▸ hdots.2⟩

/-- Below an entry the manifest is read from the entry. -/
theorem readManifest_of_entry (hname : dotName name = false) {content : BundleDir}
    (h : d[name]?.bind Entry.resolve = some (.dir content)) :
    d.readManifest name = content.read manifestFile := by
  simp only [dotName, Bool.or_eq_false_iff, decide_eq_false_iff_not] at hname
  rw [ContentDir.readManifest, if_neg hname.1, if_neg hname.2, h]

/-- A name that begins so is that of an entry. -/
theorem not_dotName_of_prefix (start : String) (hstart : 3 ≤ start.toList.length)
    (h : start.toList <+: name.toList) : dotName name = false := by
  have hlength := h.length_le
  have hne (dots : String) (hdots : dots.toList.length ≤ 2) : name ≠ dots := by
    intro heq
    rw [heq] at hlength
    omega
  simp only [dotName, hne "." (by decide), hne ".." (by decide), decide_false, Bool.or_false]

theorem rename_get (h : d.rename source target = .ok d') (hs : name ≠ source) (ht : name ≠ target) :
    d'[name]? = d[name]? := by
  obtain ⟨e, _, rfl⟩ := rename_eq_ok h
  rw [get_insert, if_neg (Ne.symm ht), get_erase, if_neg (Ne.symm hs)]

theorem rename_get_target (h : d.rename source target = .ok d') : d'[target]? = d[source]? := by
  obtain ⟨e, he, rfl⟩ := rename_eq_ok h
  rw [get_insert, if_pos rfl, he]

theorem rename_get_source (h : d.rename source target = .ok d') (hne : source ≠ target) :
    d'[source]? = none := by
  obtain ⟨e, _, rfl⟩ := rename_eq_ok h
  rw [get_insert, if_neg (Ne.symm hne), get_erase, if_pos rfl]

/-- Nothing stands in the way of a rename to a name that is free. -/
theorem rename_of_free {e : Entry} (hsource : dotName source = false) (htarget : dotName target = false)
    (hs : d[source]? = some e) (ht : d[target]? = none) :
    d.rename source target = .ok ((d.erase source).insert target e) := by
  unfold ContentDir.rename
  rw [hsource, htarget, hs, ht]
  rfl

/-- A name with the prefix is longer than what the prefix was made from. -/
theorem not_mem_startingWith {start : String} (h : name.toList.length < start.toList.length) :
    name ∉ d.startingWith start := by
  intro hmem
  have hpre := (List.mem_filter.mp hmem).2
  have hlen := (List.isPrefixOf_iff_prefix.mp hpre).length_le
  omega

theorem length_stagingPrefix (name : String) :
    name.toList.length < (stagingPrefix name).toList.length := by
  simp [stagingPrefix, String.toList_append]
  omega

theorem length_oldPrefix (name : String) :
    name.toList.length < (oldPrefix name).toList.length := by
  simp [oldPrefix, String.toList_append]
  omega

/-- The installed bundle is not touched by the recovery. -/
theorem recover_get_of_exists (h : d.exists? name = true) : (recover d name)[name]? = d[name]? := by
  have hold := not_mem_startingWith (d := d) (length_oldPrefix name)
  have hstaging := not_mem_startingWith (d := d) (length_stagingPrefix name)
  have hd := foldl_removeDirAll_get (d := d) hstaging
  dsimp only [recover]
  split
  · exact hd
  · have hex : ContentDir.exists? ((d.startingWith (stagingPrefix name)).foldl
        ContentDir.removeDirAll d) name = true := by
      unfold ContentDir.exists?
      rw [hd]
      exact h
    rw [if_pos hex, foldl_removeDirAll_get hold, hd]

theorem removeDirAll_get_or (d : ContentDir) (name target : String) :
    (d.removeDirAll target)[name]? = none ∨ (d.removeDirAll target)[name]? = d[name]? := by
  by_cases h : name = target
  · subst h
    unfold ContentDir.removeDirAll
    split
    · exact .inr rfl
    · exact .inl (by rw [get_erase, if_pos rfl])
  · exact .inr (removeDirAll_get_ne h)

theorem foldl_removeDirAll_get_or (d : ContentDir) (name : String) (names : List String) :
    (names.foldl ContentDir.removeDirAll d)[name]? = none ∨
      (names.foldl ContentDir.removeDirAll d)[name]? = d[name]? := by
  induction names generalizing d with
  | nil => exact .inr rfl
  | cons n names ih =>
    rcases ih (d.removeDirAll n) with hnone | hsame
    · exact .inl hnone
    · rw [List.foldl_cons, hsame]
      exact removeDirAll_get_or d name n

/-- Under any other name the recovery only removes. -/
theorem recover_get_or (d : ContentDir) {other : String} (hne : other ≠ name) :
    (recover d name)[other]? = none ∨ (recover d name)[other]? = d[other]? := by
  have hstaging := foldl_removeDirAll_get_or d other (d.startingWith (stagingPrefix name))
  have hafter (d₁ : ContentDir) (names : List String)
      (h₁ : d₁[other]? = none ∨ d₁[other]? = d[other]?) :
      (names.foldl ContentDir.removeDirAll d₁)[other]? = none ∨
        (names.foldl ContentDir.removeDirAll d₁)[other]? = d[other]? := by
    rcases foldl_removeDirAll_get_or d₁ other names with hnone | hsame
    · exact .inl hnone
    · rwa [hsame]
  dsimp only [recover]
  split
  · exact hstaging
  · rename_i latest _
    split
    · exact hafter _ _ hstaging
    · split
      · rename_i d₁ hren
        apply hafter
        -- what was set aside last moves to the bundle's name
        by_cases hlatest : other = latest
        · subst hlatest
          exact .inl (rename_get_source hren hne)
        · rwa [rename_get hren hlatest hne]
      · exact hafter _ _ hstaging

end AbyssalWarden

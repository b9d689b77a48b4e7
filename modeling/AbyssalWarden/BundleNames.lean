import AbyssalWarden.ContentDir

/-! The names of bundles as names of directories: where they lead below the content directory, and
which of them the listings of installed bundles show. -/
namespace AbyssalWarden

/-! ### Where a name leads -/

/-- One component of a path, met in the directory `dir`, which is given by its components. -/
def enter (dir : List (List Char)) (component : List Char) : List (List Char) :=
  if component = [] ∨ component = ['.'] then dir
  else if component = ['.', '.'] then dir.dropLast
  else dir ++ [component]

/-- The directory that `dir.join(name)` leads to; an absolute name leaves `dir` out. -/
def leadsTo (dir : List (List Char)) (name : String) : List (List Char) :=
  (pathComponents name).foldl enter (if ['/'].isPrefixOf name.toList then [] else dir)

/-- `format!("{x:02x}")` of eight random bytes -/
def randomSuffix (b : Bytes) : String := String.ofList (hexEncode b)

/-! ### The listings -/

def hidden (name : String) : Bool := ['.'].isPrefixOf name.toList

/-- `p.join(MANIFEST_FILE).is_file()`, for a manifest that can be read if it is there. -/
def ContentDir.holdsManifest (d : ContentDir) (name : String) : Bool :=
  match d[name]?.bind Entry.resolve with
  | some (.dir content) => (content.read manifestFile).isOk
  | _ => false

/-- Every directory holding a manifest, without the hidden ones. -/
def ContentDir.installed (d : ContentDir) : List String :=
  d.keys.filter fun n => !hidden n && d.holdsManifest n

structure BundleArgs where
  dirs : List String
  installed : Bool
  contentDir : Option String

/-- Bundle directories to load: `--content`, plus with `--installed` every directory holding a
manifest in the content directory, of which `readDir` is the listing. -/
def BundleArgs.bundleDirs (args : BundleArgs) (default : Option String)
    (readDir : String → Except IoKind ContentDir) : Except String (List String) :=
  if args.installed then
    match args.contentDir <|> default with
    | none => .error "cannot determine the content directory; use --content-dir"
    | some root => do
      let found ← match readDir root with
        | .ok entries => .ok (entries.installed.map (joinPath root))
        | .error .notFound => .ok []
        | .error (.other e) => .error (root ++ ": " ++ e)
      refuseIf (found = [])
        ("no installed content in " ++ root ++ "; run `abyssal-warden update` first")
      .ok (args.dirs ++ found)
  else .ok args.dirs

/-- Whether `dir` holds at least one installed bundle (a subdirectory with a manifest). -/
def hasInstalledContent (readDir : String → Except IoKind ContentDir) (dir : String) : Bool :=
  match readDir dir with
  | .ok entries => entries.keys.any fun n => !hidden n && entries.holdsManifest n
  | .error _ => false

section Names

variable {name : String} {d : ContentDir}

/-- A manifest lies in `content_dir/<name>`. -/
def ContentDir.Holds (d : ContentDir) (name : String) : Prop := ∃ data, d.readManifest name = .ok data

theorem mem_installed_iff :
    name ∈ d.installed ↔ hidden name = false ∧ d.holdsManifest name = true := by
  rw [ContentDir.installed, List.mem_filter, Std.ExtTreeMap.mem_keys, Bool.and_eq_true,
    Bool.not_eq_true']
  constructor
  · intro h
    exact h.2
  · intro h
    refine ⟨?_, h⟩
    have hholds := h.2
    cases hentry : d[name]? with
    | none => simp [ContentDir.holdsManifest, hentry] at hholds
    | some e => exact Std.ExtTreeMap.mem_iff_isSome_getElem?.mpr (by rw [hentry]; rfl)

theorem hasInstalledContent_iff {readDir : String → Except IoKind ContentDir} {dir : String}
    (h : readDir dir = .ok d) : hasInstalledContent readDir dir = true ↔ d.installed ≠ [] := by
  simp only [hasInstalledContent, h, ContentDir.installed, ne_eq, List.filter_eq_nil_iff,
    List.any_eq_true, not_forall, not_not]
  exact ⟨fun ⟨n, hn, hp⟩ => ⟨n, hn, hp⟩, fun ⟨n, hn, hp⟩ => ⟨n, hn, hp⟩⟩

theorem holdsManifest_of_holds (hdots : dotName name = false) (h : d.Holds name) :
    d.holdsManifest name = true := by
  obtain ⟨data, hread⟩ := h
  simp only [dotName, Bool.or_eq_false_iff, decide_eq_false_iff_not] at hdots
  rw [ContentDir.readManifest, if_neg hdots.1, if_neg hdots.2] at hread
  unfold ContentDir.holdsManifest
  split at hread
  · cases hread
  · cases hread
  · rename_i content hentry
    rw [hentry]
    change (content.read manifestFile).isOk = true
    rw [hread]
    rfl

theorem dotName_hidden (h : hidden name = false) : dotName name = false := by
  have hne (dots : String) (hdots : hidden dots = true) : name ≠ dots := by
    intro heq
    rw [heq, hdots] at h
    cases h
  simp only [dotName, hne "." rfl, hne ".." rfl, decide_false, Bool.or_false]

/-- A valid name is one component of a path. -/
theorem pathComponents_validName (h : validName name = true) : pathComponents name = [name.toList] := by
  apply List.splitOnP_eq_singleton
  intro c hc
  have hall := List.all_eq_true.mp (Bool.and_eq_true_iff.mp h).2 c hc
  cases hslash : c == '/' with
  | false => rfl
  | true =>
    rw [beq_iff_eq.mp hslash] at hall
    exact absurd hall (by decide)

theorem leadsTo_validName (h : validName name = true) (dir : List (List Char)) :
    leadsTo dir name = enter dir name.toList := by
  have hrelative : ['/'].isPrefixOf name.toList = false := by
    have hall := List.all_eq_true.mp (Bool.and_eq_true_iff.mp h).2
    cases hname : name.toList with
    | nil => rfl
    | cons c rest =>
      have hc := hall c (by rw [hname]; exact List.mem_cons_self)
      have hne : c ≠ '/' := by
        intro heq
        rw [heq] at hc
        exact absurd hc (by decide)
      simp [List.isPrefixOf, Ne.symm hne]
  rw [leadsTo, pathComponents_validName h, hrelative]
  rfl

/-- A name is safe as the name of a directory: it leads to a child of the content directory, it is
no private name of any bundle, and the listings show what is installed under it. -/
structure SafeName (name : String) : Prop where
  child : ∀ dir, ∃ entry, leadsTo dir name = dir ++ [entry]
  other : ∀ dir, leadsTo dir name ≠ dir
  apart : ∀ bundle b, validName bundle = true → b.length = 8 →
    name ≠ stagingPrefix bundle ++ randomSuffix b ∧ name ≠ oldPrefix bundle ++ randomSuffix b
  listed : ∀ (args : BundleArgs) default readDir root d, args.installed = true →
    (args.contentDir <|> default) = some root → readDir root = .ok d → d.Holds name →
      ∃ dirs, args.bundleDirs default readDir = .ok dirs ∧ joinPath root name ∈ dirs
  found : ∀ readDir dir d, readDir dir = .ok d → d.Holds name → hasInstalledContent readDir dir = true

theorem joinPath_mem_bundleDirs {args : BundleArgs} {default : Option String}
    {readDir : String → Except IoKind ContentDir} {root : String} (hargs : args.installed = true)
    (hroot : (args.contentDir <|> default) = some root) (hread : readDir root = .ok d)
    (h : name ∈ d.installed) :
    ∃ dirs, args.bundleDirs default readDir = .ok dirs ∧ joinPath root name ∈ dirs := by
  have hmem : joinPath root name ∈ d.installed.map (joinPath root) := List.mem_map_of_mem h
  have hne : d.installed.map (joinPath root) ≠ [] := List.ne_nil_of_mem hmem
  refine ⟨args.dirs ++ d.installed.map (joinPath root), ?_, List.mem_append_right _ hmem⟩
  simp only [BundleArgs.bundleDirs, hargs, if_true, hroot, hread, except_ok_bind, refuseIf,
    if_neg hne]

/-- The directory in which nothing but this bundle is installed. -/
def onlyBundle (name : String) (data : Bytes) : ContentDir :=
  (∅ : ContentDir).insert name (.plain (.dir (dirOf [(manifestFile, data)])))

theorem onlyBundle_holds (hdots : dotName name = false) (data : Bytes) :
    (onlyBundle name data).Holds name := by
  refine ⟨data, ?_⟩
  have hentry : (onlyBundle name data)[name]?.bind Entry.resolve = some (.dir (dirOf [(manifestFile, data)])) := by
    rw [onlyBundle, get_insert, if_pos rfl]
    rfl
  rw [readManifest_of_entry hdots hentry]
  rfl

theorem onlyBundle_installed (h : hidden name = true) (data : Bytes) :
    (onlyBundle name data).installed = [] := by
  apply List.eq_nil_iff_forall_not_mem.mpr
  intro n hn
  obtain ⟨hshown, hholds⟩ := mem_installed_iff.mp hn
  by_cases heq : name = n
  · rw [← heq, h] at hshown
    cases hshown
  · have hentry : (onlyBundle name data)[n]? = none := by
      rw [onlyBundle, get_insert, if_neg heq]
      rfl
    simp [ContentDir.holdsManifest, hentry] at hholds

/-- A valid name is a safe name of a directory just when it does not begin with a dot. -/
theorem valid_name_safe_iff (h : validName name = true) : SafeName name ↔ hidden name = false := by
  constructor
  · intro hsafe
    cases hhidden : hidden name with
    | false => rfl
    | true =>
      cases hdots : dotName name with
      | true =>
        simp only [dotName, Bool.or_eq_true, decide_eq_true_eq] at hdots
        -- a name of dots leads to the directory itself or out of it
        obtain ⟨entry, hchild⟩ := hsafe.child []
        rcases hdots with hdot | hdots
        · rw [leadsTo_validName h, hdot] at hchild
          exact absurd hchild (by simp [enter])
        · rw [leadsTo_validName h, hdots] at hchild
          exact absurd hchild (by simp [enter])
      | false =>
        -- the only bundle of a directory would have to be found
        have hfound := hsafe.found (fun _ => .ok (onlyBundle name [])) "" _ rfl
          (onlyBundle_holds hdots [])
        have hread : (fun _ : String => Except.ok (ε := IoKind) (onlyBundle name [])) "" = .ok (onlyBundle name []) := rfl
        exact absurd (onlyBundle_installed hhidden []) ((hasInstalledContent_iff hread).mp hfound)
  · intro hshown
    have hdots := dotName_hidden hshown
    -- a name that is not hidden is one path component
    have hchild (dir : List (List Char)) : leadsTo dir name = dir ++ [name.toList] := by
      have hempty : name.toList ≠ [] := fun hnil => by simp [validName, String.toList_eq_nil_iff.mp hnil] at h
      have hdot : name.toList ≠ ['.'] := fun heq => by simp [hidden, heq] at hshown
      have hdotdot : name.toList ≠ ['.', '.'] := fun heq => by simp [hidden, heq] at hshown
      rw [leadsTo_validName h, enter, if_neg (not_or.mpr ⟨hempty, hdot⟩), if_neg hdotdot]
    have hin {d : ContentDir} (hholds : d.Holds name) : name ∈ d.installed :=
      mem_installed_iff.mpr ⟨hshown, holdsManifest_of_holds hdots hholds⟩
    refine ⟨fun dir => ⟨name.toList, hchild dir⟩, fun dir heq => ?_, fun bundle b _ _ => ?_,
      fun args default readDir root d hargs hroot hread hholds => ?_, fun readDir dir d hread hholds => ?_⟩
    · rw [hchild] at heq
      simp at heq
    · refine ⟨fun heq => ?_, fun heq => ?_⟩
      · simp [hidden, heq, stagingPrefix, String.toList_append] at hshown
      · simp [hidden, heq, oldPrefix, String.toList_append] at hshown
    · exact joinPath_mem_bundleDirs hargs hroot hread (hin hholds)
    · exact (hasInstalledContent_iff hread).mpr (List.ne_nil_of_mem (hin hholds))

theorem valid_name_safe_official : SafeName "official" ↔ hidden "official" = false :=
  valid_name_safe_iff (by decide)

/-- A bundle is installed as `.rules`, and neither listing shows it. -/
theorem hidden_bundle_not_found :
    validName ".rules" = true ∧ (onlyBundle ".rules" []).Holds ".rules" ∧
      hasInstalledContent (fun _ => .ok (onlyBundle ".rules" [])) "content" = false ∧
      (⟨[], true, some "content"⟩ : BundleArgs).bundleDirs none (fun _ => .ok (onlyBundle ".rules" [])) =
        .error "no installed content in content; run `abyssal-warden update` first" ∧
      ¬ SafeName ".rules" := by
  have hvalid : validName ".rules" = true := by decide
  have hempty : (onlyBundle ".rules" []).installed = [] := onlyBundle_installed rfl []
  refine ⟨hvalid, onlyBundle_holds (by decide) [], ?_, ?_, fun hsafe => ?_⟩
  · exact Bool.eq_false_iff.mpr fun h => (hasInstalledContent_iff rfl).mp h hempty
  · simp only [BundleArgs.bundleDirs, if_true, hempty]
    rfl
  · exact absurd ((valid_name_safe_iff hvalid).mp hsafe) (by decide)

end Names

end AbyssalWarden

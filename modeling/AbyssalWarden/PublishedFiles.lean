import AbyssalWarden.BundleSoundness
import AbyssalWarden.Publishing

/-! What a directory has to list, and what a written manifest says of it. -/
namespace AbyssalWarden

open Signatures (DatabaseSerde)
open Yara (Compiler)

variable {entries entries' rest below : Entries} {name data : Bytes} {dir out out' : List String} {p rel : String}

/-! ### Looking entries up -/

namespace Entries

theorem find_put {m : Bytes} :
    (entries.put name data).find m = if m = name then some (.file (.ok data)) else entries.find m := by
  induction entries with
  | nil =>
    simp only [put, find, eq_comm]
  | file n content rest ih =>
    by_cases hn : n = name <;> by_cases hm : n = m <;> simp_all [put, find, eq_comm]
  | directory n listable below rest _ ih =>
    by_cases hn : n = name <;> by_cases hm : n = m <;> simp_all [put, find, eq_comm]
  | other n content rest ih =>
    by_cases hn : n = name <;> by_cases hm : n = m <;> simp_all [put, find, eq_comm]

theorem mem_names_of_find (h : entries.find name ≠ none) : name ∈ entries.names := by
  induction entries with
  | nil => exact absurd rfl h
  | file n content rest ih =>
    by_cases hn : n = name
    · exact hn ▸ List.mem_cons_self
    · exact List.mem_cons_of_mem _ (ih (by rwa [find, if_neg hn] at h))
  | directory n listable below rest _ ih =>
    by_cases hn : n = name
    · exact hn ▸ List.mem_cons_self
    · exact List.mem_cons_of_mem _ (ih (by rwa [find, if_neg hn] at h))
  | other n content rest ih =>
    by_cases hn : n = name
    · exact hn ▸ List.mem_cons_self
    · exact List.mem_cons_of_mem _ (ih (by rwa [find, if_neg hn] at h))

variable {first : List Char} {names : List (List Char)} {found : Found}

/-- A walk starts at the entry with the first name. -/
theorem walk_congr (h : entries.find (utf8Bytes (String.ofList first)) = entries'.find (utf8Bytes (String.ofList first))) :
    entries.walk (first :: names) = entries'.walk (first :: names) := by
  rw [walk, walk, h]

theorem find_of_walk (h : entries.walk (first :: names) = some found) :
    entries.find (utf8Bytes (String.ofList first)) ≠ none := by
  intro hnone
  rw [walk, hnone] at h
  dsimp only at h
  split at h
  · cases h
  · cases h

/-- A walk to a file ends at it, or goes on in a directory. -/
theorem find_of_walk_file {content : Except IoKind Bytes} (h : entries.walk (first :: names) = some (.file content)) :
    (names = [] ∧ entries.find (utf8Bytes (String.ofList first)) = some (.file content)) ∨
      ∃ below, entries.find (utf8Bytes (String.ofList first)) = some (.directory below) := by
  rw [walk] at h
  split at h
  · rename_i below hbelow
    exact Or.inr ⟨below, hbelow⟩
  · split at h
    · exact Or.inl ⟨‹_›, h⟩
    · cases h

end Entries

/-! ### The content files -/

/-- The name of an entry, if it is text and not skipped. -/
def shownName (name : Bytes) : Option String := (fromUtf8 name).filter fun s => !skipped s

def shownPaths (name : Bytes) (paths : String → List String) : List String :=
  match shownName name with
  | none => []
  | some s => paths s

/-- The content files of a directory, in the order in which they are found. -/
def contentPaths (dir : List String) : Entries → List String
  | .nil => []
  | .file name _ rest =>
    shownPaths name (fun s => [joinComponents (dir ++ [s])].filter (· ≠ manifestFile)) ++ contentPaths dir rest
  | .directory name _ below rest => shownPaths name (fun s => contentPaths (dir ++ [s]) below) ++ contentPaths dir rest
  | .other _ _ rest => contentPaths dir rest

theorem visit_ok {found : String → Except PublishError (List String)} {paths : String → List String}
    (h : visit dir name out found = .ok out') (hfound : ∀ s, found s = .ok out' → out' = out ++ paths s) :
    out' = out ++ shownPaths name paths := by
  unfold visit at h
  unfold shownPaths shownName
  split at h
  · cases h
  · rename_i s hs
    rw [hs]
    split at h
    · rename_i hskip
      cases h
      have hfilter : (some s).filter (fun s => !skipped s) = none := by simp [hskip]
      rw [hfilter]
      exact (List.append_nil _).symm
    · rename_i hshow
      have hfilter : (some s).filter (fun s => !skipped s) = some s := by simp [hshow]
      rw [hfilter]
      exact hfound s h

theorem addFile_ok (h : addFile rel out = .ok out') : out' = out ++ [rel].filter (· ≠ manifestFile) := by
  unfold addFile at h
  split at h
  · rename_i heq
    cases h
    simp [heq]
  · rename_i hne
    simp only [except_bind_eq_ok, refuseIf_eq_ok, exists_const, Except.ok.injEq] at h
    rw [← h.2.2]
    simp [hne]

theorem collect_ok (h : collect dir entries out = .ok out') : out' = out ++ contentPaths dir entries := by
  induction entries generalizing dir out out' with
  | nil =>
    cases h
    exact (List.append_nil _).symm
  | file name content rest ih =>
    obtain ⟨mid, hvisit, hrest⟩ := except_bind_eq_ok.mp h
    have hmid := visit_ok hvisit fun s hs => addFile_ok hs
    rw [ih hrest, hmid, List.append_assoc]
    rfl
  | directory name listable below rest ihbelow ih =>
    obtain ⟨mid, hvisit, hrest⟩ := except_bind_eq_ok.mp h
    have hbelow (s : String) (hs : (if listable then collect (dir ++ [s]) below out
        else .error (.unlistable (dir ++ [s]))) = .ok mid) : mid = out ++ contentPaths (dir ++ [s]) below := by
      -- a directory that cannot be listed is an error, so this one was
      split at hs
      · exact ihbelow hs
      · cases hs
    have hmid := visit_ok hvisit hbelow
    rw [ih hrest, hmid, List.append_assoc]
    rfl
  | other name content rest ih =>
    obtain ⟨mid, hvisit, hrest⟩ := except_bind_eq_ok.mp h
    have hmid : mid = out ++ shownPaths name (fun _ => []) := visit_ok hvisit fun s hs => nomatch hs
    have hnone : shownPaths name (fun _ => []) = [] := by
      unfold shownPaths
      split <;> rfl
    rw [ih hrest, hmid, hnone, List.append_nil]
    rfl

/-- Names that lead to a file, of which the first is not skipped. -/
structure Entries.LeadsTo (entries : Entries) (first : String) (names : List String) : Prop where
  shown : skipped first = false
  plain : ∀ s ∈ first :: names, '/' ∉ s.toList
  found : ∃ content, entries.walk ((first :: names).map String.toList) = some (.file content)

theorem Entries.LeadsTo.lift {first : String} {names : List String} (h : rest.LeadsTo first names)
    (hfind : utf8Bytes first ∈ rest.names → entries.find (utf8Bytes first) = rest.find (utf8Bytes first)) :
    entries.LeadsTo first names := by
  obtain ⟨content, hwalk⟩ := h.found
  have hmem := mem_names_of_find (find_of_walk hwalk)
  rw [String.ofList_toList] at hmem
  refine ⟨h.shown, h.plain, content, ?_⟩
  rw [List.map_cons] at hwalk ⊢
  rw [← hwalk]
  refine walk_congr ?_
  rw [String.ofList_toList]
  exact hfind hmem

theorem mem_shownPaths {paths : String → List String} (h : p ∈ shownPaths name paths) :
    ∃ s, fromUtf8 name = some s ∧ skipped s = false ∧ utf8Bytes s = name ∧ p ∈ paths s := by
  unfold shownPaths at h
  split at h
  · cases h
  · rename_i s hs
    obtain ⟨hs, hskip⟩ := Option.filter_eq_some_iff.mp hs
    exact ⟨s, hs, by simpa using hskip, utf8Bytes_of_fromUtf8 hs, h⟩

/-- A content file is led to by the names of its path. -/
theorem mem_contentPaths (hvalid : entries.Valid) (h : p ∈ contentPaths dir entries) :
    p ≠ manifestFile ∧ ∃ first names, entries.LeadsTo first names ∧ p = joinComponents (dir ++ first :: names) := by
  -- along the listing; names differ, so what is found under a name stays to be found
  induction entries generalizing dir with
  | nil => cases h
  | file name content rest ih =>
    obtain ⟨hplain, hnew, hrest⟩ := hvalid
    have hlift {s : String} (hs : utf8Bytes s ∈ rest.names) :
        (Entries.file name content rest).find (utf8Bytes s) = rest.find (utf8Bytes s) :=
      if_neg fun (heq : name = utf8Bytes s) => hnew (heq ▸ hs)
    rcases List.mem_append.mp h with h | h
    · obtain ⟨s, hs, hshown, hbytes, hp⟩ := mem_shownPaths h
      obtain ⟨hp, hne⟩ := List.mem_filter.mp hp
      obtain rfl := List.mem_singleton.mp hp
      refine ⟨of_decide_eq_true hne, s, [], ⟨hshown, List.forall_mem_singleton.mpr (hplain s hs), content, ?_⟩, rfl⟩
      have hfind : (Entries.file name content rest).find (utf8Bytes (String.ofList s.toList)) = some (.file content) := by
        rw [String.ofList_toList, hbytes]
        exact if_pos rfl
      rw [List.map_singleton, Entries.walk, hfind]
      rfl
    · obtain ⟨hne, first, names, hleads, hp⟩ := ih hrest h
      exact ⟨hne, first, names, hleads.lift hlift, hp⟩
  | directory name listable below rest ihbelow ih =>
    obtain ⟨hplain, hnew, hbelow, hrest⟩ := hvalid
    have hlift {s : String} (hs : utf8Bytes s ∈ rest.names) :
        (Entries.directory name listable below rest).find (utf8Bytes s) = rest.find (utf8Bytes s) :=
      if_neg fun (heq : name = utf8Bytes s) => hnew (heq ▸ hs)
    rcases List.mem_append.mp h with h | h
    · obtain ⟨s, hs, hshown, hbytes, hp⟩ := mem_shownPaths h
      obtain ⟨hne, first, names, hleads, hp⟩ := ihbelow hbelow hp
      obtain ⟨content, hwalk⟩ := hleads.found
      refine ⟨hne, s, first :: names, ⟨hshown, List.forall_mem_cons.mpr ⟨hplain s hs, hleads.plain⟩, content, ?_⟩, ?_⟩
      · have hfind : (Entries.directory name listable below rest).find (utf8Bytes (String.ofList s.toList)) =
            some (.directory below) := by
          rw [String.ofList_toList, hbytes]
          exact if_pos rfl
        rw [List.map_cons, Entries.walk, hfind]
        exact hwalk
      · rw [hp, List.append_assoc, List.singleton_append]
    · obtain ⟨hne, first, names, hleads, hp⟩ := ih hrest h
      exact ⟨hne, first, names, hleads.lift hlift, hp⟩
  | other name content rest ih =>
    obtain ⟨hplain, hnew, hrest⟩ := hvalid
    have hlift {s : String} (hs : utf8Bytes s ∈ rest.names) :
        (Entries.other name content rest).find (utf8Bytes s) = rest.find (utf8Bytes s) :=
      if_neg fun (heq : name = utf8Bytes s) => hnew (heq ▸ hs)
    obtain ⟨hne, first, names, hleads, hp⟩ := ih hrest h
    exact ⟨hne, first, names, hleads.lift hlift, hp⟩

theorem pathComponents_join {comps : List String} (hplain : ∀ s ∈ comps, '/' ∉ s.toList) (hne : comps ≠ []) :
    pathComponents (joinComponents comps) = comps.map String.toList := by
  rw [pathComponents, joinComponents, String.toList_ofList]
  refine List.splitOn_intercalate '/' ?_ (mt List.map_eq_nil_iff.mp hne)
  intro l hl
  obtain ⟨s, hs, rfl⟩ := List.mem_map.mp hl
  exact hplain s hs

/-- A content file stands where its path says. -/
theorem contentPath_leads (hvalid : entries.Valid) (h : p ∈ contentPaths [] entries) : p ≠ manifestFile ∧
    ∃ first names, entries.LeadsTo first names ∧ p = joinComponents (first :: names) ∧
      pathComponents p = first.toList :: names.map String.toList := by
  obtain ⟨hne, first, names, hleads, hp⟩ := mem_contentPaths hvalid h
  rw [List.nil_append] at hp
  exact ⟨hne, first, names, hleads, hp, by rw [hp, pathComponents_join hleads.plain (List.cons_ne_nil _ _), List.map_cons]⟩

/-! ### The listing -/

/-- What the file at a path holds. -/
def contentAt (entries : Entries) (p : String) : Bytes :=
  (readFound (entries.walk (pathComponents p))).toOption.getD []

/-- The kind that a name stands for, if it stands for one. -/
def kindByName (rel : String) : ContentKind :=
  if isNotice rel then .notice else if extension rel = some "json".toList then .hashDatabase else .yaraRules

def entryOf (sha256 : Bytes → Sha256Digest) (entries : Entries) (p : String) : ManifestFile :=
  ⟨p, kindByName p, (contentAt entries p).length, sha256 (contentAt entries p)⟩

def fileOf (entries : Entries) (p : String) : BundleFile := ⟨p, kindByName p, contentAt entries p⟩

def listedPaths (entries : Entries) : List String := stableSort id (contentPaths [] entries)

/-- The content files, in the order of their paths. -/
def listedFiles (entries : Entries) : List BundleFile := (listedPaths entries).map (fileOf entries)

/-- The manifest of a directory. -/
def manifestFor (sha256 : Bytes → Sha256Digest) (args : ManifestArgs) (now : OffsetDateTime) (entries : Entries) :
    Except PublishError Manifest :=
  (expiryAt now.wholeSecond args.expiresIn).map fun expires =>
    { Manifest.new args.name args.sequence now.wholeSecond expires with
      files := (listedPaths entries).map (entryOf sha256 entries)
      revokeKeys := args.revokeKeys.map fun k => String.ofList (k.toList.map Char.toUpper) }

theorem mem_listedPaths : p ∈ listedPaths entries ↔ p ∈ contentPaths [] entries := (stableSort_perm id _).mem_iff

variable {serde : DatabaseSerde} {c : Compiler} {sha256 : Bytes → Sha256Digest}

/-- What the publisher has checked of a file. -/
structure Checked (serde : DatabaseSerde) (c : Compiler) (sha256 : Bytes → Sha256Digest) (entries : Entries)
    (p : String) : Prop where
  read : readFound (entries.walk (pathComponents p)) = .ok (contentAt entries p)
  size_le : (contentAt entries p).length ≤ maxContentFileBytes
  usable : (fileOf entries p).Usable serde
  compiles : kindByName p = .yaraRules → ∀ text, fromUtf8 (contentAt entries p) = some text →
    ∃ det, Yara.compile c sha256 [⟨"check", p, text⟩] none = .ok det
  named : isNotice p = true ∨ extension p ∈ [some "json".toList, some "yar".toList, some "yara".toList]

theorem contentKind_ok {kind : ContentKind} (h : contentKind serde c sha256 rel data = .ok kind) :
    kind = kindByName rel ∧ (BundleFile.mk rel kind data).Usable serde ∧
      (kind = .yaraRules → ∀ text, fromUtf8 data = some text →
        ∃ det, Yara.compile c sha256 [⟨"check", rel, text⟩] none = .ok det) ∧
      (isNotice rel = true ∨ extension rel ∈ [some "json".toList, some "yar".toList, some "yara".toList]) := by
  unfold contentKind at h
  unfold kindByName
  -- by the name: a notice, a list of hashes, or rules that are compiled on their own
  split at h
  · rename_i hnotice
    simp only [except_bind_eq_ok, refuseIf_eq_ok, exists_const, Except.ok.injEq] at h
    obtain ⟨-, rfl⟩ := h
    rw [if_pos hnotice]
    exact ⟨rfl, trivial, (fun h => by cases h), Or.inl hnotice⟩
  · rename_i hnotice
    rw [if_neg hnotice]
    split at h
    · rename_i hjson
      simp only [except_bind_eq_ok, mapError_eq_ok, Except.ok.injEq] at h
      obtain ⟨db, hdb, rfl⟩ := h
      rw [if_pos hjson]
      exact ⟨rfl, ⟨db, hdb⟩, (fun h => by cases h), Or.inr (by simp [hjson])⟩
    · rename_i hjson
      split at h
      · rename_i hyara
        obtain ⟨_, hrules, hkind⟩ := except_bind_eq_ok.mp h
        obtain rfl := Except.ok.inj hkind
        rw [if_neg hjson]
        unfold checkRules at hrules
        split at hrules
        · cases hrules
        · rename_i text htext
          simp only [except_map_eq_ok, mapError_eq_ok] at hrules
          obtain ⟨det, hdet, -⟩ := hrules
          refine ⟨rfl, ⟨text, htext⟩, fun _ other hother => ?_, Or.inr ?_⟩
          · obtain rfl := Option.some.inj (htext.symm.trans hother)
            exact ⟨det, hdet⟩
          · rcases hyara with hyar | hyara
            · simp [hyar]
            · simp [hyara]
      · cases h

theorem listFile_ok {files files' : List ManifestFile} (h : listFile serde c sha256 entries files p = .ok files') :
    files' = files ++ [entryOf sha256 entries p] ∧ Checked serde c sha256 entries p := by
  simp only [listFile, except_bind_eq_ok, mapError_eq_ok, refuseIf_eq_ok, exists_const, Except.ok.injEq, not_lt,
    gt_iff_lt] at h
  obtain ⟨data, hread, hsize, kind, hkind, rfl⟩ := h
  have hcontent : contentAt entries p = data := by
    rw [contentAt, hread]
    rfl
  obtain ⟨rfl, husable, hcompiles, hnamed⟩ := contentKind_ok hkind
  rw [entryOf, hcontent]
  refine ⟨rfl, ?_, ?_, ?_, ?_, hnamed⟩
  · rw [hcontent, hread]
  · rwa [hcontent]
  · rwa [fileOf, hcontent]
  · rwa [hcontent]

theorem listFiles_ok {files files' : List ManifestFile} {paths : List String}
    (h : checkEach (listFile serde c sha256 entries) files paths = .ok files') :
    files' = files ++ paths.map (entryOf sha256 entries) ∧ ∀ p ∈ paths, Checked serde c sha256 entries p := by
  induction paths generalizing files with
  | nil =>
    cases h
    exact ⟨(List.append_nil _).symm, fun _ h => absurd h List.not_mem_nil⟩
  | cons p paths ih =>
    obtain ⟨mid, hp, hrest⟩ := checkEach_cons_eq_ok.mp h
    obtain ⟨rfl, hchecked⟩ := listFile_ok hp
    obtain ⟨rfl, hall⟩ := ih hrest
    exact ⟨List.append_assoc .., List.forall_mem_cons.mpr ⟨hchecked, hall⟩⟩

/-- What is known of a directory with a written manifest. -/
structure Written (serde : DatabaseSerde) (c : Compiler) (sha256 : Bytes → Sha256Digest) (codec : ManifestCodec)
    (args : ManifestArgs) (now : OffsetDateTime) (entries : Entries) (published : Published) : Prop where
  manifest : manifestFor sha256 args now entries = .ok published.manifest
  valid : published.manifest.Valid
  checked : ∀ p ∈ listedPaths entries, Checked serde c sha256 entries p
  stored : ∃ json, codec.toVecPretty published.manifest = .ok json ∧
    persist entries (json ++ [0x0A]) = .ok published.entries

theorem writeManifest_ok {codec : ManifestCodec} {args : ManifestArgs} {now : OffsetDateTime}
    {disk : Except String Unit} {published : Published}
    (h : writeManifest serde c sha256 codec args now disk entries = .ok published) :
    Written serde c sha256 codec args now entries published := by
  simp only [writeManifest, except_bind_eq_ok, refuseIf_eq_ok, refuseSome_eq_ok, mapError_eq_ok, exists_const,
    Except.ok.injEq] at h
  obtain ⟨-, expires, hexpires, paths, hpaths, -, files, hfiles, _, hvalid, json, hjson, _, -, stored, hstored, rfl⟩ := h
  have hlisted : stableSort id paths = listedPaths entries := by
    rw [collect_ok hpaths, List.nil_append]
    rfl
  rw [hlisted] at hfiles
  obtain ⟨rfl, hchecked⟩ := listFiles_ok hfiles
  rw [List.nil_append] at hvalid hjson ⊢
  refine ⟨?_, (Manifest.validate_eq_ok_iff _).mp hvalid, hchecked, json, hjson, hstored⟩
  rw [manifestFor, hexpires]
  rfl

end AbyssalWarden

import AbyssalWarden.DirectoryCoverage
import AbyssalWarden.UnitCheck

/-! Which units the check reads. An inode is taken under the first of its names that is met, whatever that name is, so a
unit is inspected when the first name is a unit's. -/
namespace AbyssalWarden.SystemCheck

variable {root : Root} {dir : NativePath} {s s' : Checking} {x : Met} {l l' : List Met} {seen : List (ℕ × ℕ)}
  {wanted : List String} {cancel : Cancellation} {dirs : List UnitDir} {path : NativePath} {unit : List Char}

/-! ### The names that are met -/

theorem statEntries_fst (listed : List Entry) (s : Checking) :
    (statEntries root dir listed s).1 = listed.filterMap (regularFile root dir) := by
  induction listed generalizing s with
  | nil => rfl
  | cons e listed ih =>
    rw [statEntries, List.filterMap_cons, regularFile]
    by_cases hdir : e.kind = .dir
    · rw [if_pos hdir, if_pos hdir]
      exact ih s
    · rw [if_neg hdir, if_neg hdir]
      dsimp only
      cases root.stat (dir.join (utf8Bytes e.name)) with
      | error err => exact ih _
      | ok m =>
        dsimp only
        by_cases hfile : m.kind = .file
        · rw [if_pos hfile, if_pos hfile, ih]
        · rw [if_neg hfile, if_neg hfile, ih]

theorem filesIn_fst (dir : NativePath) (s : Checking) : (filesIn root dir s).1 = regularFiles root dir := by
  rw [filesIn, regularFiles, listedEntries]
  cases root.readDir dir with
  | error err => rfl
  | ok entries => exact statEntries_fst entries s

theorem metDropIns_fst (entries : List Entry) (s : Checking) :
    (metDropIns root dir entries s).1 = entries.flatMap (dropIns root dir) := by
  induction entries generalizing s with
  | nil => rfl
  | cons e entries ih =>
    rw [metDropIns, List.flatMap_cons, dropIns]
    cases dropInUnit e with
    | none => exact ih s
    | some unit =>
      dsimp only
      rw [filesIn_fst, ih]

theorem metIn_fst (dir : NativePath) (s : Checking) : (metIn root dir s).1 = namesIn root dir := by
  have hfiles : (filesIn root dir s).1 = regularFiles root dir := filesIn_fst dir s
  rw [metIn, namesIn, listedEntries]
  cases root.readDir dir with
  | error err =>
    dsimp only
    rw [hfiles, List.flatMap_nil, List.append_nil]
  | ok entries =>
    dsimp only
    rw [hfiles, metDropIns_fst]

/-! ### A check that is partial stays partial -/

theorem statEntries_isPartial (listed : List Entry) (h : (statEntries root dir listed s).2.run.isPartial = false) :
    s.run.isPartial = false := by
  induction listed generalizing s with
  | nil => exact h
  | cons e listed ih =>
    simp only [statEntries] at h
    split at h
    · exact ih h
    · split at h
      · exact (ioError_isPartial (ih h)).2
      · exact ih h

theorem filesIn_isPartial (h : (filesIn root dir s).2.run.isPartial = false) : s.run.isPartial = false := by
  unfold filesIn at h
  split at h
  · exact (ioError_isPartial h).2
  · exact statEntries_isPartial _ h

theorem metDropIns_isPartial (entries : List Entry) (h : (metDropIns root dir entries s).2.run.isPartial = false) :
    s.run.isPartial = false := by
  induction entries generalizing s with
  | nil => exact h
  | cons e entries ih =>
    simp only [metDropIns] at h
    split at h
    · exact ih h
    · exact filesIn_isPartial (ih h)

theorem metIn_isPartial (h : (metIn root dir s).2.run.isPartial = false) : s.run.isPartial = false := by
  simp only [metIn] at h
  split at h
  · exact filesIn_isPartial h
  · exact filesIn_isPartial (metDropIns_isPartial _ h)

/-! ### The first names -/

theorem takeUnits_append : takeUnits (l ++ l') seen =
    ((takeUnits l seen).1 ++ (takeUnits l' (takeUnits l seen).2).1, (takeUnits l' (takeUnits l seen).2).2) := by
  induction l generalizing seen with
  | nil => rfl
  | cons x l ih =>
    rw [List.cons_append, takeUnits, takeUnits]
    split
    · exact ih
    · simp only [ih, List.append_assoc]

theorem mem_takeUnits : (path, unit) ∈ (takeUnits l seen).1 ↔ ∃ pre x post, l = pre ++ x :: post ∧ FirstMet pre x ∧
    x.info.inode ∉ seen ∧ x.path = path ∧ x.unit = some unit := by
  -- along the names that are met, with the inodes seen before them
  induction l generalizing seen with
  | nil =>
    constructor
    · intro h
      cases h
    · rintro ⟨pre, x, post, h, -⟩
      cases pre <;> cases h
  | cons a l ih =>
    rw [takeUnits]
    split
    · rename_i hseen
      rw [ih]
      -- the inode was seen under an earlier name, so this name is never a first one
      constructor
      · rintro ⟨pre, x, post, rfl, hfirst, hnot, hrest⟩
        refine ⟨a :: pre, x, post, rfl, ?_, hnot, hrest⟩
        intro y hy
        rcases List.mem_cons.mp hy with rfl | hy
        · intro heq
          exact hnot (heq ▸ hseen)
        · exact hfirst y hy
      · rintro ⟨pre, x, post, heq, hfirst, hnot, hrest⟩
        cases pre with
        | nil =>
          obtain ⟨rfl, -⟩ := List.cons.inj heq
          exact absurd hseen hnot
        | cons b pre =>
          obtain ⟨rfl, rfl⟩ := List.cons.inj heq
          exact ⟨pre, x, post, rfl, fun y hy => hfirst y (List.mem_cons_of_mem _ hy), hnot, hrest⟩
    · rename_i hnew
      simp only [List.mem_append, List.mem_map, Option.mem_toList, ih]
      -- this name is the first one of its inode, whether it is a unit's or not
      constructor
      · rintro (⟨u, hu, heq⟩ | ⟨pre, x, post, rfl, hfirst, hnot, hrest⟩)
        · obtain ⟨rfl, rfl⟩ := Prod.mk.inj heq
          exact ⟨[], a, l, rfl, fun y hy => absurd hy List.not_mem_nil, hnew, rfl, hu⟩
        · rw [List.mem_cons, not_or] at hnot
          refine ⟨a :: pre, x, post, rfl, ?_, hnot.2, hrest⟩
          intro y hy
          rcases List.mem_cons.mp hy with rfl | hy
          · exact fun heq => hnot.1 heq.symm
          · exact hfirst y hy
      · rintro ⟨pre, x, post, heq, hfirst, hnot, hpath, hunit⟩
        cases pre with
        | nil =>
          obtain ⟨rfl, rfl⟩ := List.cons.inj heq
          exact Or.inl ⟨unit, hunit, by rw [hpath]⟩
        | cons b pre =>
          obtain ⟨rfl, rfl⟩ := List.cons.inj heq
          refine Or.inr ⟨pre, x, post, rfl, fun y hy => hfirst y (List.mem_cons_of_mem _ hy), ?_, hpath, hunit⟩
          rw [List.mem_cons, not_or]
          exact ⟨fun h => hfirst a List.mem_cons_self h.symm, hnot⟩

/-! ### What is read -/

/-- The name and the unit of what was read -/
def Inspected.name (i : Inspected) : NativePath × List Char := (i.src.path, i.src.unit)

/-- The units that were read are of the list, each with the whole text of its file, and the others are missing. -/
structure ReadUnits (root : Root) (units : List (NativePath × List Char)) (inspected : List Inspected) : Prop where
  names : (inspected.map Inspected.name).Sublist units
  text : ∀ i ∈ inspected, ∃ t, root.readText i.src.path = .ok t ∧ i.text = t.text.toList
  all : ∀ u ∈ units, (∃ i ∈ inspected, i.src.path = u.1 ∧ i.src.unit = u.2) ∨
    ∃ err, root.readText u.1 = .error err ∧ err.isMissing = true

theorem ReadUnits.listed {units : List (NativePath × List Char)} {inspected : List Inspected}
    (h : ReadUnits root units inspected) : ∀ i ∈ inspected, (i.src.path, i.src.unit) ∈ units :=
  fun _ hi => h.names.subset (List.mem_map_of_mem hi)

theorem ReadUnits.append {units units' : List (NativePath × List Char)} {inspected inspected' : List Inspected}
    (h : ReadUnits root units inspected) (h' : ReadUnits root units' inspected') :
    ReadUnits root (units ++ units') (inspected ++ inspected') := by
  constructor
  · rw [List.map_append]
    exact h.names.append h'.names
  · intro i hi
    rcases List.mem_append.mp hi with hi | hi
    · exact h.text i hi
    · exact h'.text i hi
  · intro u hu
    rcases List.mem_append.mp hu with hu | hu
    · rcases h.all u hu with ⟨i, hi, heq⟩ | hmissing
      · exact Or.inl ⟨i, List.mem_append_left _ hi, heq⟩
      · exact Or.inr hmissing
    · rcases h'.all u hu with ⟨i, hi, heq⟩ | hmissing
      · exact Or.inl ⟨i, List.mem_append_right _ hi, heq⟩
      · exact Or.inr hmissing

theorem inspectUnits_complete {d : UnitDir} {units : List (NativePath × List Char)}
    (h : (inspectUnits root d wanted units s).2.run.isPartial = false) :
    s.run.isPartial = false ∧ ReadUnits root units (inspectUnits root d wanted units s).1 := by
  -- one unit after the other; a check that is complete at the end was complete all along
  induction units generalizing s with
  | nil => exact ⟨h, ⟨by simp [inspectUnits], by simp [inspectUnits], by simp⟩⟩
  | cons u units ih =>
    obtain ⟨path, unit⟩ := u
    cases hread : read root path s with
    | mk got s₁ =>
      cases got with
      | none =>
        simp only [inspectUnits, hread] at h ⊢
        obtain ⟨hs₁, hrest⟩ := ih h
        have hpart : (read root path s).2.run.isPartial = false := by rw [hread]; exact hs₁
        obtain ⟨hs, ⟨t, -, -, hsome⟩ | ⟨err, herr, hmissing, -⟩⟩ := read_complete hpart
        · rw [hread] at hsome
          cases hsome
        -- a unit that cannot be read is missing, or the check would be partial
        · refine ⟨hs, ⟨hrest.names.cons _, hrest.text, ?_⟩⟩
          intro u hu
          rcases List.mem_cons.mp hu with rfl | hu
          · exact Or.inr ⟨err, herr, hmissing⟩
          · exact hrest.all u hu
      | some content =>
        obtain ⟨text, info⟩ := content
        simp only [inspectUnits, hread] at h ⊢
        obtain ⟨hs₁, hrest⟩ := ih h
        have hpart : (read root path s).2.run.isPartial = false := by rw [hread]; exact hs₁
        obtain ⟨hs, ⟨t, ht, -, hsome⟩ | ⟨err, -, -, hnone⟩⟩ := read_complete hpart
        · rw [hread] at hsome
          obtain ⟨rfl, rfl⟩ := Prod.mk.inj (Option.some.inj hsome)
          refine ⟨hs, ⟨?_, ?_, ?_⟩⟩
          · exact List.cons_sublist_cons.mpr hrest.names
          · intro i hi
            rcases List.mem_cons.mp hi with rfl | hi
            · exact ⟨t, ht, rfl⟩
            · exact hrest.text i hi
          · intro u hu
            rcases List.mem_cons.mp hu with rfl | hu
            · exact Or.inl ⟨_, List.mem_cons_self, rfl, rfl⟩
            · rcases hrest.all u hu with ⟨i, hi, heq⟩ | hmissing
              · exact Or.inl ⟨i, List.mem_cons_of_mem _ hi, heq⟩
              · exact Or.inr hmissing
        · rw [hread] at hnone
          cases hnone

theorem Cancellation.asked_of_later (cancel : Cancellation) {i : ℕ} (n : ℕ) (h : cancel.asked (i + n) = false) :
    cancel.asked i = false := by
  induction n with
  | zero => exact h
  | succ n ih =>
    apply ih
    cases hasked : cancel.asked (i + n) with
    | false => rfl
    | true =>
      have hlater := cancel.stays (i + n) hasked
      rw [Nat.add_assoc, h] at hlater
      cases hlater

/-- A check that is not cancelled and stays complete reads the units that are met first in all the directories. -/
theorem checkDirs_complete {i : ℕ} (hcancel : cancel.asked (i + dirs.length) = false)
    (h : (checkDirs root wanted cancel i dirs seen s).2.run.isPartial = false) : s.run.isPartial = false ∧
      ReadUnits root (takeUnits (metNames root dirs) seen).1 (checkDirs root wanted cancel i dirs seen s).1 := by
  induction dirs generalizing i seen s with
  | nil => exact ⟨h, ⟨by simp [checkDirs], by simp [checkDirs], by simp [metNames, takeUnits]⟩⟩
  | cons d dirs ih =>
    have hasked : cancel.asked i = false := cancel.asked_of_later _ hcancel
    have hlater : cancel.asked (i + 1 + dirs.length) = false := by
      rw [List.length_cons] at hcancel
      rw [Nat.add_assoc, Nat.add_comm 1]
      exact hcancel
    simp only [checkDirs, hasked, Bool.false_eq_true, if_false] at h ⊢
    obtain ⟨hs₁, hrest⟩ := ih hlater h
    obtain ⟨hs₂, hunits⟩ := inspectUnits_complete hs₁
    refine ⟨metIn_isPartial hs₂, ?_⟩
    have hmet : metNames root (d :: dirs) = (metIn root d.path s).1 ++ metNames root dirs := by
      rw [metNames, List.flatMap_cons, metIn_fst]
      rfl
    rw [hmet, takeUnits_append]
    exact hunits.append hrest

/-! ### What is met is there -/

theorem mem_regularFiles {y : NativePath × Meta} (h : y ∈ regularFiles root dir) :
    ∃ node, root.resolve y.1 = .ok node ∧ node.info = y.2 ∧ node.info.kind = .file := by
  obtain ⟨e, -, he⟩ := List.mem_filterMap.mp h
  rw [regularFile] at he
  split at he
  · cases he
  · cases hstat : root.stat (dir.join (utf8Bytes e.name)) with
    | error err =>
      rw [hstat] at he
      cases he
    | ok m =>
      rw [hstat] at he
      dsimp only at he
      split at he
      · rename_i hfile
        obtain rfl := Option.some.inj he
        obtain ⟨node, hnode, hinfo⟩ := except_map_eq_ok.mp hstat
        exact ⟨node, hnode, hinfo, by rw [hinfo, hfile]⟩
      · cases he

/-- A name that is met leads to a regular file. -/
def Met.Resolves (root : Root) (x : Met) : Prop :=
  ∃ node, root.resolve x.path = .ok node ∧ node.info = x.info ∧ node.info.kind = .file

/-- A name that a unit is inspected under is a unit's. -/
def Met.Named (x : Met) : Prop := x.unit.isSome → isUnitName (fileName x.path) = true ∨ isConf x.path = true

theorem metNames_spec (h : x ∈ metNames root dirs) : x.Resolves root ∧ x.Named := by
  obtain ⟨d, -, hd⟩ := List.mem_flatMap.mp h
  rcases List.mem_append.mp hd with hx | hx
  · obtain ⟨y, hy, rfl⟩ := List.mem_map.mp hx
    refine ⟨mem_regularFiles hy, fun hunit => Or.inl ?_⟩
    rw [metFile] at hunit
    split at hunit
    · assumption
    · cases hunit
  · obtain ⟨e, -, he⟩ := List.mem_flatMap.mp hx
    rw [dropIns] at he
    split at he
    · cases he
    · obtain ⟨y, hy, rfl⟩ := List.mem_map.mp he
      obtain ⟨hmem, hconf⟩ := List.mem_filter.mp hy
      exact ⟨mem_regularFiles hmem, fun _ => Or.inr hconf⟩

/-- The names that are taken are different: one name leads to one inode. -/
theorem nodup_takeUnits (h : ∀ x ∈ l, x.Resolves root) : ((takeUnits l seen).1.map Prod.fst).Nodup := by
  induction l generalizing seen with
  | nil => exact List.nodup_nil
  | cons x l ih =>
    obtain ⟨hx, hl⟩ := List.forall_mem_cons.mp h
    rw [takeUnits]
    split
    · exact ih hl
    · dsimp only
      cases hunit : x.unit with
      | none => exact ih hl
      | some unit =>
        rw [Option.toList_some, List.map_singleton, List.singleton_append, List.map_cons, List.nodup_cons]
        refine ⟨?_, ih hl⟩
        intro hmem
        obtain ⟨⟨path, unit'⟩, htaken, rfl⟩ := List.mem_map.mp hmem
        obtain ⟨pre, y, post, rfl, -, hnew, hpath, -⟩ := mem_takeUnits.mp htaken
        obtain ⟨node, hnode, hinfo, -⟩ := hx
        obtain ⟨node', hnode', hinfo', -⟩ := hl y (by simp)
        rw [hpath, hnode] at hnode'
        obtain rfl := Except.ok.inj hnode'
        exact hnew (by rw [← hinfo', hinfo]; exact List.mem_cons_self)

/-! ### The commands that are recorded -/

variable {S : List (List Char × List Char)} {text : List Char} {src : UnitSource}

theorem UnitFile.set_exec (unit : UnitFile) (s : List Char × List Char) :
    (unit.set s.1 s.2).exec = unit.exec ++ if isCommand s then [s] else [] := by
  unfold UnitFile.set
  by_cases hexec : s.1 ∈ execKeys
  · by_cases hv : s.2 = []
    · simp [isCommand, hexec, hv]
    · simp [isCommand, hexec, hv]
  · have hcommand : isCommand s = false := by
      simp [isCommand, hexec]
    simp only [if_neg hexec, hcommand, Bool.false_eq_true, if_false, List.append_nil]
    split_ifs
    all_goals rfl

theorem setAll_exec (unit : UnitFile) (h : unit.exec.length ≤ 64) :
    (setAll S unit).exec = unit.exec ++ (S.filter isCommand).take (65 - unit.exec.length) := by
  induction S generalizing unit with
  | nil => simp [setAll]
  | cons s S ih =>
    have hset := unit.set_exec s
    rw [setAll]
    split
    -- this command was the sixty-fifth
    · rename_i hfull
      rw [hset]
      cases hs : isCommand s with
      | false =>
        rw [hset, hs, if_neg (by decide), List.append_nil] at hfull
        omega
      | true =>
        rw [hset, hs, if_pos rfl, List.length_append, List.length_singleton] at hfull
        have hone : 65 - unit.exec.length = 1 := by omega
        rw [if_pos rfl, List.filter_cons_of_pos hs, hone, List.take_succ_cons, List.take_zero]
    · rename_i hless
      rw [ih _ (Nat.le_of_not_lt hless), hset]
      cases hs : isCommand s with
      | false => rw [if_neg (by decide), List.append_nil, List.filter_cons_of_neg (by simp [hs])]
      | true =>
        have hroom : 65 - unit.exec.length = 65 - (unit.exec.length + 1) + 1 := by omega
        rw [if_pos rfl, List.filter_cons_of_pos hs, hroom, List.take_succ_cons, List.length_append,
          List.length_singleton, List.append_assoc, List.singleton_append]

/-- The first 65 commands of a service are recorded. -/
theorem recorded_commands (h : src.isTimer = false) :
    (src.inspect text).filter (·.findExecutable) = src.execEntries (parseUnit text) ∧
      (parseUnit text).exec = ((settings text).filter isCommand).take 65 := by
  have hexec : (parseUnit text).exec = ((settings text).filter isCommand).take 65 := by
    rw [parseUnit_eq, setAll_exec UnitFile.default (by decide)]
    rfl
  have henvironment : (src.environmentEntries (parseUnit text)).filter (·.findExecutable) = [] := by
    apply List.filter_eq_nil_iff.mpr
    intro f hf
    obtain ⟨assignment, -, rfl⟩ := List.mem_map.mp hf
    exact Bool.false_ne_true
  have hentries : (src.execEntries (parseUnit text)).filter (·.findExecutable) = src.execEntries (parseUnit text) := by
    apply List.filter_eq_self.mpr
    intro f hf
    obtain ⟨command, -, rfl⟩ := List.mem_map.mp hf
    rfl
  refine ⟨?_, hexec⟩
  simp only [UnitSource.inspect, h, Bool.false_eq_true, if_false]
  split
  · rename_i hnone
    rw [List.filter_append, henvironment, UnitSource.execEntries, hnone]
    rfl
  · rw [List.filter_append, henvironment, List.nil_append, hentries]

/-- Where no backslash joins comments with other lines, the commands of a text are recorded when there are few. -/
theorem commands_recorded (h : src.isTimer = false) (hsep : Separate isComment (lines text)) (hfew : FewCommands text) :
    ∃ cs, Commands (unitLines text) cs ∧
      List.Forall₂ OfCommand cs ((src.inspect text).filter (·.findExecutable)) := by
  obtain ⟨cs, hcs⟩ := exists_commands (unitLines text)
  have hcommands := commands_iff.mp hcs
  have hlength := congrArg List.length hcommands
  rw [List.length_map] at hlength
  obtain ⟨hentries, hexec⟩ := recorded_commands h
  rw [settings_eq hsep, List.take_of_length_le (hlength ▸ hfew cs hcs), hcommands] at hexec
  refine ⟨cs, hcs, ?_⟩
  rw [hentries, UnitSource.execEntries, hexec, List.map_map, List.forall₂_map_right_iff, List.forall₂_same]
  exact fun c _ => ⟨rfl, src.unit, rfl⟩

/-- There are as many entries as are read of the commands. -/
theorem fewCommands_of_recorded (h : src.isTimer = false) (hsep : Separate isComment (lines text))
    {cs : List (ExecKey × List Char)} (hcs : Commands (unitLines text) cs)
    (hrecorded : List.Forall₂ OfCommand cs ((src.inspect text).filter (·.findExecutable))) : FewCommands text := by
  obtain ⟨hentries, hexec⟩ := recorded_commands h
  have hlength := hrecorded.length_eq
  rw [hentries, UnitSource.execEntries, List.length_map, hexec, List.length_take] at hlength
  intro cs' hcs'
  have hcount (cs : List (ExecKey × List Char)) (hcs : Commands (unitLines text) cs) :
      ((settings text).filter isCommand).length = cs.length := by
    rw [settings_eq hsep, commands_iff.mp hcs, List.length_map]
  rw [hcount cs' hcs'] at hlength
  have hsame := (hcount cs hcs).symm.trans (hcount cs' hcs')
  omega

/-! ### The entries of a unit -/

variable {f : Found}

/-- An entry is made of the unit that it is of. -/
theorem UnitSource.mem_inspect (h : f ∈ src.inspect text) : f.location = src.path ∧
    f.mechanism = if src.isTimer then .systemdTimer else .systemdService := by
  unfold UnitSource.inspect at h
  dsimp only at h
  have henvironment (h : f ∈ src.environmentEntries (parseUnit text)) : f.location = src.path ∧
      f.mechanism = if src.isTimer then .systemdTimer else .systemdService := by
    obtain ⟨assignment, -, rfl⟩ := List.mem_map.mp h
    exact ⟨rfl, rfl⟩
  split at h
  · obtain rfl := List.mem_singleton.mp h
    exact ⟨rfl, rfl⟩
  · split at h
    · rcases List.mem_append.mp h with h | h
      · exact henvironment h
      · obtain rfl := List.mem_singleton.mp h
        exact ⟨rfl, rfl⟩
    · rcases List.mem_append.mp h with h | h
      · exact henvironment h
      · obtain ⟨command, -, rfl⟩ := List.mem_map.mp h
        exact ⟨rfl, rfl⟩

theorem UnitSource.exists_inspect (src : UnitSource) (text : List Char) : ∃ f, f ∈ src.inspect text := by
  apply List.exists_mem_of_ne_nil
  unfold UnitSource.inspect
  dsimp only
  split
  · exact List.cons_ne_nil _ _
  · split
    · simp
    · rename_i hexec
      simpa [UnitSource.execEntries] using fun _ => hexec

/-- The entries of all that was read -/
def entriesOf (inspected : List Inspected) : List Found := inspected.flatMap fun i => i.src.inspect i.text

/-- The entries with the name of a unit are those of its text. -/
theorem filter_entriesOf {inspected : List Inspected} {i : Inspected} (hi : i ∈ inspected)
    (h : (inspected.map (·.src.path)).Nodup) :
    (entriesOf inspected).filter (fun g => g.location = i.src.path ∧ g.findExecutable) =
      (i.src.inspect i.text).filter (·.findExecutable) := by
  have hown (j : Inspected) (hpath : j.src.path = i.src.path) :
      (j.src.inspect j.text).filter (fun g => g.location = i.src.path ∧ g.findExecutable) =
        (j.src.inspect j.text).filter (·.findExecutable) := by
    apply List.filter_congr
    intro g hg
    simp [(UnitSource.mem_inspect hg).1, hpath]
  have hother (j : Inspected) (hpath : j.src.path ≠ i.src.path) :
      (j.src.inspect j.text).filter (fun g => g.location = i.src.path ∧ g.findExecutable) = [] := by
    rw [List.filter_eq_nil_iff]
    intro g hg
    simp [(UnitSource.mem_inspect hg).1, hpath]
  induction inspected with
  | nil => cases hi
  | cons j inspected ih =>
    obtain ⟨hnew, hrest⟩ := List.nodup_cons.mp h
    rw [entriesOf, List.flatMap_cons, List.filter_append]
    rcases List.mem_cons.mp hi with rfl | hi
    · have hnone : (entriesOf inspected).filter (fun g => g.location = i.src.path ∧ g.findExecutable) = [] := by
        rw [entriesOf, List.filter_flatMap, List.flatMap_eq_nil_iff]
        intro j hj
        exact hother j fun hpath => hnew (List.mem_map.mpr ⟨j, hj, hpath⟩)
      rw [hown i rfl]
      exact (congrArg _ hnone).trans (List.append_nil _)
    · rw [hother j fun hpath => hnew (List.mem_map.mpr ⟨i, hi, hpath.symm⟩), List.nil_append]
      exact ih hi hrest

/-! ### A completed check -/

variable {users : List User} {usersLimited : Bool} {issues : List ScanIssue} {id title : String} {run : Run}
  {cancelled : Bool}

theorem finish_not_cancelled (h : (run.finish id title cancelled).status = .completed) : cancelled = false := by
  cases cancelled with
  | false => rfl
  | true =>
    simp only [Run.finish, Bool.or_true, if_true] at h
    cases h

theorem noteUserLimits_isPartial (h : (noteUserLimits usersLimited s).run.isPartial = false) :
    s.run.isPartial = false := by
  unfold noteUserLimits at h
  split at h
  · cases h
  · exact h

/-- A check that completed has read the units that are met first. -/
theorem systemdCheck_reads (h : (systemdCheck root users usersLimited cancel issues).result.status = .completed) :
    ReadUnits root (takeUnits (metNames root (unitDirs users)) []).1
      (systemdCheck root users usersLimited cancel issues).inspected := by
  have hcancel : cancel.asked (0 + (unitDirs users).length) = false := by
    rw [Nat.zero_add]
    exact finish_not_cancelled h
  exact (checkDirs_complete hcancel (noteUserLimits_isPartial (finish_completed h))).2

variable {inspected : List Inspected} {node : Node}

/-- A file that can be read is read by every of its names. -/
theorem Node.CanBeRead.not_missing {err : IoError} (h : node.CanBeRead) (hnode : root.resolve path = .ok node)
    (herr : root.readText path = .error err) : err.isMissing = false := by
  cases hmissing : err.isMissing with
  | false => rfl
  | true =>
    obtain ⟨hfile, steps, hreads, hfailed⟩ := h
    rcases readText_error herr hnode hfile hmissing with ⟨e, he, -⟩ | ⟨steps', e, hsteps', he, -⟩
    · rw [hreads] at he
      cases he
    · rw [hreads] at hsteps'
      obtain rfl := Except.ok.inj hsteps'
      exact absurd he (hfailed e)

theorem entries_of_check : (systemdCheck root users usersLimited cancel issues).entries =
    entriesOf (systemdCheck root users usersLimited cancel issues).inspected := rfl

/-- The names of what was read are different. -/
theorem ReadUnits.nodup (h : ReadUnits root (takeUnits (metNames root dirs) []).1 inspected) :
    (inspected.map (·.src.path)).Nodup := by
  have hnodup : ((takeUnits (metNames root dirs) []).1.map Prod.fst).Nodup :=
    nodup_takeUnits fun x hx => (metNames_spec hx).1
  have hsub := (h.names.map Prod.fst).nodup hnodup
  rwa [List.map_map] at hsub

/-- What was read under a name is what the name leads to. -/
theorem ReadUnits.met {i : Inspected} (h : ReadUnits root (takeUnits (metNames root dirs) []).1 inspected)
    (hi : i ∈ inspected) : ∃ pre x post, metNames root dirs = pre ++ x :: post ∧ FirstMet pre x ∧
      x.path = i.src.path ∧ x.unit = some i.src.unit ∧ x.Resolves root ∧ x.Named := by
  obtain ⟨pre, x, post, hmet, hfirst, -, hpath, hunit⟩ := mem_takeUnits.mp (h.listed i hi)
  have hx : x ∈ metNames root dirs := by
    rw [hmet]
    exact List.mem_append_right pre List.mem_cons_self
  exact ⟨pre, x, post, hmet, hfirst, hpath, hunit, metNames_spec hx⟩

theorem UnitsInspected.firstIsUnit (h : UnitsInspected root dirs (entriesOf inspected))
    (hread : ReadUnits root (takeUnits (metNames root dirs) []).1 inspected) : FirstIsUnit root dirs := by
  intro node hnamed hcan
  obtain ⟨f, hf, -, node', hnode', hinode⟩ := h.files node hnamed hcan
  obtain ⟨i, hi, hf⟩ := List.mem_flatMap.mp hf
  obtain ⟨pre, x, post, hmet, hfirst, hpath, hunit, ⟨node'', hnode'', hinfo, -⟩, -⟩ := hread.met hi
  rw [hpath, ← (UnitSource.mem_inspect hf).1, hnode'] at hnode''
  obtain rfl := Except.ok.inj hnode''
  refine ⟨pre, x, post, hmet, hfirst, ?_, ?_⟩
  · rw [← hinfo]
    exact hinode
  · rw [hunit]
    rfl

theorem UnitsInspected.fewCommands (h : UnitsInspected root dirs (entriesOf inspected))
    (hread : ReadUnits root (takeUnits (metNames root dirs) []).1 inspected) (htext : ServiceText root dirs text)
    (hsep : Separate isComment (lines text)) : FewCommands text := by
  obtain ⟨pre, x, post, unit, t, hmet, hfirst, hunit, hservice, ht, rfl⟩ := htext
  have hmem : (x.path, unit) ∈ (takeUnits (metNames root dirs) []).1 :=
    mem_takeUnits.mpr ⟨pre, x, post, hmet, hfirst, List.not_mem_nil, rfl, hunit⟩
  rcases hread.all _ hmem with ⟨i, hi, hpath, hname⟩ | ⟨err, herr, -⟩
  · obtain ⟨t', ht', heq⟩ := hread.text i hi
    rw [hpath, ht] at ht'
    obtain rfl := Except.ok.inj ht'
    have htimer : i.src.isTimer = false := by
      rw [UnitSource.isTimer, hname]
      exact hservice
    -- the unit has an entry, from which the claim is read of all of them
    obtain ⟨f, hf⟩ := i.src.exists_inspect i.text
    obtain ⟨hlocation, hmechanism⟩ := UnitSource.mem_inspect hf
    rw [htimer, if_neg Bool.false_ne_true] at hmechanism
    obtain ⟨t', cs, ht', hcs, hentries⟩ := h.commands f (List.mem_flatMap.mpr ⟨i, hi, hf⟩) hmechanism
    rw [hlocation, hpath, ht] at ht'
    obtain rfl := Except.ok.inj ht'
    rw [hlocation, filter_entriesOf hi hread.nodup, heq] at hentries
    exact fewCommands_of_recorded htimer hsep hcs hentries
  · rw [ht] at herr
    cases herr

theorem UnitsSeen.unitsInspected (h : UnitsSeen root dirs)
    (hread : ReadUnits root (takeUnits (metNames root dirs) []).1 inspected)
    (hinode : ∀ p q n m, root.resolve p = .ok n → root.resolve q = .ok m → n.info.inode = m.info.inode → n = m) :
    UnitsInspected root dirs (entriesOf inspected) := by
  constructor
  · intro node hnamed hcan
    obtain ⟨pre, x, post, hmet, hfirst, hsame, hunit⟩ := h.first node hnamed hcan
    obtain ⟨unit, hunit⟩ := Option.isSome_iff_exists.mp hunit
    have hx : x ∈ metNames root dirs := by
      rw [hmet]
      exact List.mem_append_right pre List.mem_cons_self
    obtain ⟨⟨node', hnode', hinfo, -⟩, hname⟩ := metNames_spec hx
    have hmem : (x.path, unit) ∈ (takeUnits (metNames root dirs) []).1 :=
      mem_takeUnits.mpr ⟨pre, x, post, hmet, hfirst, List.not_mem_nil, rfl, hunit⟩
    rw [← hinfo] at hsame
    rcases hread.all _ hmem with ⟨i, hi, hpath, -⟩ | ⟨err, herr, hmissing⟩
    · obtain ⟨f, hf⟩ := i.src.exists_inspect i.text
      refine ⟨f, List.mem_flatMap.mpr ⟨i, hi, hf⟩, ?_⟩
      rw [(UnitSource.mem_inspect hf).1, hpath]
      exact ⟨hname (by rw [hunit]; rfl), node', hnode', hsame⟩
    · -- the file of the first name is the one that can be read
      obtain ⟨p, hp⟩ : ∃ p, root.resolve p = .ok node := by
        cases hnamed with
        | file d entries e hd hlisting he hname hnode => exact ⟨_, hnode⟩
        | dropIn d entries entries' sub e hd hlisting hsub hname hlisting' he hconf hnode => exact ⟨_, hnode⟩
      obtain rfl := hinode _ _ _ _ hnode' hp hsame
      have hpresent := hcan.not_missing hnode' herr
      rw [hmissing] at hpresent
      cases hpresent
  · intro f hf hservice
    obtain ⟨i, hi, hf⟩ := List.mem_flatMap.mp hf
    obtain ⟨hlocation, hmechanism⟩ := UnitSource.mem_inspect hf
    -- an entry of a service comes from a unit that is no timer
    have htimer : i.src.isTimer = false := by
      cases htimer : i.src.isTimer with
      | false => rfl
      | true =>
        rw [htimer, if_pos rfl, hservice] at hmechanism
        cases hmechanism
    obtain ⟨pre, x, post, hmet, hfirst, hpath, hunit, -⟩ := hread.met hi
    obtain ⟨t, ht, heq⟩ := hread.text i hi
    have hmeant : ServiceText root dirs i.text :=
      ⟨pre, x, post, _, t, hmet, hfirst, hunit, htimer, hpath.symm ▸ ht, heq⟩
    -- with few commands, and comments apart, all of them are recorded
    obtain ⟨cs, hcs, hentries⟩ := commands_recorded htimer (h.separate _ hmeant) (h.few _ hmeant)
    refine ⟨t, cs, hlocation.symm ▸ ht, heq ▸ hcs, ?_⟩
    rw [hlocation, filter_entriesOf hi hread.nodup]
    exact hentries

/-- A completed check has inspected the units of a tree if the first name of each that is met is a unit's, and in services
no backslash joins a comment with another line and there are at most 65 commands. Conversely, the first names are units'
and a service without such a backslash has no more commands. Files are told apart by device and inode. -/
theorem units_inspected_iff (root : Root) (users : List User) (usersLimited : Bool) (cancel : Cancellation)
    (issues : List ScanIssue)
    (hinode : ∀ p q n m, root.resolve p = .ok n → root.resolve q = .ok m → n.info.inode = m.info.inode → n = m)
    (hcompleted : (systemdCheck root users usersLimited cancel issues).result.status = .completed) :
    (UnitsSeen root (unitDirs users) →
      UnitsInspected root (unitDirs users) (systemdCheck root users usersLimited cancel issues).entries) ∧
    (UnitsInspected root (unitDirs users) (systemdCheck root users usersLimited cancel issues).entries →
      FirstIsUnit root (unitDirs users) ∧
        ∀ text, ServiceText root (unitDirs users) text → Separate isComment (lines text) → FewCommands text) := by
  have hread := systemdCheck_reads hcompleted
  rw [entries_of_check]
  constructor
  · intro h
    exact h.unitsInspected hread hinode
  · intro h
    exact ⟨h.firstIsUnit hread, fun text htext hsep => h.fewCommands hread htext hsep⟩

/-! ### A unit that shares its inode -/

def etcUnits : NativePath := utf8Bytes "/etc/systemd/system"

/-- A unit with one command -/
def unitNode : Node where
  info := ⟨0, 0, 0o644, .file, 1, 7⟩
  reads := .ok [.data 0x45 (utf8Bytes "xecStart=/tmp/x")]

/-- A root with one directory of units, where all names are names of one unit. -/
def linkedUnit (names : List String) : Root where
  listing d := if d = etcUnits then .ok (names.map fun name => ⟨utf8Bytes name, .file⟩) else .error .notFound
  resolve p := if p ∈ names.map fun name => etcUnits.join (utf8Bytes name) then .ok unitNode else .error .notFound

/-- A token that is never cancelled -/
def running : Cancellation where
  asked _ := false
  stays _ h := h

theorem linkedUnit_resolve {names : List String} {p : NativePath} (h : (linkedUnit names).resolve p = .ok node) :
    node = unitNode := by
  unfold linkedUnit at h
  dsimp only at h
  split at h
  · exact (Except.ok.inj h).symm
  · cases h

theorem linkedUnit_name {names : List String} {name : String} (h : name ∈ names) :
    (linkedUnit names).resolve (etcUnits.join (utf8Bytes name)) = .ok unitNode :=
  if_pos (List.mem_map_of_mem h)

def linkedNames : List String := ["x.service", "y.txt"]

theorem linkedNames_met : metNames (linkedUnit linkedNames) (unitDirs []) =
    [⟨etcUnits.join (utf8Bytes "x.service"), unitNode.info, some "x.service".toList⟩,
      ⟨etcUnits.join (utf8Bytes "y.txt"), unitNode.info, none⟩] := by
  decide

theorem linkedNames_text {text : List Char} (h : ServiceText (linkedUnit linkedNames) (unitDirs []) text) :
    text = "ExecStart=/tmp/x".toList := by
  obtain ⟨pre, x, post, unit, t, hmet, -, -, -, ht, rfl⟩ := h
  have hmem : x ∈ metNames (linkedUnit linkedNames) (unitDirs []) := by
    rw [hmet]
    simp
  obtain ⟨⟨node, hnode, -⟩, -⟩ := metNames_spec hmem
  obtain rfl := linkedUnit_resolve hnode
  have hread : (linkedUnit linkedNames).readText x.path = .ok ⟨"ExecStart=/tmp/x", unitNode.info, false⟩ := by
    rw [Root.readText, hnode]
    rfl
  rw [hread] at ht
  rw [← Except.ok.inj ht]

theorem units_inspected_iff_sample : UnitsInspected (linkedUnit linkedNames) (unitDirs [])
    (systemdCheck (linkedUnit linkedNames) [] false running []).entries := by
  refine (units_inspected_iff (linkedUnit linkedNames) [] false running [] ?_ (by decide)).1 ⟨?_, ?_, ?_⟩
  · intro p q n m hn hm _
    rw [linkedUnit_resolve hn, linkedUnit_resolve hm]
  · intro node hnamed _
    have hnode : node = unitNode := by
      cases hnamed with
      | file d entries e hd hlisting he hname hnode => exact linkedUnit_resolve hnode
      | dropIn d entries entries' sub e hd hlisting hsub hname hlisting' he hconf hnode =>
        exact linkedUnit_resolve hnode
    exact ⟨[], _, _, linkedNames_met, fun y hy => absurd hy List.not_mem_nil, by rw [hnode], rfl⟩
  · intro text htext
    rw [linkedNames_text htext]
    unfold Separate
    decide
  · intro text htext cs hcs
    rw [linkedNames_text htext] at hcs
    have hone : (unitLines "ExecStart=/tmp/x".toList).length = 1 := by decide
    have hlength := hcs.length_le
    omega

/-- The name that is met first is no unit's, so the unit is not inspected, and the check has completed. -/
theorem linked_unit_not_inspected :
    (systemdCheck (linkedUnit ["a.txt", "x.service"]) [] false running []).result.status = .completed ∧
    ¬ UnitsInspected (linkedUnit ["a.txt", "x.service"]) (unitDirs [])
      (systemdCheck (linkedUnit ["a.txt", "x.service"]) [] false running []).entries := by
  constructor
  · decide
  · intro h
    have hnone : (systemdCheck (linkedUnit ["a.txt", "x.service"]) [] false running []).entries.length = 0 := by
      decide
    have hnamed : NamesUnit (linkedUnit ["a.txt", "x.service"]) (unitDirs []) unitNode := by
      apply NamesUnit.file ⟨etcUnits, .system, none⟩ [⟨utf8Bytes "a.txt", .file⟩, ⟨utf8Bytes "x.service", .file⟩]
        ⟨utf8Bytes "x.service", .file⟩ List.mem_cons_self
      · rfl
      · simp
      · exact Or.inl ⟨utf8Bytes "x", by decide⟩
      · exact linkedUnit_name (by simp)
    have hcan : unitNode.CanBeRead := ⟨rfl, _, rfl, by simp⟩
    obtain ⟨f, hf, -⟩ := h.files unitNode hnamed hcan
    exact List.ne_nil_of_mem hf (List.length_eq_zero_iff.mp hnone)

end AbyssalWarden.SystemCheck

import AbyssalWarden.ElfAnalysis

/-! The run paths that the analysis of an ELF file reports, against those that stand in the file. -/
namespace AbyssalWarden.Elf

/-! ### Numbers -/

section

variable {a b c addr : UInt64} {load : Load}

theorem checkedAdd_eq_ok : checkedAdd a b = .ok c ↔ a.toNat + b.toNat < 2 ^ 64 ∧ c.toNat = a.toNat + b.toNat := by
  have hsum : a.toNat + b.toNat < 2 ^ 64 → (a + b).toNat = a.toNat + b.toNat := fun h => by
    rw [UInt64.toNat_add, Nat.mod_eq_of_lt h]
  rw [checkedAdd]
  split
  case isTrue h =>
    rw [Except.ok.injEq, ← UInt64.toNat_inj, hsum h]
    omega
  case isFalse h => exact ⟨nofun, fun hle => absurd hle.1 h⟩

theorem checkedSub_eq_ok : checkedSub a b = .ok c ↔ b.toNat ≤ a.toNat ∧ c.toNat = a.toNat - b.toNat := by
  rw [checkedSub]
  split
  case isTrue h =>
    have hdiff := UInt64.toNat_sub_of_le _ _ h
    rw [UInt64.le_iff_toNat_le] at h
    rw [Except.ok.injEq, ← UInt64.toNat_inj, hdiff]
    omega
  case isFalse h =>
    rw [UInt64.le_iff_toNat_le] at h
    simp [h]

theorem saturatingAdd_toNat : (saturatingAdd a b).toNat = min (a.toNat + b.toNat) (2 ^ 64 - 1) := by
  rw [saturatingAdd, UInt64.toNat_ofNat']
  omega

/-- The segment holds the address. -/
def Load.Maps (load : Load) (addr : UInt64) : Prop :=
  load.vaddr.toNat ≤ addr.toNat ∧ addr.toNat < load.vaddr.toNat + load.filesz.toNat

instance : Decidable (load.Maps addr) := inferInstanceAs (Decidable (_ ∧ _))

/-- The last address of all is in no segment for the search: the end of a segment stops there. -/
theorem maps_iff : load.maps addr = true ↔ load.Maps addr ∧ addr.toNat < 2 ^ 64 - 1 := by
  have haddr := addr.toNat_lt
  rw [Load.maps, Bool.and_eq_true, decide_eq_true_eq, decide_eq_true_eq, UInt64.le_iff_toNat_le, UInt64.lt_iff_toNat_lt,
    saturatingAdd_toNat, Load.Maps]
  omega

end

/-! ### What is reported of a list of components -/

section

variable {acc before cs : List String} {c : String}

/-- The unsafe components that are reported, each once and where it is first seen. -/
def reported (cs : List String) : List String := ((cs.filter isBadEntry).map shownEntry).eraseDups

/-- No empty component comes after one that is reported like it. -/
def EmptyOnce (cs : List String) : Prop :=
  ∀ before after, cs = before ++ "" :: after → "" ∉ before ∧ emptyLabel ∉ before

theorem shownEntry_ne : shownEntry c ≠ "" := by
  rw [shownEntry]
  split
  · decide
  · assumption

theorem isBadEntry_empty : isBadEntry "" = true := rfl

theorem isBadEntry_label : isBadEntry emptyLabel = true := by decide

theorem eraseDups_concat {α : Type} [DecidableEq α] (as : List α) (a : α) :
    (as ++ [a]).eraseDups = if a ∈ as then as.eraseDups else as.eraseDups ++ [a] := by
  rw [List.eraseDups_append]
  split
  case isTrue h => simp [List.removeAll, h]
  case isFalse h => simp [List.removeAll, h, List.eraseDups_cons]

theorem eraseDups_nodup {α : Type} [DecidableEq α] (as : List α) : as.eraseDups.Nodup := by
  induction as using List.reverseRecOn with
  | nil => exact List.nodup_nil
  | append_singleton as a ih =>
    rw [eraseDups_concat]
    split
    case isTrue => exact ih
    case isFalse h =>
      have hnodup := List.nodup_concat as.eraseDups a
      rw [List.concat_eq_append] at hnodup
      exact hnodup.mpr ⟨fun hmem => h (List.mem_eraseDups.mp hmem), ih⟩

theorem mem_reported : c ∈ reported cs ↔ ∃ c' ∈ cs, isBadEntry c' = true ∧ shownEntry c' = c := by
  rw [reported, List.mem_eraseDups, List.mem_map]
  simp only [List.mem_filter, and_assoc]

theorem reported_concat : reported (cs ++ [c]) =
    if isBadEntry c = true ∧ shownEntry c ∉ reported cs then reported cs ++ [shownEntry c] else reported cs := by
  rw [reported, List.filter_append, List.map_append]
  cases hbad : isBadEntry c with
  | false =>
    rw [List.filter_cons_of_neg (by simp [hbad]), List.filter_nil, List.map_nil, List.append_nil,
      if_neg (by simp)]
    rfl
  | true =>
    rw [List.filter_cons_of_pos hbad, List.filter_nil, List.map_singleton, eraseDups_concat]
    simp only [reported, List.mem_eraseDups, true_and, ite_not]

/-- What the loop has pushed. -/
def pushed (cs : List String) : List String := cs.foldl pushEntry []

theorem pushed_concat : pushed (cs ++ [c]) = pushEntry (pushed cs) c := by
  rw [pushed, List.foldl_append]
  rfl

theorem mem_pushed : c ∈ pushed cs ↔ c ∈ reported cs := by
  induction cs using List.reverseRecOn generalizing c with
  | nil => rfl
  | append_singleton cs d ih =>
    rw [pushed_concat, reported_concat, pushEntry]
    by_cases hbad : isBadEntry d = true
    -- a bad entry is pushed once, under the text that it is shown with
    · by_cases hd : d ∈ pushed cs
      · have hshown : shownEntry d ∈ reported cs := by
          obtain ⟨d', -, -, hd'⟩ := mem_reported.mp (ih.mp hd)
          have hne : d ≠ "" := hd' ▸ shownEntry_ne
          rw [shownEntry, if_neg hne]
          exact ih.mp hd
        rw [if_neg fun h => h.2 hd, if_neg fun h => h.2 hshown]
        exact ih
      · rw [if_pos ⟨hbad, hd⟩, List.mem_append, List.mem_singleton, ih]
        split
        case isTrue => rw [List.mem_append, List.mem_singleton]
        case isFalse h =>
          have hshown : shownEntry d ∈ reported cs := by
            by_contra hnot
            exact h ⟨hbad, hnot⟩
          constructor
          · rintro (hc | rfl)
            · exact hc
            · exact hshown
          · exact Or.inl
    · rw [if_neg fun h => hbad h.1, if_neg fun h => hbad h.1]
      exact ih

/-- What is reported like an empty component. -/
theorem mem_reported_label : emptyLabel ∈ reported cs ↔ "" ∈ cs ∨ emptyLabel ∈ cs := by
  rw [mem_reported]
  constructor
  · rintro ⟨c, hc, -, hshown⟩
    rw [shownEntry] at hshown
    split at hshown
    case isTrue hempty => exact Or.inl (hempty ▸ hc)
    case isFalse => exact Or.inr (hshown ▸ hc)
  · rintro (hc | hc)
    · exact ⟨"", hc, isBadEntry_empty, rfl⟩
    · exact ⟨emptyLabel, hc, isBadEntry_label, rfl⟩

theorem emptyOnce_concat : EmptyOnce (cs ++ [c]) ↔ EmptyOnce cs ∧ (c = "" → emptyLabel ∉ reported cs) := by
  rw [mem_reported_label, not_or]
  constructor
  · intro h
    constructor
    · intro before after hcs
      exact h before (after ++ [c]) (by rw [hcs, List.append_assoc, List.cons_append])
    · rintro rfl
      exact h cs [] rfl
  · rintro ⟨h, hc⟩ before after hcs
    rcases List.eq_nil_or_concat after with rfl | ⟨after, d, rfl⟩
    · obtain ⟨rfl, hlast⟩ := List.append_inj' hcs rfl
      exact hc (List.singleton_inj.mp hlast)
    · rw [List.concat_eq_append, ← List.cons_append, ← List.append_assoc] at hcs
      exact h before after (List.append_inj' hcs rfl).1

/-- The loop pushes nothing twice exactly when no empty component comes after one that is reported like it, and then it
pushes what is to be reported. -/
theorem pushed_nodup_iff : (pushed cs).Nodup ↔ EmptyOnce cs := by
  induction cs using List.reverseRecOn with
  | nil => exact ⟨fun _ before after h => absurd h (by simp), fun _ => List.nodup_nil⟩
  | append_singleton cs c ih =>
    have hconcat := List.nodup_concat (pushed cs) (shownEntry c)
    rw [List.concat_eq_append] at hconcat
    rw [pushed_concat, emptyOnce_concat, ← ih, pushEntry]
    by_cases hempty : c = ""
    · have hfresh : c ∉ pushed cs := by
        rw [mem_pushed, mem_reported]
        rintro ⟨c', -, -, hshown⟩
        exact shownEntry_ne (hshown.trans hempty)
      rw [if_pos ⟨hempty ▸ isBadEntry_empty, hfresh⟩, hconcat, mem_pushed, hempty]
      exact ⟨fun h => ⟨h.2, fun _ => h.1⟩, fun h => ⟨h.2 rfl, h.1⟩⟩
    · split
      case isTrue h =>
        have hshown : shownEntry c ∉ pushed cs := by
          rw [shownEntry, if_neg hempty]
          exact h.2
        rw [hconcat]
        exact ⟨fun h => ⟨h.2, fun hc => absurd hc hempty⟩, fun h => ⟨hshown, h.1⟩⟩
      case isFalse => exact ⟨fun h => ⟨h, fun hc => absurd hc hempty⟩, fun h => h.1⟩

theorem pushed_eq_reported (h : EmptyOnce cs) : pushed cs = reported cs := by
  induction cs using List.reverseRecOn with
  | nil => rfl
  | append_singleton cs c ih =>
    obtain ⟨hcs, hc⟩ := emptyOnce_concat.mp h
    rw [pushed_concat, reported_concat, pushEntry, ih hcs]
    by_cases hempty : c = ""
    · have hfresh : c ∉ reported cs := by
        rw [mem_reported]
        rintro ⟨c', -, -, hshown⟩
        exact shownEntry_ne (hshown.trans hempty)
      have hlabel : shownEntry c ∉ reported cs := by
        rw [shownEntry, if_pos hempty]
        exact hc hempty
      rw [if_pos ⟨hempty ▸ isBadEntry_empty, hfresh⟩, if_pos ⟨hempty ▸ isBadEntry_empty, hlabel⟩]
    · rw [shownEntry, if_neg hempty]

/-- What is pushed of some components is what is to be reported of others. -/
theorem pushed_eq_reported_iff {others : List String} :
    pushed cs = reported others ↔ EmptyOnce cs ∧ reported cs = reported others := by
  constructor
  · intro h
    have honce : EmptyOnce cs := by
      rw [← pushed_nodup_iff, h, reported]
      exact eraseDups_nodup _
    exact ⟨honce, (pushed_eq_reported honce).symm.trans h⟩
  · rintro ⟨honce, h⟩
    exact (pushed_eq_reported honce).trans h

end

/-! ### Where the strings stand -/

section

variable {data bytes : Bytes} {cut : Bytes → Bytes} {strsz base p addr : UInt64} {acc acc' : List String} {offset : ℕ}
  {loads : List Load} {load : Load} {table : DynamicTable} {entries : List Dyn}

/-- The values of the entries with these tags, before the entry that ends the table. -/
def valuesOf (tags : List Int64) (entries : List Dyn) : List UInt64 :=
  ((entries.takeWhile (·.dTag ≠ dtNull)).filter (·.dTag ∈ tags)).map (·.dVal)

/-- The table of dynamic entries: of its address and of its size the last value counts, of the run paths every one. -/
def tableOf (entries : List Dyn) : DynamicTable where
  strtab := (valuesOf [dtStrtab] entries).getLast?
  strsz := (valuesOf [dtStrsz] entries).getLast?.getD 0
  paths := valuesOf [dtRpath, dtRunpath] entries

/-- The loop reads the table. -/
theorem readDynamic_eq (entries : List Dyn) : readDynamic entries = tableOf entries := by
  rw [readDynamic, tableOf, valuesOf, valuesOf, valuesOf]
  generalize entries.takeWhile (·.dTag ≠ dtNull) = used
  induction used using List.reverseRecOn with
  | nil => rfl
  | append_singleton used d ih =>
    rw [List.foldl_append, ih, List.foldl_cons, List.foldl_nil, DynamicTable.entry]
    simp only [List.filter_append, List.map_append]
    by_cases htab : d.dTag = dtStrtab
    · have hsz : dtStrtab ≠ dtStrsz := by decide
      have hpath : dtStrtab ≠ dtRpath ∧ dtStrtab ≠ dtRunpath := by decide
      simp [htab, hsz, hpath]
    · by_cases hsz : d.dTag = dtStrsz
      · have hpath : dtStrsz ≠ dtRpath ∧ dtStrsz ≠ dtRunpath := by decide
        have htab' : dtStrsz ≠ dtStrtab := by decide
        simp [hsz, hpath, htab']
      · by_cases hpath : d.dTag = dtRpath ∨ d.dTag = dtRunpath
        · simp [htab, hsz, hpath]
        · simp [htab, hsz, hpath]

/-- The components of the string at a place of the file, of which a part may be cut off. -/
def componentsAt (cut : Bytes → Bytes) (data : Bytes) (offset : ℕ) : List String :=
  if offset ≤ data.length then
    splitColon (SystemCheck.toStringLossy (cut ((data.drop offset).takeWhile (· ≠ 0))))
  else []

/-- Where a string of the table stands in the file. -/
def Load.fileOffset (load : Load) (addr p : UInt64) : ℕ := load.offset.toNat + (addr.toNat - load.vaddr.toNat) + p.toNat

/-- The segment that holds the string table. -/
def DynamicTable.segment (table : DynamicTable) (loads : List Load) : Option (UInt64 × Load) := do
  let addr ← table.strtab
  let load ← loads.find? (·.Maps addr)
  some (addr, load)

/-- The run paths that lie in the string table. -/
def DynamicTable.strings (table : DynamicTable) : List UInt64 := table.paths.filter (· < table.strsz)

def DynamicTable.components (table : DynamicTable) (loads : List Load) (cut : Bytes → Bytes) (data : Bytes) :
    Option (List String) :=
  (table.segment loads).map fun s => table.strings.flatMap fun p => componentsAt cut data (s.2.fileOffset s.1 p)

/-- The slice of a string ends within the file. -/
theorem pushString_eq : pushString data acc offset = .ok ((componentsAt (·.take maxPathBytes) data offset).foldl pushEntry acc) := by
  have hslice : ∀ bytes : Bytes, sliceTo bytes (min (bytes.findIdx (· = 0)) maxPathBytes) =
      .ok ((bytes.takeWhile (· ≠ 0)).take maxPathBytes) := by
    intro bytes
    have hle : min (bytes.findIdx (· = 0)) maxPathBytes ≤ bytes.length :=
      (Nat.min_le_left _ _).trans List.findIdx_le_length
    have htake : bytes.takeWhile (· ≠ 0) = bytes.take (bytes.findIdx (· = 0)) := by
      rw [List.takeWhile_eq_take_findIdx_not]
      simp
    rw [sliceTo, if_pos hle, htake, List.take_take, Nat.min_comm]
  rw [pushString, getFrom, componentsAt]
  by_cases hle : offset ≤ data.length
  · simp only [if_pos hle, hslice, except_ok_bind]
  · simp only [if_neg hle, List.foldl_nil]

/-- A run path within the limits: its string may be cut, and no sum may overflow. -/
theorem runPath_eq_ok : runPath data strsz base acc p = .ok acc' ↔
    (p < strsz → base.toNat + p.toNat < 2 ^ 64) ∧
      acc' = if p < strsz then (componentsAt (·.take maxPathBytes) data (base.toNat + p.toNat)).foldl pushEntry acc
        else acc := by
  rw [runPath]
  split
  case isTrue hle =>
    rw [if_neg (by rwa [UInt64.not_lt]), Except.ok.injEq]
    exact ⟨fun h => ⟨fun hlt => absurd hle (UInt64.not_le.mpr hlt), h.symm⟩, fun h => h.2.symm⟩
  case isFalse hlt =>
    rw [UInt64.not_le] at hlt
    simp only [if_pos hlt, except_bind_eq_ok, pushString_eq, checkedAdd_eq_ok, Except.ok.injEq]
    constructor
    · rintro ⟨s, ⟨hsum, hs⟩, rfl⟩
      rw [hs]
      exact ⟨fun _ => hsum, rfl⟩
    · rintro ⟨hsum, rfl⟩
      have hs : (base + p).toNat = base.toNat + p.toNat := by
        rw [UInt64.toNat_add, Nat.mod_eq_of_lt (hsum hlt)]
      exact ⟨base + p, ⟨hsum hlt, hs⟩, by rw [hs]⟩

/-- A loop whose turns fail on some items only, whatever came before. -/
theorem checkEach_eq_ok_foldl {ε α β : Type} {check : β → α → Except ε β} {good : α → Prop} {push : β → α → β}
    (hcheck : ∀ acc a acc', check acc a = .ok acc' ↔ good a ∧ acc' = push acc a) {as : List α} {acc acc' : β} :
    checkEach check acc as = .ok acc' ↔ (∀ a ∈ as, good a) ∧ acc' = as.foldl push acc := by
  induction as generalizing acc with
  | nil =>
    rw [checkEach, Except.ok.injEq]
    exact ⟨fun h => ⟨by simp, h.symm⟩, fun h => h.2.symm⟩
  | cons a as ih =>
    rw [checkEach_cons_eq_ok, List.forall_mem_cons, List.foldl_cons]
    constructor
    · rintro ⟨next, hnext, hrest⟩
      obtain ⟨ha, rfl⟩ := (hcheck _ _ _).mp hnext
      obtain ⟨hall, hacc⟩ := ih.mp hrest
      exact ⟨⟨ha, hall⟩, hacc⟩
    · rintro ⟨⟨ha, hall⟩, hacc⟩
      exact ⟨_, (hcheck _ _ _).mpr ⟨ha, rfl⟩, ih.mpr ⟨hall, hacc⟩⟩

/-- The places of the string table and of its run paths are 64-bit numbers. -/
def DynamicTable.InRange (table : DynamicTable) (loads : List Load) : Prop :=
  ∀ s ∈ table.segment loads, s.2.fileOffset s.1 0 < 2 ^ 64 ∧ ∀ p ∈ table.strings, s.2.fileOffset s.1 p < 2 ^ 64

/-- The table as it is searched for: not at the last address of all. -/
def DynamicTable.searched (table : DynamicTable) : DynamicTable :=
  { table with strtab := table.strtab.filter (·.toNat < 2 ^ 64 - 1) }

theorem foldl_strings {f : UInt64 → List String} (paths : List UInt64) (acc : List String) :
    paths.foldl (fun acc p => if p < strsz then (f p).foldl pushEntry acc else acc) acc =
      ((paths.filter (· < strsz)).flatMap f).foldl pushEntry acc := by
  induction paths generalizing acc with
  | nil => rfl
  | cons p paths ih =>
    rw [List.foldl_cons, ih, List.filter_cons]
    by_cases hp : p < strsz
    · rw [if_pos hp, if_pos (decide_eq_true hp), List.flatMap_cons, List.foldl_append]
    · rw [if_neg hp, if_neg (by simpa using hp)]

theorem find_maps (haddr : addr.toNat < 2 ^ 64 - 1) : loads.find? (·.maps addr) = loads.find? (·.Maps addr) := by
  congr 1
  funext load
  rw [Bool.eq_iff_iff, maps_iff, decide_eq_true_eq]
  exact and_iff_left haddr

theorem find_maps_last (haddr : ¬ addr.toNat < 2 ^ 64 - 1) : loads.find? (·.maps addr) = none := by
  rw [List.find?_eq_none]
  intro load _ hmaps
  exact haddr (maps_iff.mp hmaps).2

/-- The run paths are read where no place is out of range, and what is pushed comes from the components within the
limits. -/
theorem runPaths_eq_ok : runPaths loads data entries = .ok acc ↔
    (tableOf (entries.take maxEntries)).searched.InRange loads ∧
      acc = pushed (((tableOf (entries.take maxEntries)).searched.components loads (·.take maxPathBytes) data).getD []) := by
  rw [runPaths, readDynamic_eq]
  generalize tableOf (entries.take maxEntries) = table
  -- without a string table in a segment there is no run path
  have hnone : table.searched.segment loads = none → ((Except.ok [] : Except Panic (List String)) = .ok acc ↔
      table.searched.InRange loads ∧
        acc = pushed ((table.searched.components loads (·.take maxPathBytes) data).getD [])) := by
    intro hsegment
    rw [DynamicTable.InRange, DynamicTable.components, hsegment, Except.ok.injEq]
    exact ⟨fun h => ⟨by simp, h.symm⟩, fun h => h.2.symm⟩
  cases hstrtab : table.strtab with
  | none => exact hnone (by simp [DynamicTable.segment, DynamicTable.searched, hstrtab])
  | some addr =>
    -- the last address is in no segment: its end would be past the address space
    by_cases haddr : addr.toNat < 2 ^ 64 - 1
    · have hsearched : table.searched.strtab = some addr := by
        rw [DynamicTable.searched, hstrtab, Option.filter_some, if_pos (decide_eq_true haddr)]
      simp only [find_maps haddr]
      cases hfind : loads.find? (·.Maps addr) with
      | none => exact hnone (by simp [DynamicTable.segment, hsearched, hfind])
      | some load =>
        have hsegment : table.searched.segment loads = some (addr, load) := by
          simp [DynamicTable.segment, hsearched, hfind]
        have hfound := List.find?_some hfind
        have hmaps : load.Maps addr := of_decide_eq_true hfound
        -- the loop over the entries, from the table's place in the file
        have hloop : ∀ base : UInt64, base.toNat = load.fileOffset addr 0 →
            (checkEach (runPath data table.strsz base) [] table.paths = .ok acc ↔
              (∀ p ∈ table.strings, load.fileOffset addr p < 2 ^ 64) ∧
                acc = pushed (table.strings.flatMap fun p =>
                  componentsAt (·.take maxPathBytes) data (load.fileOffset addr p))) := by
          intro base hbase
          have hplace : ∀ p : UInt64, base.toNat + p.toNat = load.fileOffset addr p := by
            intro p
            rw [hbase, Load.fileOffset, Load.fileOffset]
            rfl
          have hstep : ∀ acc p acc', runPath data table.strsz base acc p = .ok acc' ↔
              (p < table.strsz → load.fileOffset addr p < 2 ^ 64) ∧ acc' = if p < table.strsz then
                (componentsAt (·.take maxPathBytes) data (load.fileOffset addr p)).foldl pushEntry acc else acc := by
            intro acc p acc'
            rw [runPath_eq_ok, hplace]
          rw [checkEach_eq_ok_foldl hstep, foldl_strings]
          simp only [DynamicTable.strings, List.mem_filter, decide_eq_true_eq, and_imp, pushed]
        rw [DynamicTable.InRange, DynamicTable.components, hsegment]
        simp only [except_bind_eq_ok, checkedSub_eq_ok, checkedAdd_eq_ok, Option.mem_some_iff, forall_eq',
          Option.map_some, Option.getD_some]
        -- the checked subtraction and addition are the place's being in range
        constructor
        · rintro ⟨diff, ⟨-, hdiff⟩, base, ⟨hlt, hbase⟩, hrest⟩
          have hbase' : base.toNat = load.fileOffset addr 0 := by
            rw [hbase, hdiff, Load.fileOffset]
            rfl
          obtain ⟨hall, hacc⟩ := (hloop base hbase').mp hrest
          exact ⟨⟨by rw [← hbase']; exact base.toNat_lt, hall⟩, hacc⟩
        · rintro ⟨⟨hlt, hall⟩, hacc⟩
          have hdiff := UInt64.toNat_sub_of_le addr load.vaddr (UInt64.le_iff_toNat_le.mpr hmaps.1)
          have hlt' : load.offset.toNat + (addr - load.vaddr).toNat < 2 ^ 64 := by
            rw [hdiff]
            exact hlt
          have hbase : (load.offset + (addr - load.vaddr)).toNat = load.offset.toNat + (addr - load.vaddr).toNat := by
            rw [UInt64.toNat_add, Nat.mod_eq_of_lt hlt']
          refine ⟨addr - load.vaddr, ⟨hmaps.1, hdiff⟩, _, ⟨hlt', hbase⟩, (hloop _ ?_).mpr ⟨hall, hacc⟩⟩
          rw [hbase, hdiff, Load.fileOffset]
          rfl
    · simp only [find_maps_last haddr]
      have hsearched : table.searched.strtab = none := by
        rw [DynamicTable.searched, hstrtab, Option.filter_some, if_neg (by rwa [decide_eq_true_eq])]
      exact hnone (by simp [DynamicTable.segment, hsearched])

end

/-! ### The whole analysis -/

section

variable {st : Segments} {ph : ProgramHeader} {phs : List ProgramHeader} {header : FileHeader} {data : Bytes}
  {entries : List Dyn} {facts : ElfFacts}

/-- The load segments, in the order of their headers. -/
def FileHeader.loads (header : FileHeader) : List Load :=
  (header.programHeaders.filter (·.pType = ptLoad)).map ProgramHeader.load

/-- The dynamic entries that the last dynamic segment leads to. -/
def FileHeader.dynamic (header : FileHeader) : Option (List Dyn) :=
  (header.programHeaders.filter (·.pType = ptDynamic)).getLast?.bind (·.dynamic)

theorem segment_loads : (segment st ph).loads = st.loads ++ (if ph.pType = ptLoad then [ph.load] else []) := by
  rw [segment]
  repeat' split
  all_goals simp_all

theorem segment_dynamic : (segment st ph).dynamic = if ph.pType = ptDynamic then ph.dynamic else st.dynamic := by
  rw [segment]
  split
  case isTrue hload =>
    have hne : ph.pType ≠ ptDynamic := hload ▸ by decide
    rw [if_neg hne]
  split
  case isTrue hstack => rw [hstack, if_neg (by decide)]
  split
  case isTrue hinterp =>
    rw [hinterp, if_neg (by decide)]
    cases ph.interpreter <;> rfl
  split
  case isTrue => rfl
  case isFalse => rfl

theorem foldl_segment_loads : (phs.foldl segment st).loads =
    st.loads ++ (phs.filter (·.pType = ptLoad)).map ProgramHeader.load := by
  induction phs generalizing st with
  | nil => simp
  | cons ph phs ih =>
    rw [List.foldl_cons, ih, segment_loads, List.filter_cons, List.append_assoc]
    by_cases hload : ph.pType = ptLoad
    · simp [hload]
    · simp [hload]

theorem foldl_segment_dynamic : (phs.foldl segment .none).dynamic =
    (phs.filter (·.pType = ptDynamic)).getLast?.bind (·.dynamic) := by
  induction phs using List.reverseRecOn with
  | nil => rfl
  | append_singleton phs ph ih =>
    rw [List.foldl_append, List.foldl_cons, List.foldl_nil, segment_dynamic, ih, List.filter_append]
    by_cases hdynamic : ph.pType = ptDynamic
    · simp [hdynamic]
    · simp [hdynamic]

/-- Every component of the run paths that stand in the file, where a segment holds the string table. -/
def FileHeader.components (header : FileHeader) (data : Bytes) : Option (List String) :=
  header.dynamic.bind fun entries => (tableOf entries).components header.loads id data

/-- The table that is searched for: of the first entries, and not at the last address of all. -/
def FileHeader.searched (header : FileHeader) : Option DynamicTable :=
  header.dynamic.map fun entries => (tableOf (entries.take maxEntries)).searched

/-- The components within the limits: of the table that is searched for, from the start of each string. -/
def FileHeader.withinLimits (header : FileHeader) (data : Bytes) : List String :=
  (header.searched.bind fun table => table.components header.loads (·.take maxPathBytes) data).getD []

theorem dynamicRunPaths_eq_ok {acc : List String} : dynamicRunPaths header.loads data header.dynamic = .ok acc ↔
    (∀ table ∈ header.searched, table.InRange header.loads) ∧ acc = pushed (header.withinLimits data) := by
  unfold dynamicRunPaths FileHeader.withinLimits FileHeader.searched
  cases header.dynamic with
  | none =>
    rw [Except.ok.injEq]
    exact ⟨fun h => ⟨by simp, h.symm⟩, fun h => h.2.symm⟩
  | some entries => simp only [runPaths_eq_ok, Option.map_some, Option.mem_some_iff, forall_eq', Option.bind_some]

/-- The run paths are what can stop the analysis. -/
theorem analyzeAs_eq_ok : analyzeAs header data = .ok facts →
    (∀ table ∈ header.searched, table.InRange header.loads) ∧ facts.unsafeRpath = pushed (header.withinLimits data) := by
  have hloads : (header.programHeaders.foldl segment .none).loads = header.loads := foldl_segment_loads
  have hdynamic : (header.programHeaders.foldl segment .none).dynamic = header.dynamic := foldl_segment_dynamic
  intro h
  simp only [analyzeAs, hloads, hdynamic, except_bind_eq_ok, dynamicRunPaths_eq_ok] at h
  obtain ⟨acc, ⟨hrange, hacc⟩, hfacts⟩ := h
  obtain rfl := Except.ok.inj hfacts
  exact ⟨hrange, hacc⟩

theorem exists_analyzeAs (h : ∀ table ∈ header.searched, table.InRange header.loads) :
    ∃ facts, analyzeAs header data = .ok facts := by
  have hloads : (header.programHeaders.foldl segment .none).loads = header.loads := foldl_segment_loads
  have hdynamic : (header.programHeaders.foldl segment .none).dynamic = header.dynamic := foldl_segment_dynamic
  simp only [analyzeAs, hloads, hdynamic, except_bind_eq_ok, dynamicRunPaths_eq_ok]
  exact ⟨_, _, ⟨h, rfl⟩, rfl⟩

/-- The analysis comes to an end, and where a segment holds the string table, it reports each unsafe component of the run
paths that stand in the file once, in the order in which they first appear. -/
def FileHeader.Analyzed (header : FileHeader) (data : Bytes) : Prop :=
  ∃ facts, analyzeAs header data = .ok facts ∧
    ∀ cs, header.components data = some cs → facts.unsafeRpath = reported cs

/-- The places that are computed are 64-bit numbers; and where a segment holds the string table, no empty component comes
after another or after one spelled like its label, and what lies beyond the limits has nothing new to report. -/
structure FileHeader.Ordinary (header : FileHeader) (data : Bytes) : Prop where
  inRange : ∀ table ∈ header.searched, table.InRange header.loads
  once : ∀ cs, header.components data = some cs → EmptyOnce (header.withinLimits data)
  nothingBeyond : ∀ cs, header.components data = some cs → reported (header.withinLimits data) = reported cs

/-- The run paths of a file are reported safely and exactly when the file is ordinary. -/
theorem run_paths_exact_iff (header : FileHeader) (data : Bytes) : header.Analyzed data ↔ header.Ordinary data := by
  constructor
  · rintro ⟨facts, hfacts, hexact⟩
    obtain ⟨hrange, hrpath⟩ := analyzeAs_eq_ok hfacts
    have hpushed : ∀ cs, header.components data = some cs →
        EmptyOnce (header.withinLimits data) ∧ reported (header.withinLimits data) = reported cs := by
      intro cs hcs
      rw [← pushed_eq_reported_iff, ← hrpath]
      exact hexact cs hcs
    exact ⟨hrange, fun cs hcs => (hpushed cs hcs).1, fun cs hcs => (hpushed cs hcs).2⟩
  · intro h
    obtain ⟨facts, hfacts⟩ := exists_analyzeAs h.inRange
    refine ⟨facts, hfacts, fun cs hcs => ?_⟩
    rw [(analyzeAs_eq_ok hfacts).2]
    exact pushed_eq_reported_iff.mpr ⟨h.once cs hcs, h.nothingBeyond cs hcs⟩

/-- Nothing is cut off a file of short tables and short strings. -/
theorem withinLimits_eq (hentries : ∀ entries ∈ header.dynamic, entries.length ≤ maxEntries ∧
      ∀ addr ∈ (tableOf entries).strtab, addr.toNat < 2 ^ 64 - 1)
    (hstrings : ∀ offset, ((data.drop offset).takeWhile (· ≠ 0)).length ≤ maxPathBytes) {cs : List String}
    (h : header.components data = some cs) : header.withinLimits data = cs := by
  -- strings within the limit are read whole
  have hcut : ∀ offset, componentsAt (·.take maxPathBytes) data offset = componentsAt id data offset := by
    intro offset
    rw [componentsAt, componentsAt, List.take_of_length_le (hstrings offset), id_eq]
  rw [FileHeader.components] at h
  rw [FileHeader.withinLimits, FileHeader.searched]
  cases hdynamic : header.dynamic with
  | none =>
    rw [hdynamic] at h
    cases h
  | some entries =>
    obtain ⟨hlength, haddr⟩ := hentries entries hdynamic
    have hsearched : (tableOf entries).searched = tableOf entries := by
      have hstrtab : (tableOf entries).strtab.filter (·.toNat < 2 ^ 64 - 1) = (tableOf entries).strtab := by
        cases hstrtab : (tableOf entries).strtab with
        | none => rfl
        | some addr => rw [Option.filter_some, if_pos (decide_eq_true (haddr addr hstrtab))]
      rw [DynamicTable.searched, hstrtab]
    rw [hdynamic, Option.bind_some] at h
    rw [Option.map_some, Option.bind_some, List.take_of_length_le hlength, hsearched]
    simp only [DynamicTable.components, hcut] at h ⊢
    rw [h, Option.getD_some]

/-- A program whose run path is a colon: two empty components. -/
def colonHeader : FileHeader where
  eType := etDyn
  eEntry := 0
  eShnum := 0
  eShoff := 0
  programHeaders :=
    [⟨ptLoad, 4, 0x1000, 2, 0, 2, none, none⟩,
      ⟨ptDynamic, 4, 0, 0, 0, 0, none, some [⟨dtStrtab, 0x1000⟩, ⟨dtStrsz, 2⟩, ⟨dtRunpath, 0⟩, ⟨dtNull, 0⟩]⟩]

/-- A program whose string table is said to lie at the end of all that a file could hold. -/
def farHeader : FileHeader where
  eType := etDyn
  eEntry := 0
  eShnum := 0
  eShoff := 0
  programHeaders :=
    [⟨ptLoad, 4, 0x1000, 2, 0xFFFFFFFFFFFFFFFF, 2, none, none⟩,
      ⟨ptDynamic, 4, 0, 0, 0, 0, none, some [⟨dtStrtab, 0x1001⟩, ⟨dtNull, 0⟩]⟩]

/-- An empty component is reported each time it appears, and a segment may lie where a sum overflows. -/
theorem run_paths_not_exact : ¬ colonHeader.Analyzed [0x3A, 0] ∧ analyzeAs farHeader [] = .error .overflow := by
  constructor
  · rintro ⟨facts, hfacts, hexact⟩
    have hrun : (analyzeAs colonHeader [0x3A, 0]).toOption.map (·.unsafeRpath) = some [emptyLabel, emptyLabel] := by
      decide
    have hcomponents : colonHeader.components [0x3A, 0] = some ["", ""] := by decide
    rw [hfacts] at hrun
    have hreported : facts.unsafeRpath = reported ["", ""] := hexact _ hcomponents
    have htwice : facts.unsafeRpath = [emptyLabel, emptyLabel] := Option.some.inj hrun
    rw [htwice] at hreported
    revert hreported
    decide
  · decide

end

end AbyssalWarden.Elf

import AbyssalWarden.DirectoryListing

/-! A persistence check that says it completed has seen every file of a directory, except where a name is no text, the
cap drops it, or an error passes for a missing file. -/
namespace AbyssalWarden.SystemCheck

variable {root : Root} {dir path : NativePath} {entries entries' : List RawEntry} {s s' : Checking} {out : List Entry}
  {e : RawEntry} {node : Node} {name : String} {m : Meta}

/-! ### The listing -/

theorem toStringLossy_utf8Bytes (name : String) : toStringLossy (utf8Bytes name) = name := by
  rw [toStringLossy, Json.fromUtf8_utf8Bytes]
  rfl

theorem toStringLossy_of_text (h : fromUtf8 e.name = some name) :
    toStringLossy e.name = name ∧ utf8Bytes name = e.name := by
  refine ⟨?_, utf8Bytes_of_fromUtf8 h⟩
  rw [toStringLossy, h]
  rfl

/-- The loop keeps the first entries that are not dots. -/
theorem listEntries_eq (h : out.length < maxDirEntries) : Root.listEntries entries out =
    out ++ ((visible entries).map fun e => ⟨toStringLossy e.name, e.kind⟩).take (maxDirEntries - out.length) := by
  induction entries generalizing out with
  | nil => simp [Root.listEntries, visible]
  | cons e entries ih =>
    by_cases hdot : toStringLossy e.name = "." ∨ toStringLossy e.name = ".."
    · have hvisible : visible (e :: entries) = visible entries :=
        List.filter_cons_of_neg (by rw [decide_eq_true_eq, not_not]; exact hdot)
      rw [Root.listEntries, if_pos hdot, hvisible]
      exact ih h
    · have hvisible : visible (e :: entries) = e :: visible entries :=
        List.filter_cons_of_pos (decide_eq_true hdot)
      have hroom : maxDirEntries - out.length = maxDirEntries - (out.length + 1) + 1 := by omega
      rw [Root.listEntries, if_neg hdot, hvisible, List.map_cons, hroom, List.take_succ_cons]
      by_cases hfull : (out ++ [(⟨toStringLossy e.name, e.kind⟩ : Entry)]).length ≥ maxDirEntries
      · rw [if_pos hfull]
        rw [List.length_append, List.length_singleton] at hfull
        have hzero : maxDirEntries - (out.length + 1) = 0 := by omega
        rw [hzero, List.take_zero]
      · rw [if_neg hfull, ih (Nat.lt_of_not_ge hfull), List.length_append, List.length_singleton, List.append_assoc,
          List.singleton_append]

theorem mem_readDir {entries : List RawEntry} {listed : List Entry} (hlisting : root.listing dir = .ok entries)
    (h : root.readDir dir = .ok listed) {x : Entry} : x ∈ listed ↔
      ∃ e ∈ (visible entries).take maxDirEntries, x = ⟨toStringLossy e.name, e.kind⟩ := by
  rw [Root.readDir, hlisting, except_ok_bind, Except.ok.injEq] at h
  have hroom : ([] : List Entry).length < maxDirEntries := by decide
  rw [← h, (stableSort_perm _ _).mem_iff, listEntries_eq hroom, List.nil_append, List.length_nil, Nat.sub_zero,
    ← List.map_take, List.mem_map]
  simp only [eq_comm]

theorem readDir_total (hlisting : root.listing dir = .ok entries) : ∃ listed, root.readDir dir = .ok listed := by
  rw [Root.readDir, hlisting]
  exact ⟨_, rfl⟩

/-! ### The files -/

theorem mem_statEntries {listed : List Entry} {x : NativePath × Meta} : x ∈ (statEntries root dir listed s).1 ↔
    ∃ e ∈ listed, e.kind ≠ .dir ∧ x.1 = dir.join (utf8Bytes e.name) ∧ root.stat x.1 = .ok x.2 ∧ x.2.kind = .file := by
  -- an issue of one entry does not keep the others from being listed
  induction listed generalizing s with
  | nil => simp [statEntries]
  | cons e listed ih =>
    by_cases hdir : e.kind = .dir
    · rw [statEntries, if_pos hdir, ih]
      simp [hdir]
    · simp only [statEntries, if_neg hdir]
      cases hstat : root.stat (dir.join (utf8Bytes e.name)) with
      | error err =>
        dsimp only
        rw [ih]
        constructor
        · rintro ⟨e', he', hrest⟩
          exact ⟨e', List.mem_cons_of_mem _ he', hrest⟩
        · rintro ⟨e', he', hkind, hpath, hok, hfile⟩
          rcases List.mem_cons.mp he' with rfl | he'
          · rw [hpath, hstat] at hok
            cases hok
          · exact ⟨e', he', hkind, hpath, hok, hfile⟩
      | ok m =>
        dsimp only
        by_cases hfile : m.kind = .file
        · rw [if_pos hfile, List.mem_cons, ih]
          constructor
          · rintro (rfl | ⟨e', he', hrest⟩)
            · exact ⟨e, List.mem_cons_self, hdir, rfl, hstat, hfile⟩
            · exact ⟨e', List.mem_cons_of_mem _ he', hrest⟩
          · rintro ⟨e', he', hkind, hpath, hok, hf⟩
            rcases List.mem_cons.mp he' with rfl | he'
            · left
              rw [hpath, hstat, Except.ok.injEq] at hok
              exact Prod.ext hpath hok.symm
            · exact Or.inr ⟨e', he', hkind, hpath, hok, hf⟩
        · rw [if_neg hfile, ih]
          constructor
          · rintro ⟨e', he', hrest⟩
            exact ⟨e', List.mem_cons_of_mem _ he', hrest⟩
          · rintro ⟨e', he', hkind, hpath, hok, hf⟩
            rcases List.mem_cons.mp he' with rfl | he'
            · rw [hpath, hstat, Except.ok.injEq] at hok
              exact absurd (hok ▸ hf) hfile
            · exact ⟨e', he', hkind, hpath, hok, hf⟩

/-- What is returned are the files that entries within the cap are seen as. -/
theorem mem_filesIn (hlisting : root.listing dir = .ok entries) : (path, m) ∈ (filesIn root dir s).1 ↔
    ∃ e ∈ (visible entries).take maxDirEntries, e.kind ≠ .dir ∧ path = dir.join (utf8Bytes (toStringLossy e.name)) ∧
      root.stat path = .ok m ∧ m.kind = .file := by
  obtain ⟨listed, hlisted⟩ := readDir_total hlisting
  rw [filesIn, hlisted]
  simp only [mem_statEntries, mem_readDir hlisting hlisted]
  constructor
  · rintro ⟨x, ⟨e, he, rfl⟩, hrest⟩
    exact ⟨e, he, hrest⟩
  · rintro ⟨e, he, hrest⟩
    exact ⟨_, ⟨e, he, rfl⟩, hrest⟩

theorem join_injective {a b : Bytes} (h : dir.join a = dir.join b) : a = b := by
  unfold NativePath.join at h
  by_cases hslash : dir.getLast? = some NativePath.slash
  · rw [if_pos hslash, if_pos hslash] at h
    exact List.append_cancel_left h
  · rw [if_neg hslash, if_neg hslash] at h
    exact List.append_cancel_left h

theorem utf8Bytes_injective {a b : String} (h : utf8Bytes a = utf8Bytes b) : a = b := by
  rw [← toStringLossy_utf8Bytes a, h, toStringLossy_utf8Bytes]

theorem visible_perm (h : entries'.Perm entries) : (visible entries').Perm (visible entries) := h.filter _

theorem seenAs_perm (h : entries'.Perm entries) : (seenAs name entries').Perm (seenAs name entries) := h.filter _

theorem mem_seenAs : e ∈ seenAs name entries ↔ e ∈ entries ∧ e.kind ≠ .dir ∧ toStringLossy e.name = name := by
  rw [seenAs, List.mem_filter, decide_eq_true_eq]

theorem Listed.mem_visible (h : Listed root dir entries) (he : e ∈ entries) (hfile : IsFile root dir e node) :
    e ∈ visible entries ∧ e.kind ≠ .dir := by
  have hkind : e.kind ≠ .dir := fun hdir => h.dirs e he hdir node hfile
  refine ⟨?_, hkind⟩
  by_contra hdot
  exact hkind (h.dots e he hdot)

/-- Where few entries are seen under other names, one that is seen under this name is within the cap. -/
theorem exists_seen {l : List RawEntry} (hmem : e ∈ seenAs name l)
    (h : l.length < maxDirEntries + (seenAs name l).length) : ∃ e' ∈ l.take maxDirEntries, e' ∈ seenAs name l := by
  by_contra hnone
  have hsplit : seenAs name l = seenAs name (l.take maxDirEntries) ++ seenAs name (l.drop maxDirEntries) := by
    rw [seenAs, seenAs, seenAs, ← List.filter_append, List.take_append_drop]
  have hfirst : seenAs name (l.take maxDirEntries) = [] := by
    apply List.eq_nil_iff_forall_not_mem.mpr
    intro e' he'
    obtain ⟨htake, hseen⟩ := mem_seenAs.mp he'
    exact hnone ⟨e', htake, mem_seenAs.mpr ⟨List.mem_of_mem_take htake, hseen⟩⟩
  rw [hfirst, List.nil_append] at hsplit
  have hlength : (seenAs name l).length ≤ (l.drop maxDirEntries).length := by
    rw [hsplit]
    exact List.length_filter_le _ _
  have hpos := List.length_pos_of_mem hmem
  rw [List.length_drop] at hlength
  omega

theorem Within.perm (h : Within root dir entries) (hperm : entries'.Perm entries) :
    Within (root.relisted dir entries') dir entries' := by
  intro e he node name hfile htext
  rw [(visible_perm hperm).length_eq, (seenAs_perm (visible_perm hperm)).length_eq]
  exact h e (hperm.mem_iff.mp he) node name hfile htext

theorem Listed.perm (h : Listed root dir entries) (hperm : entries'.Perm entries) :
    Listed (root.relisted dir entries') dir entries' := by
  constructor
  · exact if_pos rfl
  · intro e he
    exact h.dirs e (hperm.mem_iff.mp he)
  · intro e he hdot
    apply h.dots e (hperm.mem_iff.mp he)
    intro hvisible
    exact hdot ((visible_perm hperm).mem_iff.mpr hvisible)
  · intro e he node hfile
    obtain ⟨e', he', hname⟩ := h.found e (hperm.mem_iff.mp he) node hfile
    exact ⟨e', hperm.mem_iff.mpr he', hname⟩

/-- Then what is returned are all files that entries are seen as. -/
theorem mem_filesIn_of_within (h : Listed root dir entries) (hwithin : Within root dir entries) :
    (path, m) ∈ (filesIn root dir s).1 ↔
      ∃ e ∈ visible entries, e.kind ≠ .dir ∧ path = dir.join (utf8Bytes (toStringLossy e.name)) ∧
        root.stat path = .ok m ∧ m.kind = .file := by
  rw [mem_filesIn h.listing]
  constructor
  · rintro ⟨e, he, hrest⟩
    exact ⟨e, List.mem_of_mem_take he, hrest⟩
  · rintro ⟨e, he, hkind, rfl, hstat, hfile⟩
    obtain ⟨node, hnode, rfl⟩ := except_map_eq_ok.mp hstat
    have hmem : e ∈ entries := List.mem_of_mem_filter he
    -- the name that the entry is converted to is listed as well, and its file is the one returned
    obtain ⟨e', he', hname⟩ := h.found e hmem node ⟨hnode, hfile⟩
    have hfile' : IsFile root dir e' node := by
      rw [IsFile, hname]
      exact ⟨hnode, hfile⟩
    have htext : fromUtf8 e'.name = some (toStringLossy e.name) := by
      rw [hname, Json.fromUtf8_utf8Bytes]
    have hseen : e ∈ seenAs (toStringLossy e.name) (visible entries) := mem_seenAs.mpr ⟨he, hkind, rfl⟩
    obtain ⟨first, hfirst, hfirstSeen⟩ := exists_seen hseen (hwithin e' he' node _ hfile' htext)
    obtain ⟨-, hfirstKind, hfirstName⟩ := mem_seenAs.mp hfirstSeen
    refine ⟨first, hfirst, hfirstKind, ?_, hstat, hfile⟩
    rw [hfirstName]

/-! ### Reading -/

theorem fill_error {steps : List ReadStep} {space : ℕ} {err : IoError} (h : Root.fill space steps = .error err) :
    ReadStep.failed err ∈ steps := by
  induction steps generalizing space with
  | nil => simp [Root.fill] at h
  | cons step steps ih =>
    cases space with
    | zero => simp [Root.fill] at h
    | succ space =>
      cases step with
      | interrupted => exact List.mem_cons_of_mem _ (ih h)
      | failed e =>
        obtain rfl := Except.error.inj h
        exact List.mem_cons_self
      | data byte rest =>
        simp only [Root.fill] at h
        cases hrest : Root.fill (space + 1 - ((byte :: rest).take (space + 1)).length) steps with
        | error e =>
          rw [hrest] at h
          obtain rfl := Except.error.inj h
          exact List.mem_cons_of_mem _ (ih hrest)
        | ok buf =>
          rw [hrest] at h
          cases h

/-- A buffer that is not filled holds the whole file. -/
theorem fill_whole {steps : List ReadStep} {space : ℕ} {buf : Bytes} (h : Root.fill space steps = .ok buf)
    (hroom : buf.length < space) : buf = contentOf steps ∧ ∀ err, ReadStep.failed err ∉ steps := by
  induction steps generalizing space buf with
  | nil =>
    obtain rfl : [] = buf := by simpa [Root.fill] using h
    exact ⟨rfl, by simp⟩
  | cons step steps ih =>
    cases space with
    | zero => omega
    | succ space =>
      cases step with
      | interrupted =>
        obtain ⟨hbuf, hfailed⟩ := ih h hroom
        exact ⟨hbuf, by simpa using hfailed⟩
      | failed e => cases h
      | data byte rest =>
        simp only [Root.fill] at h
        obtain ⟨more, hmore, hresult⟩ := except_bind_eq_ok.mp h
        obtain rfl := Except.ok.inj hresult
        rw [List.length_append] at hroom
        -- the buffer is not full, so nothing of this piece was cut off
        have hall : (byte :: rest).take (space + 1) = byte :: rest := by
          apply List.take_of_length_le
          rw [List.length_take] at hroom
          omega
        rw [hall] at hmore hroom ⊢
        obtain ⟨hbuf, hfailed⟩ := ih hmore (by omega)
        refine ⟨?_, by simpa using hfailed⟩
        rw [hbuf, contentOf]

/-- A text that was not cut off is the whole file. -/
theorem readText_whole {t : Text} (h : root.readText path = .ok t) (hwhole : t.truncated = false) :
    ∃ node steps, root.resolve path = .ok node ∧ node.reads = .ok steps ∧ (∀ err, ReadStep.failed err ∉ steps) ∧
      t.text = toStringLossy (contentOf steps) ∧ t.info = node.info := by
  rw [Root.readText] at h
  obtain ⟨node, hnode, h⟩ := except_bind_eq_ok.mp h
  obtain ⟨steps, hsteps, h⟩ := except_bind_eq_ok.mp h
  by_cases hkind : node.info.kind ≠ .file
  · rw [if_pos hkind] at h
    cases h
  · rw [if_neg hkind] at h
    obtain ⟨buf, hbuf, h⟩ := except_bind_eq_ok.mp h
    obtain rfl := Except.ok.inj h
    have hroom : buf.length ≤ maxRead := by simpa using hwhole
    obtain ⟨hcontent, hfailed⟩ := fill_whole hbuf (Nat.lt_succ_of_le hroom)
    refine ⟨node, steps, hnode, hsteps, hfailed, ?_, rfl⟩
    rw [List.take_of_length_le hroom, hcontent]

/-- A file whose text cannot be read fails when it is opened or read. -/
theorem readText_error {err : IoError} (h : root.readText path = .error err) (hnode : root.resolve path = .ok node)
    (hfile : node.info.kind = .file) (hmissing : err.isMissing = true) : node.FailsAsMissing := by
  rw [Root.readText, hnode, except_ok_bind] at h
  cases hreads : node.reads with
  | error e =>
    rw [hreads] at h
    obtain rfl := Except.error.inj h
    exact Or.inl ⟨e, hreads, hmissing⟩
  | ok steps =>
    rw [hreads, except_ok_bind, if_neg (by simpa using hfile)] at h
    cases hfill : Root.fill (maxRead + 1) steps with
    | error e =>
      rw [hfill] at h
      obtain rfl := Except.error.inj h
      exact Or.inr ⟨steps, e, hreads, fill_error hfill, hmissing⟩
    | ok buf =>
      rw [hfill] at h
      cases h

theorem ioError_isPartial {err : IoError} (h : (s.ioError path err).run.isPartial = false) :
    err.isMissing = true ∧ s.run.isPartial = false := by
  rw [Checking.ioError] at h
  by_cases hmissing : err.isMissing = true
  · rw [if_pos hmissing] at h
    exact ⟨hmissing, h⟩
  · rw [if_neg hmissing] at h
    cases h

/-- A read that leaves a check complete gives the text of the whole file, or finds it missing. -/
theorem read_complete (h : (read root path s).2.run.isPartial = false) : s.run.isPartial = false ∧
    ((∃ t, root.readText path = .ok t ∧ t.truncated = false ∧ (read root path s).1 = some (t.text, t.info)) ∨
      ∃ err, root.readText path = .error err ∧ err.isMissing = true ∧ (read root path s).1 = none) := by
  unfold read at h ⊢
  cases htext : root.readText path with
  | error err =>
    rw [htext] at h
    obtain ⟨hmissing, hs⟩ := ioError_isPartial h
    exact ⟨hs, Or.inr ⟨err, rfl, hmissing, rfl⟩⟩
  | ok t =>
    rw [htext] at h
    cases htruncated : t.truncated with
    | true =>
      simp only [htruncated, if_true] at h
      cases h
    | false =>
      simp only [htruncated, Bool.false_eq_true, if_false] at h
      exact ⟨h, Or.inl ⟨t, rfl, htruncated, rfl⟩⟩

/-- So do all reads of a check. -/
theorem readAll_complete {paths : List NativePath} (h : (readAll root paths s).2.run.isPartial = false) :
    s.run.isPartial = false ∧ (readAll root paths s).1.map Prod.fst = paths ∧
      ∀ t ∈ (readAll root paths s).1,
        (∃ text, root.readText t.1 = .ok text ∧ text.truncated = false ∧ t.2 = some (text.text, text.info)) ∨
          ∃ err, root.readText t.1 = .error err ∧ err.isMissing = true ∧ t.2 = none := by
  induction paths generalizing s with
  | nil => exact ⟨h, rfl, by simp [readAll]⟩
  | cons path paths ih =>
    obtain ⟨hnext, hpaths, hall⟩ := ih h
    obtain ⟨hs, hread⟩ := read_complete hnext
    refine ⟨hs, congrArg (path :: ·) hpaths, ?_⟩
    intro t ht
    rcases List.mem_cons.mp ht with rfl | ht
    · exact hread
    · exact hall t ht

/-! ### What a completed check has seen -/

theorem finish_completed {run : Run} {id title : String} {cancelled : Bool}
    (h : (run.finish id title cancelled).status = .completed) : run.isPartial = false := by
  cases hpart : run.isPartial with
  | false => rfl
  | true =>
    rw [Run.finish] at h
    simp only [hpart, Bool.true_or, if_true] at h
    cases h

theorem Seeable.inspectedAll {paths : List NativePath} (h : Seeable root dir entries paths)
    (hlisted : Listed root dir entries) (hchosen : ∀ path ∈ paths, ∃ m, (path, m) ∈ (filesIn root dir s).1)
    (hcomplete : (readAll root paths s').2.run.isPartial = false) :
    InspectedAll root dir entries s (readAll root paths s').1 := by
  obtain ⟨-, hpaths, hall⟩ := readAll_complete hcomplete
  constructor
  -- a file that can be seen is among those that were visited
  · intro e he node steps hfile hreads
    obtain ⟨name, hname⟩ := Option.isSome_iff_exists.mp (h.text e he node steps hfile hreads)
    obtain ⟨hseen, hbytes⟩ := toStringLossy_of_text hname
    obtain ⟨hvisible, hkind⟩ := hlisted.mem_visible he hfile
    apply (mem_filesIn_of_within hlisted h.within).mpr
    refine ⟨e, hvisible, hkind, ?_, except_map_eq_ok.mpr ⟨node, hfile.1, rfl⟩, hfile.2⟩
    rw [hseen, hbytes]
  -- what was returned is a file that was chosen, with its whole text
  · intro t ht
    have hmem : t.1 ∈ paths := by
      rw [← hpaths]
      exact List.mem_map_of_mem ht
    rcases hall t ht with ⟨text, htext, hwhole, hresult⟩ | ⟨err, herr, hmissing, -⟩
    · obtain ⟨node, steps, hnode, hsteps, -, hcontent, hinfo⟩ := readText_whole htext hwhole
      refine ⟨node, steps, hnode, hsteps, ?_⟩
      rw [hresult, hcontent, hinfo]
    · -- a file that was returned does not go missing when it is read
      obtain ⟨m, hm⟩ := hchosen t.1 hmem
      obtain ⟨-, -, -, -, hstat, hfile⟩ := (mem_filesIn hlisted.listing).mp hm
      obtain ⟨node, hnode, rfl⟩ := except_map_eq_ok.mp hstat
      exact absurd (readText_error herr hnode hfile hmissing) (h.present t.1 hmem node hnode)
  -- the names are sorted, so their order in the directory does not matter
  · intro entries' hperm x
    obtain ⟨path, m⟩ := x
    rw [mem_filesIn_of_within hlisted h.within, mem_filesIn_of_within (hlisted.perm hperm) (h.within.perm hperm)]
    simp only [(visible_perm hperm).mem_iff]
    rfl

/-- With too many entries there are orders in which a file is returned and orders in which it is not. -/
theorem InspectedAll.within {texts : List (NativePath × Option (String × Meta))}
    (h : InspectedAll root dir entries s texts) (hlisted : Listed root dir entries) : Within root dir entries := by
  intro e he node name hfile htext
  by_contra hmany
  rw [not_lt] at hmany
  obtain ⟨hseen, hbytes⟩ := toStringLossy_of_text htext
  obtain ⟨hvisible, hkind⟩ := hlisted.mem_visible he hfile
  let P : RawEntry → Bool := fun e => e.kind ≠ .dir ∧ toStringLossy e.name = name
  have hlast : (entries.filter (fun e => !P e) ++ entries.filter P).Perm entries :=
    List.perm_append_comm.trans (List.filter_append_perm P entries)
  have hfirst : (entries.filter P ++ entries.filter (fun e => !P e)).Perm entries := List.filter_append_perm P entries
  have hsame : ∀ entries' : List RawEntry, entries'.Perm entries →
      ((root.relisted dir entries').listing dir = .ok entries') := fun entries' _ => if_pos rfl
  -- listed last, the entries that are seen as the file are beyond the cap
  have hnot : (dir.join e.name, node.info) ∉
      (filesIn (root.relisted dir (entries.filter (fun e => !P e) ++ entries.filter P)) dir s).1 := by
    rw [mem_filesIn (hsame _ hlast)]
    rintro ⟨e', he', hkind', hpath, -⟩
    have hname : toStringLossy e'.name = name := by
      rw [← hbytes] at hpath
      exact (utf8Bytes_injective (join_injective hpath)).symm
    have hothers : maxDirEntries ≤ (visible (entries.filter fun e => !P e)).length := by
      have hcount := (visible_perm (List.filter_append_perm P entries)).length_eq
      have hcommute : visible (entries.filter P) = seenAs name (visible entries) := by
        rw [visible, seenAs, visible, List.filter_filter, List.filter_filter]
        apply List.filter_congr
        intro e _
        exact Bool.and_comm _ _
      rw [visible, List.filter_append, List.length_append, ← visible, ← visible, hcommute] at hcount
      omega
    have hin : e' ∈ (visible (entries.filter fun e => !P e)).take maxDirEntries := by
      rw [visible, List.filter_append, ← visible, ← visible, List.take_append_of_le_length hothers] at he'
      exact he'
    have hother := (List.mem_filter.mp (List.mem_of_mem_filter (List.mem_of_mem_take hin))).2
    have hP : P e' = true := decide_eq_true ⟨hkind', hname⟩
    rw [hP] at hother
    cases hother
  -- listed first, one of them is within
  have hin : (dir.join e.name, node.info) ∈
      (filesIn (root.relisted dir (entries.filter P ++ entries.filter (fun e => !P e))) dir s).1 := by
    rw [mem_filesIn (hsame _ hfirst)]
    have hmem : e ∈ visible (entries.filter P) := by
      apply List.mem_filter.mpr
      exact ⟨List.mem_filter.mpr ⟨he, decide_eq_true ⟨hkind, hseen⟩⟩, (List.mem_filter.mp hvisible).2⟩
    obtain ⟨first, rest, hcons⟩ := List.exists_cons_of_ne_nil (List.ne_nil_of_mem hmem)
    have hfirstMem : first ∈ visible (entries.filter P) := by
      rw [hcons]
      exact List.mem_cons_self
    have hfirstP := of_decide_eq_true (List.mem_filter.mp (List.mem_of_mem_filter hfirstMem)).2
    refine ⟨first, ?_, hfirstP.1, ?_, except_map_eq_ok.mpr ⟨node, hfile.1, rfl⟩, hfile.2⟩
    · rw [visible, List.filter_append, ← visible, hcons]
      exact List.mem_cons_self
    · rw [hfirstP.2, hbytes]
  exact hnot ((h.ordered _ hlast _).mpr ((h.ordered _ hfirst _).mp hin))

theorem InspectedAll.seeable {paths : List NativePath}
    (h : InspectedAll root dir entries s (readAll root paths s').1) (hlisted : Listed root dir entries)
    (hcomplete : (readAll root paths s').2.run.isPartial = false) : Seeable root dir entries paths := by
  obtain ⟨-, hpaths, hall⟩ := readAll_complete hcomplete
  constructor
  · intro e he node steps hfile hreads
    obtain ⟨e', -, -, hpath, -⟩ := (mem_filesIn hlisted.listing).mp (h.returned e he node steps hfile hreads)
    rw [join_injective hpath, Json.fromUtf8_utf8Bytes]
    rfl
  · exact h.within hlisted
  -- a file that was returned in full did not go missing
  · intro path hpath node hnode hmissing
    rw [← hpaths, List.mem_map] at hpath
    obtain ⟨t, ht, rfl⟩ := hpath
    obtain ⟨node', steps, hnode', hreads, hresult⟩ := h.inFull t ht
    obtain rfl := Except.ok.inj (hnode.symm.trans hnode')
    rcases hall t ht with ⟨text, htext, hwhole, -⟩ | ⟨err, -, -, hnone⟩
    · obtain ⟨node', steps', hnode', hreads', hfailed, -⟩ := readText_whole htext hwhole
      obtain rfl := Except.ok.inj (hnode.symm.trans hnode')
      rcases hmissing with ⟨err, herr, -⟩ | ⟨steps'', err, hsteps, hmem, -⟩
      · rw [herr] at hreads
        cases hreads
      · obtain rfl := Except.ok.inj (hreads'.symm.trans hsteps)
        exact hfailed err hmem
    · rw [hnone] at hresult
      cases hresult

/-- A check that completed has seen a directory if and only if it could: names are text, the cap keeps every file in
whatever order, and no file fails as if it were missing. -/
theorem inspected_all_iff (root : Root) (dir : NativePath) (entries : List RawEntry) (paths : List NativePath)
    (s : Checking) (id title : String) (cancelled : Bool) (hlisted : Listed root dir entries)
    (hchosen : ∀ path ∈ paths, ∃ m, (path, m) ∈ (filesIn root dir s).1)
    (hcompleted : ((readAll root paths (filesIn root dir s).2).2.run.finish id title cancelled).status = .completed) :
    InspectedAll root dir entries s (readAll root paths (filesIn root dir s).2).1 ↔
      Seeable root dir entries paths := by
  have hcomplete := finish_completed hcompleted
  constructor
  · intro h
    exact h.seeable hlisted hcomplete
  · intro h
    exact h.inspectedAll hlisted hchosen hcomplete

/-! ### A file whose name is no text -/

def cronDir : NativePath := utf8Bytes "/etc/cron.d"

def sampleNode : Node where
  info := ⟨0, 0, 0o644, .file, 1, 7⟩
  reads := .ok [.data 0x23 [0x0A]]

/-- A root with one file in one directory. -/
def oneFile (name : Bytes) : Root where
  listing d := if d = cronDir then .ok [⟨name, .file⟩] else .error .notFound
  resolve p := if p = cronDir.join name then .ok sampleNode else .error .notFound

theorem oneFile_listing (file : Bytes) : (oneFile file).listing cronDir = .ok [⟨file, .file⟩] := by
  simp only [oneFile, if_true]

theorem oneFile_isFile (file : Bytes) : IsFile (oneFile file) cronDir ⟨file, .file⟩ sampleNode := by
  refine ⟨?_, rfl⟩
  simp only [oneFile, if_true]

/-- A check that has just been started. -/
def started : Checking := ⟨⟨0, false, []⟩, []⟩

section

variable {file : Bytes} (hdot : ¬ (toStringLossy file = "." ∨ toStringLossy file = ".."))
include hdot

theorem oneFile_listed : Listed (oneFile file) cronDir [⟨file, .file⟩] := by
  constructor
  · exact oneFile_listing file
  · intro e he hdir
    obtain rfl := List.mem_singleton.mp he
    cases hdir
  · intro e he hnot
    obtain rfl := List.mem_singleton.mp he
    exact absurd (List.mem_filter.mpr ⟨he, decide_eq_true hdot⟩) hnot
  · intro e he node hfile
    obtain rfl := List.mem_singleton.mp he
    refine ⟨_, he, ?_⟩
    by_contra hother
    have hpath : ¬ cronDir.join (utf8Bytes (toStringLossy file)) = cronDir.join file := fun h =>
      hother (join_injective h).symm
    have hnone := hfile.1
    simp only [oneFile, if_neg hpath] at hnone
    cases hnone

/-- Whatever the name, the check has nothing to report. -/
theorem oneFile_filesIn : (filesIn (oneFile file) cronDir started).2 = started := by
  have hread : (oneFile file).readDir cronDir = .ok [⟨toStringLossy file, .file⟩] := by
    rw [Root.readDir, oneFile_listing, except_ok_bind, Root.listEntries, if_neg hdot]
    rfl
  have hkind : ¬ Kind.file = .dir := by decide
  rw [filesIn, hread]
  simp only [statEntries, if_neg hkind, Root.stat, oneFile]
  by_cases hpath : cronDir.join (utf8Bytes (toStringLossy file)) = cronDir.join file
  · rw [if_pos hpath]
    rfl
  · rw [if_neg hpath]
    rfl

end

def backup : Bytes := utf8Bytes "backup"

def backupPath : NativePath := cronDir.join backup

/-- The file is returned, and then read. -/
theorem inspected_all_iff_sample :
    InspectedAll (oneFile backup) cronDir [⟨backup, .file⟩] started
        (readAll (oneFile backup) [backupPath] (filesIn (oneFile backup) cronDir started).2).1 ↔
      Seeable (oneFile backup) cronDir [⟨backup, .file⟩] [backupPath] := by
  have htext : toStringLossy backup = "backup" := toStringLossy_utf8Bytes "backup"
  have hdot : ¬ (toStringLossy backup = "." ∨ toStringLossy backup = "..") := by
    rw [htext]
    decide
  have hreturned : (backupPath, sampleNode.info) ∈ (filesIn (oneFile backup) cronDir started).1 := by
    decide
  have hcompleted : ((readAll (oneFile backup) [backupPath]
      (filesIn (oneFile backup) cronDir started).2).2.run.finish "persistence.cron" "Cron jobs" false).status =
        .completed := by
    decide
  refine inspected_all_iff (oneFile backup) cronDir _ [backupPath] started "persistence.cron" "Cron jobs" false
    (oneFile_listed hdot) ?_ hcompleted
  intro path hpath
  obtain rfl := List.mem_singleton.mp hpath
  exact ⟨sampleNode.info, hreturned⟩

/-- The name of a file that a check does not see. -/
def hiddenName : Bytes := [0x62, 0x61, 0x63, 0x6B, 0x75, 0x70, 0xFF]

theorem hiddenName_not_text : fromUtf8 hiddenName = none := by decide

/-- A file whose name is no text is not returned, and the check has completed. -/
theorem hidden_file_not_inspected : ¬ ∀ (root : Root) (dir : NativePath) (entries : List RawEntry)
    (paths : List NativePath) (s : Checking) (id title : String) (cancelled : Bool), Listed root dir entries →
    (∀ path ∈ paths, ∃ m, (path, m) ∈ (filesIn root dir s).1) →
    ((readAll root paths (filesIn root dir s).2).2.run.finish id title cancelled).status = .completed →
      InspectedAll root dir entries s (readAll root paths (filesIn root dir s).2).1 := by
  intro hall
  have hdot : ¬ (toStringLossy hiddenName = "." ∨ toStringLossy hiddenName = "..") := by
    rw [toStringLossy, hiddenName_not_text]
    decide
  have hlisted := oneFile_listed hdot
  have hcompleted : ((readAll (oneFile hiddenName) []
      (filesIn (oneFile hiddenName) cronDir started).2).2.run.finish "persistence.cron" "Cron jobs" false).status =
        .completed := by
    rw [oneFile_filesIn hdot]
    rfl
  have hinspected := hall (oneFile hiddenName) cronDir _ [] started "persistence.cron" "Cron jobs" false hlisted
    (by simp) hcompleted
  have htext := (hinspected.seeable hlisted (finish_completed hcompleted)).text _ List.mem_cons_self sampleNode _
    (oneFile_isFile hiddenName) rfl
  rw [hiddenName_not_text] at htext
  cases htext

end AbyssalWarden.SystemCheck

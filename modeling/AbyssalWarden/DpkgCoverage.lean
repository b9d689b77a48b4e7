import AbyssalWarden.DpkgRecords

/-! Which targets get a record of dpkg's. A target has at most one, and it has one when a package that records it is among
those that are selected. -/
namespace AbyssalWarden.Packages

open SystemCheck

variable {root : Root} {targets done owning stems seen : List (List Char)} {t a p q text package : List Char}
  {wanted : Wanted} {s : Checking} {cancel : Cancellation} {r : Recorded} {out : List Recorded}

/-! ### Aliases -/

theorem usrmergeAlias_eq_some (h : usrmergeAlias t = some a) :
    (∃ dir ∈ mergedDirs, dir <+: t ∧ a = usr ++ t) ∨ ∃ dir ∈ mergedDirs, dir <+: a ∧ t = usr ++ a := by
  obtain ⟨dir, hdir, hsome⟩ := List.exists_of_findSome?_eq_some h
  split at hsome
  · rename_i hprefix
    exact Or.inl ⟨dir, hdir, List.isPrefixOf_iff_prefix.mp hprefix, (Option.some.inj hsome).symm⟩
  · split at hsome
    · rename_i hboth
      obtain ⟨husr, hrest⟩ := hboth
      obtain rfl := Option.some.inj hsome
      rw [List.isPrefixOf_iff_prefix] at husr hrest
      obtain ⟨rest, rfl⟩ := husr
      refine Or.inr ⟨dir, hdir, hrest, ?_⟩
      rw [List.drop_left]
    · cases hsome

/-- No merged directory starts as `/usr` does. -/
theorem not_prefix_usr {dir : List Char} (hdir : dir ∈ mergedDirs) : ¬ dir <+: usr ++ t := by
  have hsecond : ∀ dir ∈ mergedDirs, dir.length ≥ 2 ∧ dir.take 2 ≠ usr.take 2 := by decide
  obtain ⟨hlength, hne⟩ := hsecond dir hdir
  rintro ⟨rest, hrest⟩
  apply hne
  have htake := congrArg (List.take 2) hrest
  rw [List.take_append_of_le_length hlength, List.take_append_of_le_length (by decide)] at htake
  exact htake

theorem usrmergeAlias_injective (h : usrmergeAlias t = some a) (h' : usrmergeAlias q = some a) : t = q := by
  rcases usrmergeAlias_eq_some h with ⟨dir, hdir, hprefix, heq⟩ | ⟨dir, hdir, hprefix, heq⟩
  · rcases usrmergeAlias_eq_some h' with ⟨dir', hdir', hprefix', heq'⟩ | ⟨dir', hdir', hprefix', heq'⟩
    · exact List.append_cancel_left (heq.symm.trans heq')
    · exact absurd (heq ▸ hprefix') (not_prefix_usr hdir')
  · rcases usrmergeAlias_eq_some h' with ⟨dir', hdir', hprefix', heq'⟩ | ⟨dir', hdir', hprefix', heq'⟩
    · exact absurd (heq' ▸ hprefix) (not_prefix_usr hdir)
    · exact heq.trans heq'.symm

theorem usrmergeAlias_ne (h : usrmergeAlias t = some a) : a ≠ t := by
  have hlength : ∀ s : List Char, s ≠ usr ++ s := fun s heq => by
    have h := congrArg List.length heq
    have husr : usr.length = 4 := by decide
    rw [List.length_append] at h
    omega
  rintro rfl
  rcases usrmergeAlias_eq_some h with ⟨-, -, -, heq⟩ | ⟨-, -, -, heq⟩
  · exact hlength a heq
  · exact hlength a heq

/-! ### The paths that are wanted -/

/-- The entries of the map, for targets taken so far. -/
def WantedFor (targets : List (List Char)) (wanted : Wanted) : Prop :=
  ∀ p q, wanted p = some q ↔ q ∈ targets ∧ Covers targets q p

theorem want_self : want wanted t t = some t := by
  unfold want
  cases h : usrmergeAlias t with
  | none => exact if_pos rfl
  | some a => exact (if_neg (usrmergeAlias_ne h).symm).trans (if_pos rfl)

theorem want_alias (h : usrmergeAlias t = some a) : want wanted t a = some ((wanted a).getD t) := by
  unfold want
  simp only [h, if_true, if_neg (usrmergeAlias_ne h)]

theorem want_other (hp : p ≠ t) (h : usrmergeAlias t ≠ some p) : want wanted t p = wanted p := by
  unfold want
  cases ht : usrmergeAlias t with
  | none => exact if_neg hp
  | some a =>
    have hne : p ≠ a := by
      rintro rfl
      exact h ht
    exact (if_neg hne).trans (if_neg hp)

theorem WantedFor.want (h : WantedFor done wanted) (t : List Char) :
    WantedFor (done ++ [t]) (Packages.want wanted t) := by
  intro p q
  have hmem : q ∈ done ++ [t] ↔ q ∈ done ∨ q = t := by
    rw [List.mem_append, List.mem_singleton]
  by_cases hp : p = t
  · subst hp
    rw [want_self, Option.some_inj]
    constructor
    · rintro rfl
      exact ⟨List.mem_append_right _ List.mem_cons_self, Or.inl rfl⟩
    · rintro ⟨-, heq | ⟨-, hnot⟩⟩
      · exact heq
      · exact absurd (List.mem_append_right _ List.mem_cons_self) hnot
  have hnot : p ∉ done ++ [t] ↔ p ∉ done := by
    rw [List.mem_append, List.mem_singleton, or_iff_left hp]
  by_cases halias : usrmergeAlias t = some p
  · rw [want_alias halias, Covers, hnot, hmem]
    cases hold : wanted p with
    | none =>
      -- there was no entry, so the alias leads to the target
      have hfresh : p ∉ done := by
        intro hin
        have hsome := (h p p).mpr ⟨hin, Or.inl rfl⟩
        rw [hold] at hsome
        cases hsome
      rw [Option.getD_none, Option.some_inj]
      constructor
      · rintro rfl
        exact ⟨Or.inr rfl, Or.inr ⟨halias, hfresh⟩⟩
      · rintro ⟨hq, rfl | ⟨hsome, -⟩⟩
        · rcases hq with hq | hq
          · exact absurd hq hfresh
          · exact absurd hq hp
        · exact usrmergeAlias_injective halias hsome
    | some q₀ =>
      obtain ⟨hq₀, hcovers⟩ := (h p q₀).mp hold
      rw [Option.getD_some, Option.some_inj]
      constructor
      · rintro rfl
        exact ⟨Or.inl hq₀, hcovers⟩
      · rintro ⟨hq, heq | ⟨hsome, hfresh⟩⟩
        · rcases hcovers with heq' | ⟨hsome', hfresh⟩
          · exact heq'.symm.trans heq
          · subst heq
            rcases hq with hq | hq
            · exact absurd hq hfresh
            · exact absurd hq hp
        · rcases hcovers with heq' | ⟨hsome', -⟩
          · exact absurd (heq' ▸ hq₀) hfresh
          · exact usrmergeAlias_injective hsome' hsome
  · rw [want_other hp halias, h p q, Covers, Covers, hnot, hmem]
    constructor
    · rintro ⟨hq, hcovers⟩
      exact ⟨Or.inl hq, hcovers⟩
    · rintro ⟨hq | rfl, hcovers⟩
      · exact ⟨hq, hcovers⟩
      · rcases hcovers with heq | ⟨hsome, -⟩
        · exact absurd heq hp
        · exact absurd hsome halias

theorem WantedFor.foldl (h : WantedFor done wanted) (targets : List (List Char)) :
    WantedFor (done ++ targets) (targets.foldl Packages.want wanted) := by
  induction targets generalizing done wanted with
  | nil =>
    rw [List.append_nil]
    exact h
  | cons t targets ih =>
    have hrest := ih (h.want t)
    rwa [List.append_assoc, List.singleton_append] at hrest

/-- The order of the targets does not matter: a path leads to a target that it covers. -/
theorem wantedOf_spec (targets : List (List Char)) : WantedFor targets (wantedOf targets) := by
  have hnone : WantedFor [] fun _ => none := by
    intro p q
    simp
  exact hnone.foldl targets

theorem wantedOf_isSome : (wantedOf targets p).isSome = true ↔ ∃ t ∈ targets, Covers targets t p := by
  rw [Option.isSome_iff_exists]
  simp only [wantedOf_spec targets p]

/-! ### The packages that are selected -/

theorem mem_owningOf {entries : List SystemCheck.Entry} {i : ℕ}
    (hcancel : cancel.asked (i + entries.countP isList) = false) :
    package ∈ owningOf root wanted cancel i entries ↔ ∃ e ∈ entries, isList e = true ∧
      listStem e.name.toList = package ∧ ∃ t, root.readText (infoPath e.name.toList) = .ok t ∧
        ∃ p ∈ lines t.text.toList, (wanted p).isSome = true := by
  -- the token is asked once for each list, so its count goes along
  induction entries generalizing i with
  | nil => simp [owningOf]
  | cons e entries ih =>
    by_cases hlist : isList e = true
    · rw [List.countP_cons_of_pos hlist] at hcancel
      have hasked : cancel.asked i = false := cancel.asked_of_later _ hcancel
      have hlater : cancel.asked (i + 1 + entries.countP isList) = false := by
        rw [Nat.add_assoc, Nat.add_comm 1]
        exact hcancel
      rw [owningOf, if_pos hlist, hasked, if_neg Bool.false_ne_true]
      simp only [List.exists_mem_cons_iff, hlist, true_and]
      cases hread : root.readText (infoPath e.name.toList) with
      | error err => simpa using ih hlater
      | ok t =>
        dsimp only
        -- a list owns a wanted path, or it does not
        split
        · rename_i hany
          obtain ⟨l, hl, hsome⟩ := List.any_eq_true.mp hany
          rw [List.mem_cons, ih hlater]
          constructor
          · rintro (rfl | hrest)
            · exact Or.inl ⟨rfl, t, rfl, l, hl, hsome⟩
            · exact Or.inr hrest
          · rintro (⟨rfl, -⟩ | hrest)
            · exact Or.inl rfl
            · exact Or.inr hrest
        · rename_i hany
          rw [ih hlater]
          constructor
          · exact Or.inr
          · rintro (⟨-, t', ht', p, hp, hsome⟩ | hrest)
            · obtain rfl := Except.ok.inj ht'
              exact absurd (List.any_eq_true.mpr ⟨p, hp, hsome⟩) hany
            · exact hrest
    · rw [List.countP_cons_of_neg hlist] at hcancel
      rw [owningOf, if_neg hlist, ih hcancel]
      simp [hlist]

/-! ### What is read of them -/

theorem mem_wantedRecords {records : List Recorded} : r ∈ wantedRecords wanted false records ↔
    ∃ r' ∈ records, ∃ ours, wanted r'.path = some ours ∧ r = { r' with path := ours } := by
  simp only [wantedRecords, List.mem_filterMap, Bool.false_eq_true, if_false, Option.map_eq_some_iff, @eq_comm _ r]

/-- Loops that leave a check complete have read the digests of every selected package, or found them missing. -/
theorem readSums_complete (h : (readSums root wanted false owning stems s).2.run.isPartial = false) :
    (∀ r, r ∈ (readSums root wanted false owning stems s).1 ↔
      ∃ stem ∈ stems, stem ∈ owning ∧ ∃ t, root.readText (infoPath (sumsName stem)) = .ok t ∧
        r ∈ wantedRecords wanted false (parseMd5sums t.text.toList (stem.takeWhile (· ≠ ':')))) ∧
    (∀ stem ∈ stems, stem ∈ owning → ∀ t, root.readText (infoPath (sumsName stem)) = .ok t → t.truncated = false) ∧
    s.run.isPartial = false := by
  -- one package after the other; an issue of an earlier one stays in the state
  induction stems generalizing s with
  | nil => exact ⟨by simp [readSums], by simp, h⟩
  | cons stem stems ih =>
    rw [readSums] at h ⊢
    by_cases howning : stem ∈ owning
    · have hread : ¬ (¬ false = true ∧ stem ∉ owning) := fun hboth => hboth.2 howning
      rw [if_neg hread] at h ⊢
      cases htext : root.readText (infoPath (sumsName stem)) with
      | error err =>
        -- a missing list of digests is no gap
        simp only [htext] at h ⊢
        obtain ⟨hrest, hwhole, hs₁⟩ := ih h
        refine ⟨fun r => ?_, ?_, (ioError_isPartial hs₁).2⟩
        · rw [hrest r]
          simp [htext]
        · intro stem' hstem' hin t ht
          rcases List.mem_cons.mp hstem' with rfl | hstem'
          · rw [htext] at ht
            cases ht
          · exact hwhole stem' hstem' hin t ht
      | ok t =>
        simp only [htext] at h ⊢
        obtain ⟨hrest, hwhole, hs₁⟩ := ih h
        -- a list that was cut would have made the check partial
        have hfirst : t.truncated = false := by
          cases ht : t.truncated with
          | false => rfl
          | true =>
            rw [ht, if_pos rfl] at hs₁
            cases hs₁
        rw [hfirst, if_neg Bool.false_ne_true] at hs₁ hrest ⊢
        refine ⟨fun r => ?_, ?_, hs₁⟩
        · rw [List.mem_append, hrest r]
          simp [htext, howning]
        · intro stem' hstem' hin t' ht'
          rcases List.mem_cons.mp hstem' with rfl | hstem'
          · rw [htext] at ht'
            obtain rfl := Except.ok.inj ht'
            exact hfirst
          · exact hwhole stem' hstem' hin t' ht'
    · have hskip : ¬ false = true ∧ stem ∉ owning := ⟨Bool.false_ne_true, howning⟩
      rw [if_pos hskip] at h ⊢
      obtain ⟨hrest, hwhole, hs⟩ := ih h
      refine ⟨fun r => ?_, ?_, hs⟩
      · rw [hrest r]
        simp [howning]
      · intro stem' hstem' hin
        rcases List.mem_cons.mp hstem' with rfl | hstem'
        · exact absurd hin howning
        · exact hwhole stem' hstem' hin

/-! ### One record a path -/

theorem keepFirst_subset : ∀ r ∈ keepFirst seen out, r ∈ out := by
  induction out generalizing seen with
  | nil =>
    intro r hr
    cases hr
  | cons r' out ih =>
    intro r hr
    rw [keepFirst] at hr
    split at hr
    · exact List.mem_cons_of_mem _ (ih r hr)
    · rcases List.mem_cons.mp hr with rfl | hr
      · exact List.mem_cons_self
      · exact List.mem_cons_of_mem _ (ih r hr)

theorem keepFirst_filter : (keepFirst seen out).filter (fun r => r.path = t) =
    if t ∈ seen then [] else (out.filter fun r => r.path = t).take 1 := by
  induction out generalizing seen with
  | nil => simp [keepFirst]
  | cons r out ih =>
    rw [keepFirst]
    by_cases hseen : r.path ∈ seen
    · rw [if_pos hseen, ih]
      by_cases ht : t ∈ seen
      · rw [if_pos ht, if_pos ht]
      · have hne : r.path ≠ t := by
          rintro rfl
          exact ht hseen
        rw [if_neg ht, if_neg ht, List.filter_cons_of_neg (by simp [hne])]
    · rw [if_neg hseen]
      by_cases heq : r.path = t
      · subst heq
        rw [List.filter_cons_of_pos (by simp), ih, if_pos List.mem_cons_self, if_neg hseen,
          List.filter_cons_of_pos (by simp), List.take_succ_cons, List.take_zero]
      · have hmem : t ∈ r.path :: seen ↔ t ∈ seen := by
          rw [List.mem_cons, or_iff_right fun h => heq h.symm]
        rw [List.filter_cons_of_neg (by simp [heq]), ih, List.filter_cons_of_neg (by simp [heq])]
        simp only [hmem]

/-- The first record of a path is the only one that is kept. -/
theorem keepFirst_one (hr : r ∈ out) : ∃ r', (keepFirst [] out).filter (fun r' => r'.path = r.path) = [r'] ∧
    r' ∈ out ∧ r'.path = r.path := by
  have hmem : r ∈ out.filter fun r' => r'.path = r.path := List.mem_filter.mpr ⟨hr, by simp⟩
  obtain ⟨r', rest, hcons⟩ := List.exists_cons_of_ne_nil (List.ne_nil_of_mem hmem)
  have hfirst : r' ∈ out.filter fun r' => r'.path = r.path := by
    rw [hcons]
    exact List.mem_cons_self
  obtain ⟨hin, hpath⟩ := List.mem_filter.mp hfirst
  refine ⟨r', ?_, hin, of_decide_eq_true hpath⟩
  rw [keepFirst_filter, if_neg List.not_mem_nil, hcons, List.take_succ_cons, List.take_zero]

/-! ### Names and texts -/

theorem sumsStem_eq_some {name stem : List Char} : sumsStem name = some stem ↔ name = sumsName stem := by
  rw [sumsStem, sumsName]
  constructor
  · intro h
    split at h
    · rename_i hsuffix
      obtain ⟨stem', rfl⟩ := List.isSuffixOf_iff_suffix.mp hsuffix
      obtain rfl := Option.some.inj h
      rw [List.length_append, Nat.add_sub_cancel, List.take_left]
    · cases h
  · rintro rfl
    have hsuffix : endsWith (stem ++ ".md5sums".toList) ".md5sums" = true :=
      List.isSuffixOf_iff_suffix.mpr (List.suffix_append _ _)
    rw [if_pos hsuffix, List.length_append, Nat.add_sub_cancel, List.take_left]

theorem utf8Bytes_append (a b : String) : utf8Bytes (a ++ b) = utf8Bytes a ++ utf8Bytes b := by
  simp [utf8Bytes]

theorem infoPath_sumsName (stem : List Char) : infoPath (sumsName stem) =
    infoDir.join (utf8Bytes (String.ofList stem) ++ utf8Bytes ".md5sums") := by
  rw [infoPath, sumsName, String.ofList_append, utf8Bytes_append, String.ofList_toList]

/-- The package does not matter for what is recorded. -/
theorem parseSum_package (package line : List Char) :
    parseSum package line = (parseSum [] line).map fun r => { r with package := some package } := by
  unfold parseSum
  split
  · rfl
  · dsimp only
    split
    · rfl
    · rfl

theorem mem_parseMd5sums : r ∈ parseMd5sums text package ↔
    ∃ r' ∈ parseMd5sums text [], r = { r' with package := some package } := by
  simp only [parseMd5sums, List.mem_filterMap]
  constructor
  · rintro ⟨line, hline, hsome⟩
    rw [parseSum_package] at hsome
    obtain ⟨r', hr', rfl⟩ := Option.map_eq_some_iff.mp hsome
    exact ⟨r', ⟨line, hline, hr'⟩, rfl⟩
  · rintro ⟨r', ⟨line, hline, hr'⟩, rfl⟩
    refine ⟨line, hline, ?_⟩
    rw [parseSum_package, hr']
    rfl

theorem not_blank_of_hexDigit {c : Char} (h : isHexDigit c = true) : isWhitespace c = false := by
  have hrange : 0x30 ≤ c.toNat ∧ c.toNat ≤ 0x66 := by
    simp only [isHexDigit, Char.isDigit, Char.le_def, Bool.or_eq_true, Bool.and_eq_true, decide_eq_true_eq,
      UInt32.le_iff_toNat_le, Char.reduceVal, UInt32.reduceToNat, ge_iff_le] at h
    simp only [Char.toNat]
    omega
  simp [isWhitespace]
  omega

/-- What the parser makes of a line -/
theorem parseSum_eq_some {line : List Char} :
    parseSum package line = some r ↔ SumLine r.path r.digest line ∧ r.algo = .md5 ∧ r.package = some package := by
  have hsplit : line.takeWhile (fun c => !isWhitespace c) ++ line.dropWhile (fun c => !isWhitespace c) = line :=
    List.takeWhile_append_dropWhile
  -- the first word, the blanks and the rest are cut off one after the other
  constructor
  · intro h
    unfold parseSum at h
    cases hdrop : line.dropWhile (fun c => !isWhitespace c) with
    | nil =>
      rw [hdrop] at h
      cases h
    | cons c rest =>
      rw [hdrop] at h hsplit
      dsimp only at h
      split at h
      · rename_i hform
        obtain ⟨hlength, hhex, hpath⟩ := hform
        obtain rfl := Option.some.inj h
        have hc : isWhitespace c = true := by
          have hhead := List.head?_dropWhile_not (fun c => !isWhitespace c) line
          rw [hdrop] at hhead
          simpa using hhead
        refine ⟨⟨_, c :: rest.takeWhile isWhitespace, rest.dropWhile isWhitespace, ?_, hlength, List.all_eq_true.mp hhex,
          List.cons_ne_nil _ _, ?_, ?_, rfl, rfl⟩, rfl, rfl⟩
        · rw [List.append_assoc, List.cons_append, List.takeWhile_append_dropWhile, hsplit]
        · exact List.forall_mem_cons.mpr ⟨hc, fun d hd => List.mem_takeWhile_imp hd⟩
        · obtain ⟨d, tail, htail⟩ := List.exists_cons_of_ne_nil hpath
          have hhead := List.head?_dropWhile_not isWhitespace rest
          rw [htail] at hhead
          exact ⟨d, by rw [htail]; rfl, by simpa using hhead⟩
      · cases h
  · rintro ⟨⟨sum, gap, rest, rfl, hlength, hhex, hgap, hblank, ⟨d, hd, hdword⟩, hdigest, hpath⟩, halgo, hpackage⟩
    obtain ⟨c, gap, rfl⟩ := List.exists_cons_of_ne_nil hgap
    obtain ⟨hc, hblank⟩ := List.forall_mem_cons.mp hblank
    obtain ⟨tail, rfl⟩ : ∃ tail, rest = d :: tail := by
      cases rest with
      | nil => cases hd
      | cons e tail => exact ⟨tail, by rw [Option.some.inj hd]⟩
    -- a hexadecimal digit is no blank, so the first word is the digest
    have hword : ∀ e ∈ sum, (!isWhitespace e) = true := fun e he => by rw [not_blank_of_hexDigit (hhex e he)]; rfl
    have hafter : (c :: (gap ++ d :: tail)).dropWhile (fun c => !isWhitespace c) = c :: (gap ++ d :: tail) :=
      List.dropWhile_cons_of_neg (by simp [hc])
    have hbefore : (c :: (gap ++ d :: tail)).takeWhile (fun c => !isWhitespace c) = [] :=
      List.takeWhile_cons_of_neg (by simp [hc])
    have hrest : (gap ++ d :: tail).dropWhile isWhitespace = d :: tail := by
      rw [List.dropWhile_append_of_pos hblank, List.dropWhile_cons_of_neg (by simp [hdword])]
    have hform : sum.length = 32 ∧ sum.all isHexDigit = true ∧ d :: tail ≠ [] :=
      ⟨hlength, List.all_eq_true.mpr hhex, List.cons_ne_nil _ _⟩
    rw [parseSum, List.append_assoc, List.dropWhile_append_of_pos hword, List.cons_append, hafter]
    dsimp only
    rw [List.takeWhile_append_of_pos hword, hbefore, List.append_nil, hrest, if_pos hform]
    obtain ⟨path, algo, digest, package'⟩ := r
    dsimp only at hdigest hpath halgo hpackage
    rw [hdigest, hpath, halgo, hpackage]

theorem recordsSum_iff {digest : List Char} : RecordsSum text p digest ↔
    ∃ r ∈ parseMd5sums text [], r.path = p ∧ r.digest = digest := by
  constructor
  · rintro ⟨line, hline, hsum⟩
    refine ⟨⟨p, .md5, digest, some []⟩, List.mem_filterMap.mpr ⟨line, hline, ?_⟩, rfl, rfl⟩
    exact parseSum_eq_some.mpr ⟨hsum, rfl, rfl⟩
  · rintro ⟨r, hr, rfl, rfl⟩
    obtain ⟨line, hline, hsome⟩ := List.mem_filterMap.mp hr
    exact ⟨line, hline, (parseSum_eq_some.mp hsome).1⟩

theorem mem_parseMd5sums_algo (h : r ∈ parseMd5sums text package) : r.algo = .md5 := by
  obtain ⟨line, -, hsome⟩ := List.mem_filterMap.mp h
  exact (parseSum_eq_some.mp hsome).2.1

theorem readText_kind {path : NativePath} {t : Text} (h : root.readText path = .ok t) :
    ∃ node, root.resolve path = .ok node ∧ node.info.kind = .file := by
  rw [Root.readText] at h
  obtain ⟨node, hnode, h⟩ := except_bind_eq_ok.mp h
  obtain ⟨steps, -, h⟩ := except_bind_eq_ok.mp h
  by_cases hkind : node.info.kind = .file
  · exact ⟨node, hnode, hkind⟩
  · rw [if_pos hkind] at h
    cases h

theorem fileText_of_readText {name : Bytes} {t : Text} (h : root.readText (infoDir.join name) = .ok t)
    (hwhole : t.truncated = false) : FileText root name t.text.toList := by
  obtain ⟨node, steps, hnode, hsteps, -, htext, -⟩ := readText_whole h hwhole
  obtain ⟨node', hnode', hkind⟩ := readText_kind h
  obtain rfl := Except.ok.inj (hnode'.symm.trans hnode)
  exact ⟨node', steps, hnode, hkind, hsteps, by rw [htext]⟩

/-! ### The records -/

section

variable {entries : List SystemCheck.Entry} (hcancel : cancel.asked (timesAsked root) = false)
  (hread : root.readDir infoDir = .ok entries)
  (hcomplete : (readSums root (wantedOf targets) false (owningOf root (wantedOf targets) cancel 0 entries)
    (entries.filterMap fun e => sumsStem e.name.toList) s).2.run.isPartial = false)
include hcancel hread

theorem selected_iff {sums : Text} : Selected root targets package sums ↔
    package ∈ entries.filterMap (fun e => sumsStem e.name.toList) ∧
      package ∈ owningOf root (wantedOf targets) cancel 0 entries ∧
      root.readText (infoPath (sumsName package)) = .ok sums := by
  have hasked : cancel.asked (0 + entries.countP isList) = false := by
    rw [timesAsked, hread] at hcancel
    rw [Nat.zero_add]
    exact hcancel
  rw [List.mem_filterMap, mem_owningOf hasked]
  simp only [sumsStem_eq_some, wantedOf_isSome]
  constructor
  · rintro ⟨⟨entries', hread', hsums, hlist⟩, htext⟩
    obtain rfl := Except.ok.inj (hread'.symm.trans hread)
    exact ⟨hsums, hlist, htext⟩
  · rintro ⟨hsums, hlist, htext⟩
    exact ⟨⟨entries, hread, hsums, hlist⟩, htext⟩

include hcomplete

theorem Selected.whole {sums : Text} (h : Selected root targets package sums) : sums.truncated = false := by
  obtain ⟨-, hwhole, -⟩ := readSums_complete hcomplete
  obtain ⟨hstem, howning, htext⟩ := (selected_iff hcancel hread).mp h
  exact hwhole package hstem howning sums htext

/-- Where a record comes from: a package that is selected, and a digest of it for a path that the target covers. -/
theorem mem_dpkgRecords :
    r ∈ (readSums root (wantedOf targets) false (owningOf root (wantedOf targets) cancel 0 entries)
      (entries.filterMap fun e => sumsStem e.name.toList) s).1 ↔
    ∃ package sums, Selected root targets package sums ∧ ∃ r' ∈ parseMd5sums sums.text.toList [],
      r.path ∈ targets ∧ Covers targets r.path r'.path ∧
        r = { r' with path := r.path, package := some (package.takeWhile (· ≠ ':')) } := by
  obtain ⟨hmem, -, -⟩ := readSums_complete hcomplete
  rw [hmem]
  simp only [mem_wantedRecords, wantedOf_spec targets _ _, selected_iff hcancel hread]
  constructor
  · rintro ⟨package, hstem, howning, sums, htext, r', hr', ours, ⟨htarget, hcovers⟩, rfl⟩
    obtain ⟨r₀, hr₀, rfl⟩ := mem_parseMd5sums.mp hr'
    exact ⟨package, sums, ⟨hstem, howning, htext⟩, r₀, hr₀, htarget, hcovers, rfl⟩
  · rintro ⟨package, sums, ⟨hstem, howning, htext⟩, r₀, hr₀, htarget, hcovers, hr⟩
    exact ⟨package, hstem, howning, sums, htext, _, mem_parseMd5sums.mpr ⟨r₀, hr₀, rfl⟩, r.path, ⟨htarget, hcovers⟩, hr⟩

end

/-- A check of dpkg's records that is complete covers the targets if and only if every target that a package records is
recorded by a package that is selected. -/
theorem records_cover_iff (root : Root) (targets : List (List Char)) (cancel : Cancellation) (s : Checking)
    (hcancel : cancel.asked (timesAsked root) = false)
    (hcomplete : (dpkgRecords root targets false cancel s).2.run.isPartial = false) :
    Covered root targets (dpkgRecords root targets false cancel s).1 ↔ AllSelected root targets := by
  unfold dpkgRecords at hcomplete ⊢
  cases hread : root.readDir infoDir with
  | error err =>
    have hnone (t : List Char) : ¬ Recordable root targets t := by
      rintro ⟨-, -, -, -, -, -, ⟨⟨entries, hlisting, -⟩, -⟩, -⟩
      obtain ⟨listed, hlisted⟩ := readDir_total hlisting
      rw [hread] at hlisted
      cases hlisted
    constructor
    · intro _ t _ hrecordable
      exact absurd hrecordable (hnone t)
    · intro _
      refine ⟨fun t _ hrecordable => absurd hrecordable (hnone t), ?_⟩
      intro r hr
      cases hr
  | ok entries =>
    simp only [hread, Bool.false_eq_true, if_false] at hcomplete ⊢
    have hmem (r : Recorded) := mem_dpkgRecords (r := r) hcancel hread hcomplete
    constructor
    · intro h t ht hrecordable
      obtain ⟨r, hone, -⟩ := h.one t ht hrecordable
      have hr : r ∈ [r] := List.mem_cons_self
      rw [← hone, List.mem_filter, decide_eq_true_eq] at hr
      obtain ⟨hkept, rfl⟩ := hr
      obtain ⟨package, sums, hselected, r', hr', -, hcovers, -⟩ := (hmem r).mp (keepFirst_subset r hkept)
      exact ⟨package, sums, hselected, r'.path, r'.digest, recordsSum_iff.mpr ⟨r', hr', rfl, rfl⟩, hcovers⟩
    · intro h
      constructor
      · intro t ht hrecordable
        obtain ⟨package, sums, hselected, p, digest, hrecords, hcovers⟩ := h t ht hrecordable
        obtain ⟨r', hr', rfl, -⟩ := recordsSum_iff.mp hrecords
        have hin := (hmem { r' with path := t, package := some (package.takeWhile (· ≠ ':')) }).mpr
          ⟨package, sums, hselected, r', hr', ht, hcovers, rfl⟩
        obtain ⟨r, hone, hr, hpath⟩ := keepFirst_one hin
        -- the record that is kept may be of another package
        obtain ⟨package', sums', hselected', r₀, hr₀, -, hcovers', heq⟩ := (hmem r).mp hr
        have halgo := (mem_parseMd5sums_algo hr₀)
        have htext := hselected'.sums
        rw [infoPath_sumsName] at htext
        refine ⟨r, hone, by rw [heq]; exact halgo, _, _, r₀.path,
          fileText_of_readText htext (hselected'.whole hcancel hread hcomplete), ?_, ?_⟩
        · exact recordsSum_iff.mpr ⟨r₀, hr₀, rfl, by rw [heq]⟩
        · rw [hpath] at hcovers'
          exact hcovers'
      · intro r hr
        obtain ⟨-, -, -, -, -, htarget, -⟩ := (hmem r).mp (keepFirst_subset r hr)
        exact htarget

/-! ### A target without a record -/

def listedTarget : List Char := "/usr/bin/ls".toList

/-- A list with one path -/
def listSteps : List ReadStep := [.data 0x2F (utf8Bytes "usr/bin/ls\n")]

/-- A database with one package, its list read in these steps. -/
def onePackage (package : String) (steps : List ReadStep) : Root where
  listing d :=
    if d = infoDir then .ok [⟨utf8Bytes (package ++ ".list"), .file⟩, ⟨utf8Bytes (package ++ ".md5sums"), .file⟩]
    else .error .notFound
  resolve p :=
    if p = infoDir.join (utf8Bytes (package ++ ".list")) then .ok ⟨⟨0, 0, 0o644, .file, 1, 7⟩, .ok steps⟩
    else if p = infoDir.join (utf8Bytes (package ++ ".md5sums")) then
      .ok ⟨⟨0, 0, 0o644, .file, 1, 8⟩, .ok [.data 0x64 (utf8Bytes "41d8cd98f00b204e9800998ecf8427e  usr/bin/ls\n")]⟩
    else .error .notFound

theorem records_cover_iff_sample :
    Covered (onePackage "coreutils" listSteps) [listedTarget]
      (dpkgRecords (onePackage "coreutils" listSteps) [listedTarget] false running started).1 ↔
        AllSelected (onePackage "coreutils" listSteps) [listedTarget] := by
  apply records_cover_iff
  · rfl
  · decide +kernel

theorem onePackage_listing (package : String) (steps : List ReadStep) : (onePackage package steps).listing infoDir =
    .ok [⟨utf8Bytes (package ++ ".list"), .file⟩, ⟨utf8Bytes (package ++ ".md5sums"), .file⟩] := by
  simp only [onePackage, if_true]

theorem onePackage_recordable (package : String) {steps : List ReadStep}
    (hline : listedTarget ∈ lines (toStringLossy (SystemCheck.contentOf steps)).toList) :
    Recordable (onePackage package steps) [listedTarget] listedTarget := by
  have hne : infoDir.join (utf8Bytes (package ++ ".md5sums")) ≠ infoDir.join (utf8Bytes (package ++ ".list")) := by
    intro heq
    have hbytes := join_injective heq
    rw [utf8Bytes_append, utf8Bytes_append, List.append_cancel_left_eq] at hbytes
    exact absurd hbytes (by decide +kernel)
  have hlist : HasFile (onePackage package steps) (utf8Bytes package ++ utf8Bytes ".list")
      (toStringLossy (SystemCheck.contentOf steps)).toList := by
    rw [← utf8Bytes_append]
    refine ⟨⟨_, onePackage_listing package steps, ⟨utf8Bytes (package ++ ".list"), .file⟩, List.mem_cons_self, rfl⟩, _,
      steps, if_pos rfl, rfl, rfl, rfl⟩
  have hsums : ∃ text, HasFile (onePackage package steps) (utf8Bytes package ++ utf8Bytes ".md5sums") text ∧
      ∃ r ∈ parseMd5sums text [], r.path = listedTarget := by
    rw [← utf8Bytes_append]
    refine ⟨_, ⟨⟨_, onePackage_listing package steps, ⟨utf8Bytes (package ++ ".md5sums"), .file⟩,
      List.mem_cons_of_mem _ List.mem_cons_self, rfl⟩, _, _, (if_neg hne).trans (if_pos rfl), rfl, rfl, rfl⟩, ?_⟩
    decide +kernel
  obtain ⟨text, hfile, r, hr, hpath⟩ := hsums
  exact ⟨utf8Bytes package, listedTarget, r.digest, _, text, Or.inl rfl, hlist, hline, hfile,
    recordsSum_iff.mpr ⟨r, hr, hpath, rfl⟩⟩

/-- The target has no record, and nothing is said about it. -/
def SilentlyLost (root : Root) : Prop :=
  (dpkgRecords root [listedTarget] false running started).1 = [] ∧
    (dpkgRecords root [listedTarget] false running started).2.run.isPartial = false ∧
    (dpkgRecords root [listedTarget] false running started).2.run.notes = [] ∧
    (dpkgRecords root [listedTarget] false running started).2.issues = []

instance (root : Root) : Decidable (SilentlyLost root) := inferInstanceAs (Decidable (_ ∧ _ ∧ _ ∧ _))

theorem SilentlyLost.not_covered {root : Root} (h : SilentlyLost root)
    (hrecordable : Recordable root [listedTarget] listedTarget) :
    ¬ Covered root [listedTarget] (dpkgRecords root [listedTarget] false running started).1 := by
  intro hcovered
  obtain ⟨r, hone, -⟩ := hcovered.one listedTarget List.mem_cons_self hrecordable
  rw [h.1] at hone
  cases hone

/-- A list that fails after its first part -/
def failingSteps : List ReadStep := listSteps ++ [.failed (.other "Input/output error (os error 5)")]

/-- A package whose own name ends in `.list`, and one whose list cannot be read to its end. -/
theorem target_silently_lost :
    (SilentlyLost (onePackage "x.list" listSteps) ∧
      ¬ Covered (onePackage "x.list" listSteps) [listedTarget]
        (dpkgRecords (onePackage "x.list" listSteps) [listedTarget] false running started).1) ∧
    SilentlyLost (onePackage "coreutils" failingSteps) ∧
      ¬ Covered (onePackage "coreutils" failingSteps) [listedTarget]
        (dpkgRecords (onePackage "coreutils" failingSteps) [listedTarget] false running started).1 := by
  have hname : SilentlyLost (onePackage "x.list" listSteps) := by decide +kernel
  have herror : SilentlyLost (onePackage "coreutils" failingSteps) := by decide +kernel
  refine ⟨⟨hname, hname.not_covered ?_⟩, herror, herror.not_covered ?_⟩
  · apply onePackage_recordable
    decide +kernel
  · apply onePackage_recordable
    decide +kernel

end AbyssalWarden.Packages

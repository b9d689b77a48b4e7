import AbyssalWarden.BundleNames

/-! Recovery from an interrupted update, and what it does to the directories of other bundles: whose
a staging or a set-aside directory is, is told from the beginning of its name. -/
namespace AbyssalWarden

section Recovery

variable {d d' : ContentDir} {n m x name : String} {names : List String}

/-! ### Whose a directory is -/

def StagedFor (bundle x : String) : Prop :=
  ∃ b, b.length = 8 ∧ x = stagingPrefix bundle ++ randomSuffix b

def SetAsideFor (bundle x : String) : Prop :=
  ∃ b, b.length = 8 ∧ x = oldPrefix bundle ++ randomSuffix b

/-- The names of a bundle's directories: its target, and what its updates staged and set aside. -/
def OwnedBy (bundle x : String) : Prop := x = bundle ∨ StagedFor bundle x ∨ SetAsideFor bundle x

/-- A directory, or a link to one. -/
def ContentDir.IsDir (d : ContentDir) (x : String) : Prop :=
  ∃ content, d[x]?.bind Entry.resolve = some (.dir content)

/-- The recovery of `n` gives the directory `x` its name. -/
def PutBack (d : ContentDir) (n x : String) : Prop :=
  d.exists? n = false ∧ (recover d n)[x]? = none ∧ (recover d n)[n]? = d[x]?

/-- The recovery of `n` keeps to the directories of its bundle: those of `m` stay, and a missing
target comes back from what was set aside for `n`. -/
structure RecoversOwn (d : ContentDir) (n m : String) : Prop where
  kept : ∀ x, OwnedBy m x → d.IsDir x → (recover d n)[x]? = d[x]?
  not_installed : ∀ x, SetAsideFor m x → d.IsDir x → ¬ PutBack d n x
  restored : d.exists? n = false → (∃ x, SetAsideFor n x ∧ d.IsDir x) →
    ∃ x, SetAsideFor n x ∧ d.IsDir x ∧ (recover d n)[n]? = d[x]?

/-- No directory of `m` has a name that begins as those staged or set aside for `n` do. Where `n` is
to be put back, the last of the names that begin so is that of a directory set aside for `n`, and a
broken link under the name `n` stands in the way of none but a link. -/
structure Unambiguous (d : ContentDir) (n m : String) : Prop where
  apart : ∀ x, OwnedBy m x → d.IsDir x →
    ¬ (stagingPrefix n).toList <+: x.toList ∧ ¬ (oldPrefix n).toList <+: x.toList
  last : d.exists? n = false → (∃ x, SetAsideFor n x ∧ d.IsDir x) →
    ∀ l, (d.startingWith (oldPrefix n)).getLast? = some l →
      (∃ x, SetAsideFor n x ∧ d.IsDir x ∧ d[x]? = d[l]?) ∧
        (d[n]? = none ∨ ∃ target, d[l]? = some (.link target))

/-! ### The names -/

theorem mem_startingWith {start : String} :
    x ∈ d.startingWith start ↔ d[x]?.isSome ∧ start.toList <+: x.toList := by
  rw [ContentDir.startingWith, List.mem_filter, Std.ExtTreeMap.mem_keys,
    Std.ExtTreeMap.mem_iff_isSome_getElem?, List.isPrefixOf_iff_prefix]

theorem SetAsideFor.starts (h : SetAsideFor n x) : (oldPrefix n).toList <+: x.toList := by
  obtain ⟨b, _, hx⟩ := h
  rw [hx, String.toList_append]
  exact List.prefix_append _ _

/-- A name begins with only one of the two prefixes. -/
theorem not_both_prefixes (h : (oldPrefix n).toList <+: x.toList) :
    ¬ (stagingPrefix n).toList <+: x.toList := by
  intro hstaging
  obtain ⟨u, hu⟩ := h
  obtain ⟨v, hv⟩ := hstaging
  have heq := hu.trans hv.symm
  simp [oldPrefix, stagingPrefix, String.toList_append] at heq

theorem ContentDir.IsDir.isSome (h : d.IsDir x) : d[x]?.isSome := by
  obtain ⟨content, h⟩ := h
  cases hx : d[x]? with
  | none => rw [hx] at h; cases h
  | some e => rfl

theorem ContentDir.IsDir.not_file (h : d.IsDir x) : ∀ data, d[x]? ≠ some (.plain (.file data)) := by
  intro data hx
  obtain ⟨content, h⟩ := h
  rw [hx] at h
  cases h

theorem ContentDir.IsDir.exists? (h : d.IsDir x) : d.exists? x = true := by
  obtain ⟨content, h⟩ := h
  rw [ContentDir.exists?, h]
  exact Bool.or_true _

/-! ### What is removed -/

theorem foldl_removeDirAll_none (h : d[x]? = none) : (names.foldl ContentDir.removeDirAll d)[x]? = none := by
  rcases foldl_removeDirAll_get_or d x names with hnone | hsame
  · exact hnone
  · rw [hsame, h]

theorem foldl_removeDirAll_gone (hx : x ∈ names) (h : ∀ data, d[x]? ≠ some (.plain (.file data))) :
    (names.foldl ContentDir.removeDirAll d)[x]? = none := by
  induction names generalizing d with
  | nil => exact absurd hx List.not_mem_nil
  | cons name names ih =>
    rw [List.foldl_cons]
    by_cases heq : x = name
    · apply foldl_removeDirAll_none
      rw [← heq]
      exact removeDirAll_get_eq h
    · apply ih ((List.mem_cons.mp hx).resolve_left heq)
      rw [removeDirAll_get_ne heq]
      exact h

/-- The directory once the staging directories are gone. -/
def unstaged (d : ContentDir) (n : String) : ContentDir :=
  (d.startingWith (stagingPrefix n)).foldl ContentDir.removeDirAll d

theorem unstaged_get (h : ¬ (stagingPrefix n).toList <+: x.toList) : (unstaged d n)[x]? = d[x]? :=
  foldl_removeDirAll_get fun hx => h (mem_startingWith.mp hx).2

theorem unstaged_gone (hdir : d.IsDir x) (h : (stagingPrefix n).toList <+: x.toList) :
    (unstaged d n)[x]? = none :=
  foldl_removeDirAll_gone (mem_startingWith.mpr ⟨hdir.isSome, h⟩) hdir.not_file

theorem bundle_not_staged : ¬ (stagingPrefix n).toList <+: n.toList := by
  intro h
  have hlength := length_stagingPrefix n
  have hle := h.length_le
  omega

theorem bundle_not_aside : ¬ (oldPrefix n).toList <+: n.toList := by
  intro h
  have hlength := length_oldPrefix n
  have hle := h.length_le
  omega

theorem unstaged_exists : (unstaged d n).exists? n = d.exists? n := by
  rw [ContentDir.exists?, unstaged_get bundle_not_staged]
  rfl

/-- The cases of the recovery: nothing was set aside; the target is there, or what was set aside
last cannot take its name, and all is removed; or that is renamed and the rest removed. -/
theorem recover_cases (d : ContentDir) (n : String) :
    (d.startingWith (oldPrefix n) = [] ∧ recover d n = unstaged d n) ∨
    ((d.exists? n = true ∨ ∃ l e, (d.startingWith (oldPrefix n)).getLast? = some l ∧
        (unstaged d n).rename l n = .error e) ∧
      recover d n = (d.startingWith (oldPrefix n)).foldl ContentDir.removeDirAll (unstaged d n)) ∨
    ∃ l d₁, d.exists? n = false ∧ (d.startingWith (oldPrefix n)).getLast? = some l ∧
      (unstaged d n).rename l n = .ok d₁ ∧
      recover d n = ((d.startingWith (oldPrefix n)).filter (· ≠ l)).foldl ContentDir.removeDirAll d₁ := by
  cases hlast : (d.startingWith (oldPrefix n)).getLast? with
  | none =>
    refine .inl ⟨List.getLast?_eq_none_iff.mp hlast, ?_⟩
    simp only [recover, hlast]
    rfl
  | some l =>
    -- what was set aside takes the name back only where there is no bundle
    cases hex : d.exists? n with
    | true =>
      refine .inr (.inl ⟨.inl rfl, ?_⟩)
      have hex' := (unstaged_exists (d := d) (n := n)).trans hex
      simp only [unstaged] at hex' ⊢
      simp only [recover, hlast, hex', if_true]
    | false =>
      have hex' := (unstaged_exists (d := d) (n := n)).trans hex
      cases hren : (unstaged d n).rename l n with
      | error e =>
        refine .inr (.inl ⟨.inr ⟨l, e, rfl, hren⟩, ?_⟩)
        simp only [unstaged] at hex' hren ⊢
        simp only [recover, hlast, hex', hren, Bool.false_eq_true, if_false]
      | ok d₁ =>
        refine .inr (.inr ⟨l, d₁, rfl, rfl, hren, ?_⟩)
        simp only [unstaged] at hex' hren
        simp only [recover, hlast, hex', hren, Bool.false_eq_true, if_false]

/-- What begins with neither prefix stays. -/
theorem recover_get_of_apart (hstaging : ¬ (stagingPrefix n).toList <+: x.toList)
    (hold : ¬ (oldPrefix n).toList <+: x.toList) (hx : x ≠ n ∨ d.exists? n = true) :
    (recover d n)[x]? = d[x]? := by
  have hnot : x ∉ d.startingWith (oldPrefix n) := fun hmem => hold (mem_startingWith.mp hmem).2
  obtain ⟨_, hrec⟩ | ⟨_, hrec⟩ | ⟨l, d₁, hex, hlast, hren, hrec⟩ := recover_cases d n
  · rw [hrec, unstaged_get hstaging]
  · rw [hrec, foldl_removeDirAll_get hnot, unstaged_get hstaging]
  · have hxn : x ≠ n := hx.resolve_right (by rw [hex]; simp)
    have hxl : x ≠ l := fun heq => hnot (heq ▸ List.mem_of_getLast? hlast)
    rw [hrec, foldl_removeDirAll_get fun hmem => hnot (List.mem_filter.mp hmem).1,
      rename_get hren hxl hxn, unstaged_get hstaging]

/-- A directory that begins with one of the prefixes is gone. -/
theorem recover_gone (hdir : d.IsDir x)
    (h : (stagingPrefix n).toList <+: x.toList ∨ (oldPrefix n).toList <+: x.toList) :
    (recover d n)[x]? = none := by
  have hxn : x ≠ n := by
    intro heq
    rw [heq] at h
    exact h.elim bundle_not_staged bundle_not_aside
  -- it went as a staging directory, or it is one of those set aside
  have hleft : (unstaged d n)[x]? = none ∨
      x ∈ d.startingWith (oldPrefix n) ∧ ∀ data, (unstaged d n)[x]? ≠ some (.plain (.file data)) := by
    rcases h with hstaging | hold
    · exact .inl (unstaged_gone hdir hstaging)
    · refine .inr ⟨mem_startingWith.mpr ⟨hdir.isSome, hold⟩, ?_⟩
      rw [unstaged_get (not_both_prefixes hold)]
      exact hdir.not_file
  obtain ⟨hnil, hrec⟩ | ⟨_, hrec⟩ | ⟨l, d₁, _, hlast, hren, hrec⟩ := recover_cases d n
  · rw [hrec]
    refine hleft.resolve_right fun hmem => ?_
    rw [hnil] at hmem
    exact absurd hmem.1 List.not_mem_nil
  · rw [hrec]
    rcases hleft with hnone | ⟨hmem, hfile⟩
    · exact foldl_removeDirAll_none hnone
    · exact foldl_removeDirAll_gone hmem hfile
  · rw [hrec]
    -- the last one set aside is moved back, and the others are removed
    by_cases hxl : x = l
    · apply foldl_removeDirAll_none
      rw [hxl] at hxn ⊢
      exact rename_get_source hren hxn
    · have hsame : d₁[x]? = (unstaged d n)[x]? := rename_get hren hxl hxn
      rcases hleft with hnone | ⟨hmem, hfile⟩
      · exact foldl_removeDirAll_none (hsame.trans hnone)
      · apply foldl_removeDirAll_gone (List.mem_filter.mpr ⟨hmem, by simpa using hxl⟩)
        rw [hsame]
        exact hfile

/-! ### What comes back -/

/-- A missing target comes back from the name that was set aside last, if that can be renamed. -/
theorem recover_target {l : String} (hex : d.exists? n = false)
    (hlast : (d.startingWith (oldPrefix n)).getLast? = some l) :
    ((∃ d₁, (unstaged d n).rename l n = .ok d₁) ∧ (recover d n)[n]? = d[l]?) ∨
      ((∃ e, (unstaged d n).rename l n = .error e) ∧ (recover d n)[n]? = d[n]?) := by
  have hnot : n ∉ d.startingWith (oldPrefix n) := fun hmem => bundle_not_aside (mem_startingWith.mp hmem).2
  have hlmem := mem_startingWith.mp (List.mem_of_getLast? hlast)
  obtain ⟨hnil, _⟩ | ⟨hwhy, hrec⟩ | ⟨l', d₁, _, hlast', hren, hrec⟩ := recover_cases d n
  · rw [hnil] at hlast
    cases hlast
  · obtain hthere | ⟨l', e, hlast', hren⟩ := hwhy
    · rw [hex] at hthere
      cases hthere
    · rw [hlast] at hlast'
      rw [← Option.some.inj hlast'] at hren
      refine .inr ⟨⟨e, hren⟩, ?_⟩
      rw [hrec, foldl_removeDirAll_get hnot, unstaged_get bundle_not_staged]
  · rw [hlast] at hlast'
    rw [← Option.some.inj hlast'] at hren hrec
    refine .inl ⟨⟨d₁, hren⟩, ?_⟩
    rw [hrec, foldl_removeDirAll_get fun hmem => hnot (List.mem_filter.mp hmem).1,
      rename_get_target hren, unstaged_get (not_both_prefixes hlmem.2)]

/-- What is missing is not there at all, or is a broken link. -/
theorem missing_cases (hex : d.exists? n = false) : d[n]? = none ∨ d[n]? = some (.link none) := by
  rw [ContentDir.exists?, Bool.or_eq_false_iff] at hex
  cases hn : d[n]? with
  | none => exact .inl rfl
  | some e =>
    rw [hn] at hex
    cases e with
    | plain p => exact absurd hex.2 (by simp [Entry.resolve])
    | link target =>
      cases target with
      | none => exact .inr rfl
      | some p => exact absurd hex.2 (by simp [Entry.resolve])

/-- A directory, or a link to one, takes the name of a missing target just when nothing has it, or
the link replaces a broken one. -/
theorem rename_missing_iff {l : String} (hex : d.exists? n = false)
    (hl : (oldPrefix n).toList <+: l.toList) (hdir : d.IsDir l) :
    (∃ d₁, (unstaged d n).rename l n = .ok d₁) ↔ d[n]? = none ∨ ∃ target, d[l]? = some (.link target) := by
  have hdots : dotName n = false := by
    rw [ContentDir.exists?, Bool.or_eq_false_iff] at hex
    exact hex.1
  have hldots : dotName l = false := by
    apply not_dotName_of_prefix (oldPrefix n) _ hl
    simp [oldPrefix, String.toList_append]
  have hlget : (unstaged d n)[l]? = d[l]? := unstaged_get (not_both_prefixes hl)
  have hnget : (unstaged d n)[n]? = d[n]? := unstaged_get bundle_not_staged
  rw [ContentDir.rename, hldots, hdots, hlget, hnget]
  simp only [Bool.or_self, Bool.false_eq_true, if_false]
  obtain ⟨content, hcontent⟩ := hdir
  cases hentry : d[l]? with
  | none => rw [hentry] at hcontent; cases hcontent
  | some e =>
    -- a target that is missing has no entry or is a broken link
    rcases missing_cases hex with hnone | hlink
    · rw [hnone]
      cases e <;> simp
    · rw [hlink]
      cases e with
      | link target => simp
      | plain p =>
        cases p with
        | dir content => simp
        | file data => rw [hentry] at hcontent; cases hcontent

/-! ### The claim of each bundle -/

/-- The recovery of `n` keeps to the directories of its bundle just when their names are told apart
from those of `m`, and the name that was set aside last can be put back. -/
theorem recovers_own_iff (d : ContentDir) (n m : String) : RecoversOwn d n m ↔ Unambiguous d n m := by
  constructor
  · intro h
    -- the recovery removes what it takes for its own staging and old directories
    refine ⟨fun x hx hdir => ?_, fun hex hset l hlast => ?_⟩
    · have hgone (hpre : (stagingPrefix n).toList <+: x.toList ∨ (oldPrefix n).toList <+: x.toList) :
          False := by
        have hkept := h.kept x hx hdir
        rw [recover_gone hdir hpre] at hkept
        have hsome := hdir.isSome
        rw [← hkept] at hsome
        cases hsome
      exact ⟨fun hpre => hgone (.inl hpre), fun hpre => hgone (.inr hpre)⟩
    · obtain ⟨x, hx, hdir, hback⟩ := h.restored hex hset
      have hlmem := (mem_startingWith.mp (List.mem_of_getLast? hlast)).2
      -- the last name set aside was put back, or it was none that can be
      rcases recover_target hex hlast with ⟨hok, htarget⟩ | ⟨_, htarget⟩
      · have hsame : d[x]? = d[l]? := hback.symm.trans htarget
        have hldir : d.IsDir l := by
          obtain ⟨content, hcontent⟩ := hdir
          exact ⟨content, by rw [← hsame, hcontent]⟩
        exact ⟨⟨x, hx, hdir, hsame⟩, (rename_missing_iff hex hlmem hldir).mp hok⟩
      · have hndir : d.IsDir n := by
          obtain ⟨content, hcontent⟩ := hdir
          exact ⟨content, by rw [← htarget, hback, hcontent]⟩
        rw [hndir.exists?] at hex
        cases hex
  · intro h
    -- names that are told apart are left alone
    have hkept (x : String) (hx : OwnedBy m x) (hdir : d.IsDir x) : (recover d n)[x]? = d[x]? := by
      obtain ⟨hstaging, hold⟩ := h.apart x hx hdir
      apply recover_get_of_apart hstaging hold
      by_cases heq : x = n
      · exact .inr (heq ▸ hdir.exists?)
      · exact .inl heq
    refine ⟨hkept, fun x hx hdir hback => ?_, fun hex hset => ?_⟩
    · have hsome := hdir.isSome
      rw [← hkept x (.inr (.inr hx)) hdir, hback.2.1] at hsome
      cases hsome
    · obtain ⟨x, hx, hdir⟩ := hset
      have hmem : x ∈ d.startingWith (oldPrefix n) := mem_startingWith.mpr ⟨hdir.isSome, hx.starts⟩
      cases hlast : (d.startingWith (oldPrefix n)).getLast? with
      | none =>
        rw [List.getLast?_eq_none_iff.mp hlast] at hmem
        exact absurd hmem List.not_mem_nil
      | some l =>
        obtain ⟨⟨x', hx', hdir', hsame⟩, hfree⟩ := h.last hex ⟨x, hx, hdir⟩ l hlast
        have hlmem := (mem_startingWith.mp (List.mem_of_getLast? hlast)).2
        have hldir : d.IsDir l := by
          obtain ⟨content, hcontent⟩ := hdir'
          exact ⟨content, by rw [← hsame, hcontent]⟩
        obtain ⟨d₁, hok⟩ := (rename_missing_iff hex hlmem hldir).mpr hfree
        rcases recover_target hex hlast with ⟨_, htarget⟩ | ⟨⟨e, herr⟩, _⟩
        · exact ⟨x', hx', hdir', htarget.trans hsame.symm⟩
        · rw [hok] at herr
          cases herr

/-- What an update of `base-rules` set aside, when its target and that of `base` are missing. -/
def setAsideOther : ContentDir :=
  (∅ : ContentDir).insert ".old-base-rules-0123456789abcdef" (.plain (.dir (dirOf [(manifestFile, [])])))

/-- The recovery of `base` installs what was set aside for `base-rules`. -/
theorem recover_takes_other :
    validName "base" = true ∧ validName "base-rules" = true ∧
      SetAsideFor "base-rules" ".old-base-rules-0123456789abcdef" ∧
      PutBack setAsideOther "base" ".old-base-rules-0123456789abcdef" ∧
      ¬ RecoversOwn setAsideOther "base" "base-rules" := by
  have hset : SetAsideFor "base-rules" ".old-base-rules-0123456789abcdef" :=
    ⟨[0x01, 0x23, 0x45, 0x67, 0x89, 0xAB, 0xCD, 0xEF], rfl, by decide⟩
  have hdir : setAsideOther.IsDir ".old-base-rules-0123456789abcdef" :=
    ⟨dirOf [(manifestFile, [])], by rw [setAsideOther, get_insert, if_pos rfl]; rfl⟩
  have hlast : (setAsideOther.startingWith (oldPrefix "base")).getLast? =
      some ".old-base-rules-0123456789abcdef" := by decide
  have hmissing : setAsideOther.exists? "base" = false := by
    rw [ContentDir.exists?, setAsideOther, get_insert, if_neg (by decide)]
    rfl
  have hgone := recover_gone (n := "base") hdir (.inr (by decide))
  have hback : PutBack setAsideOther "base" ".old-base-rules-0123456789abcdef" := by
    refine ⟨hmissing, hgone, ?_⟩
    rcases recover_target hmissing hlast with ⟨_, htarget⟩ | ⟨⟨e, herror⟩, _⟩
    · exact htarget
    · obtain ⟨d₁, hok⟩ := (rename_missing_iff hmissing (by decide) hdir).mpr
        (.inl (by rw [setAsideOther, get_insert, if_neg (by decide)]; rfl))
      rw [hok] at herror
      cases herror
  exact ⟨by decide, by decide, hset, hback, fun hown => hown.not_installed _ hset hdir hback⟩

end Recovery

end AbyssalWarden

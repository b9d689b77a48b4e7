import AbyssalWarden.SddlReading

/-! Which security descriptors are read exactly as they are printed, so that no access they grant is missed. -/
namespace AbyssalWarden

namespace Sddl

variable {flags : List AceFlag} {f : AceFlag} {text : DescriptorText} {ace : AceText} {aces : List AceText}
  {trusted : List String} {rights : ℕ} {d : Descriptor} {who : String}

/-! ### The letters of the flags -/

/-- Two codes between which the letters `IO` stand: the first ends in `I`, and only `OI` starts with `O`. -/
def Straddled (flags : List AceFlag) : Prop := [.ci, .oi] <:+: flags ∨ [.oi, .oi] <:+: flags

instance (flags : List AceFlag) : Decidable (Straddled flags) := inferInstanceAs (Decidable (_ ∨ _))

theorem prefix_first : "IO".toList <+: f.first :: f.second :: flagsText flags ↔ AceFlag.io = f := by
  have hio : "IO".toList = ['I', 'O'] := by decide
  rw [hio, List.cons_prefix_cons, List.cons_prefix_cons]
  cases f
  all_goals simp [AceFlag.first, AceFlag.second]

theorem prefix_second : "IO".toList <+: f.second :: flagsText flags ↔
    [.ci, .oi] <+: f :: flags ∨ [.oi, .oi] <+: f :: flags := by
  have hio : "IO".toList = ['I', 'O'] := by decide
  rw [hio]
  cases flags with
  | nil => simp [flagsText]
  | cons g flags =>
    have htext : flagsText (g :: flags) = g.first :: g.second :: flagsText flags := rfl
    rw [htext]
    simp only [List.cons_prefix_cons, List.nil_prefix, and_true]
    cases f
    all_goals
      cases g
      all_goals simp [AceFlag.first, AceFlag.second]

/-- The letters `IO` stand in the flags as a code, or where two codes meet. -/
theorem io_infix_iff : "IO".toList <:+: flagsText flags ↔ AceFlag.io ∈ flags ∨ Straddled flags := by
  induction flags with
  | nil =>
    have hleft : ¬ "IO".toList <:+: flagsText [] := by decide
    have hright : ¬ (AceFlag.io ∈ [] ∨ Straddled []) := by decide
    exact iff_of_false hleft hright
  | cons f flags ih =>
    have htext : flagsText (f :: flags) = f.first :: f.second :: flagsText flags := rfl
    rw [htext, List.infix_cons_iff, List.infix_cons_iff, prefix_first, prefix_second, ih, List.mem_cons, Straddled,
      Straddled, List.infix_cons_iff, List.infix_cons_iff]
    tauto

/-! ### What is granted to others -/

/-- The entry of the list of others that an entry of the DACL makes. -/
def otherOf (d : Descriptor) (rights : ℕ) (trusted : List String) (ace : Ace) : Option String :=
  if ace.allow = false ∨ ace.inheritOnly = true ∨ ace.mask &&& rights = 0 then none
  else if d.effective ace ∈ trusted.map normalizeSid then none
  else some (d.effective ace)

theorem grantedToOthers_eq {dacl : List Ace} (h : d.dacl = some dacl) :
    grantedToOthers d rights trusted = collectNew (otherOf d rights trusted) dacl := by
  have hstep : (fun (out : List String) (ace : Ace) =>
      if ace.allow = false ∨ ace.inheritOnly = true ∨ ace.mask &&& rights = 0 then out
      else if d.effective ace ∈ trusted.map normalizeSid ∨ d.effective ace ∈ out then out
      else out ++ [d.effective ace]) = fun out ace => (otherOf d rights trusted ace).elim out (pushNew out) := by
    funext out ace
    unfold otherOf pushNew
    split_ifs
    all_goals first | rfl | simp_all
  rw [grantedToOthers, h, collectNew, ← hstep]

/-- Everyone whom an entry grants something to is listed. -/
theorem mem_grantedToOthers {dacl : List Ace} (h : d.dacl = some dacl) : who ∈ grantedToOthers d rights trusted ↔
    ∃ ace ∈ dacl, ace.allow = true ∧ ace.inheritOnly = false ∧ ace.mask &&& rights ≠ 0 ∧
      d.effective ace = who ∧ who ∉ trusted.map normalizeSid := by
  rw [grantedToOthers_eq h, mem_collectNew]
  apply exists_congr
  intro ace
  apply and_congr_right
  intro _
  unfold otherOf
  -- an entry is skipped, or it is for someone trusted, or it counts
  split_ifs with hskip htrusted
  · simp only [false_iff]
    rintro ⟨hallow, hinherit, hmask, -⟩
    rcases hskip with hskip | hskip | hskip
    · simp [hallow] at hskip
    · simp [hinherit] at hskip
    · exact hmask hskip
  · simp only [false_iff]
    rintro ⟨-, -, -, rfl, huntrusted⟩
    exact huntrusted htrusted
  · push Not at hskip
    rw [Option.some.injEq]
    constructor
    · rintro rfl
      exact ⟨by simpa using hskip.1, by simpa using hskip.2.1, hskip.2.2, rfl, htrusted⟩
    · exact fun h => h.2.2.2.1

/-! ### Printed descriptors -/

/-- An entry of what is printed grants some of `rights` on the object itself, and to someone not trusted: OWNER RIGHTS
counts for the owner. -/
structure AceText.GrantsOther (ace : AceText) (text : DescriptorText) (rights : ℕ) (trusted : List String) (who : String) :
    Prop where
  mem : ∃ aces, text.dacl = some aces ∧ ace ∈ aces
  allows : ace.type.allows = true
  effective : AceFlag.io ∉ ace.flags
  granted : ace.rights.mask &&& rights ≠ 0
  who_eq : (if ace.sid.normal = ownerRights then (text.owner.map Principal.normal).getD ownerRights else ace.sid.normal) =
    who
  untrusted : who ∉ trusted.map normalizeSid

/-- Everyone who is not trusted and has access is reported. -/
structure DescriptorText.Reported (text : DescriptorText) : Prop where
  granted : ∀ (ace : AceText) rights trusted who, ace.GrantsOther text rights trusted who →
    ∃ d, parse text.text = .ok d ∧ who ∈ grantedToOthers d rights trusted
  checkPrivate : ∀ (ace : AceText) trusted who, ace.GrantsOther text (2^32 - 1) trusted who →
    ∃ others, who ∈ others ∧ checkPrivate text.text trusted = some (.error
      (if DaclFlag.p ∈ text.flags then "other principals have access: " ++ ", ".intercalate others
      else "the DACL inherits from the parent directory"))
  checkWriteRestricted : ∀ (ace : AceText) trusted who, ace.GrantsOther text writeRights trusted who →
    ∃ others, who ∈ others ∧ checkWriteRestricted text.text trusted =
      some (.error ("writable by " ++ ", ".intercalate others))

/-- No entry has the letters `IO` where two of its flags meet, unless `IO` is among them. -/
def DescriptorText.Unstraddled (text : DescriptorText) : Prop :=
  ∀ aces ∈ text.dacl, ∀ ace ∈ aces, AceFlag.io ∈ ace.flags ∨ ¬ Straddled ace.flags

theorem read_eq_meaning_iff : ace.read = ace.meaning ↔ AceFlag.io ∈ ace.flags ∨ ¬ Straddled ace.flags := by
  have hflags : decide ("IO".toList <:+: flagsText ace.flags) = decide (AceFlag.io ∈ ace.flags) ↔
      (AceFlag.io ∈ ace.flags ∨ Straddled ace.flags ↔ AceFlag.io ∈ ace.flags) := by
    rw [decide_eq_decide, io_infix_iff]
  rw [AceText.read, AceText.meaning, Ace.mk.injEq, hflags]
  tauto

/-- What is read of a descriptor is what it says if its flags are told apart. -/
theorem readText_eq_meaning_iff : text.read = text.meaning ↔ text.Unstraddled := by
  have hdacl : text.read = text.meaning ↔ text.readDacl = text.meaning.dacl := by
    rw [DescriptorText.read, DescriptorText.meaning, Descriptor.mk.injEq]
    simp
  rw [hdacl, DescriptorText.Unstraddled, DescriptorText.readDacl, DescriptorText.meaning]
  cases text.dacl with
  | none => simp
  | some aces =>
    simp only [Option.map_some, Option.some.injEq, List.map_inj_left, read_eq_meaning_iff, Option.mem_def, forall_eq']

theorem AceText.GrantsOther.listed (h : ace.GrantsOther text rights trusted who) :
    who ∈ grantedToOthers text.meaning rights trusted := by
  obtain ⟨aces, haces, hmem⟩ := h.mem
  have hdacl : text.meaning.dacl = some (aces.map AceText.meaning) := by
    rw [DescriptorText.meaning, haces, Option.map_some]
  exact (mem_grantedToOthers hdacl).mpr ⟨ace.meaning, List.mem_map_of_mem hmem, h.allows,
    decide_eq_false h.effective, h.granted, h.who_eq, h.untrusted⟩

/-- Where everything is read, everyone is reported. -/
theorem reported_of_parse (h : parse text.text = .ok text.meaning) : text.Reported where
  granted ace rights trusted who hgrants := ⟨text.meaning, h, hgrants.listed⟩
  checkPrivate ace trusted who hgrants := by
    have hlisted := hgrants.listed
    have hne : grantedToOthers text.meaning (2^32 - 1) trusted ≠ [] := List.ne_nil_of_mem hlisted
    refine ⟨grantedToOthers text.meaning (2^32 - 1) trusted, hlisted, ?_⟩
    rw [Sddl.checkPrivate, checked, h]
    by_cases hp : DaclFlag.p ∈ text.flags
    · have hprotected : ¬ text.meaning.isProtected = false := by simp [DescriptorText.meaning, hp]
      simp only [if_neg hprotected, if_neg hne, if_pos hp]
    · have hprotected : text.meaning.isProtected = false := by simp [DescriptorText.meaning, hp]
      simp only [if_pos hprotected, if_neg hp]
  checkWriteRestricted ace trusted who hgrants := by
    have hlisted := hgrants.listed
    have hmem : who ∈ grantedToOthers text.meaning writeRights trusted ++
        untrustedOwner text.meaning trusted (grantedToOthers text.meaning writeRights trusted) :=
      List.mem_append_left _ hlisted
    refine ⟨_, hmem, ?_⟩
    rw [Sddl.checkWriteRestricted, checked, h]
    simp only [if_neg (List.ne_nil_of_mem hmem)]

/-- A printed descriptor is read exactly as it says, and everyone with access is reported, exactly when its owner and
group have decimal authorities and no two flags of an entry without `IO` form these letters. -/
theorem access_exact_iff (text : DescriptorText) :
    parse text.text = .ok text.meaning ∧ text.Reported ↔ text.Decimal ∧ text.Unstraddled := by
  constructor
  · rintro ⟨hparse, -⟩
    have hdecimal : text.Decimal := by
      by_contra hhex
      rw [parse_text_hex hhex] at hparse
      cases hparse
    rw [parse_text hdecimal] at hparse
    exact ⟨hdecimal, readText_eq_meaning_iff.mp (Except.ok.inj hparse)⟩
  · rintro ⟨hdecimal, happart⟩
    have hparse : parse text.text = .ok text.meaning := by
      rw [parse_text hdecimal, readText_eq_meaning_iff.mpr happart]
    exact ⟨hparse, reported_of_parse hparse⟩

/-- Full access for everyone, inherited by everything inside. -/
def everyoneText : DescriptorText where
  owner := some (.letters 'S' 'Y' (by decide))
  group := some (.letters 'S' 'Y' (by decide))
  flags := [.p]
  dacl := some [{
    type := .a
    flags := [.ci, .oi]
    rights := .codes [⟨("FA", 0x001f01ff), by decide⟩]
    objectGuid := ⟨[], by decide⟩
    inheritGuid := ⟨[], by decide⟩
    sid := .letters 'W' 'D' (by decide) }]

/-- An entry that grants everyone full access is taken for one that applies to children only. -/
theorem everyone_missed : everyoneText.text = "O:SYG:SYD:P(A;CIOI;FA;;;WD)" ∧
    parse everyoneText.text ≠ .ok everyoneText.meaning ∧
    checkPrivate everyoneText.text [system] = some (.ok ()) := by
  have hdecimal : everyoneText.Decimal := ⟨by decide, by decide⟩
  have hread : everyoneText.read ≠ everyoneText.meaning := by decide
  refine ⟨by decide, ?_, ?_⟩
  · rw [parse_text hdecimal]
    exact fun h => hread (Except.ok.inj h)
  · rw [Sddl.checkPrivate, checked, parse_text hdecimal]
    decide

end Sddl

end AbyssalWarden

import AbyssalWarden.BundleSoundness

/-! Loading one bundle again under another path and with fewer keys: everything but the signatures
is decided by the content of the directory, and of the signers those remain whose keys do. -/
namespace AbyssalWarden

variable {ms : Minisign} {dir dir' : String} {content : BundleDir} {data : Bytes}
  {keys keys' : TrustedKeys ms} {now : OffsetDateTime} {remains : KeyId → Bool}

/-- `keys'` are the keys of `keys` that remain, under the same policy. -/
structure RemainingKeys (keys keys' : TrustedKeys ms) (remains : KeyId → Bool) : Prop where
  verifyRole_iff : ∀ data text path now role id comment,
    keys'.verifyRole data text path now role = .ok (id, comment) ↔
      keys.verifyRole data text path now role = .ok (id, comment) ∧ remains id = true
  requiredSignatures_eq : keys'.requiredSignatures = keys.requiredSignatures
  isEmpty_eq : keys'.isEmpty = keys.isEmpty

theorem readBounded_dir {name : String} {limit : ℕ} :
    readBounded dir content name limit = .ok data ↔ readBounded dir' content name limit = .ok data := by
  unfold readBounded
  cases content.read name with
  | error e => simp
  | ok bytes =>
    dsimp only
    split <;> simp

/-- Which keys are asked has no part in whether the signature files can be read. -/
theorem verifySignature_same {name : String} {acc acc' acc₁ : Signatures}
    (h : verifySignature dir content data keys now acc name = .ok acc')
    (hfound : acc₁.foundAny = acc.foundAny) :
    ∃ acc₁', verifySignature dir' content data keys' now acc₁ name = .ok acc₁' ∧
      acc₁'.foundAny = acc'.foundAny := by
  unfold verifySignature readBounded at h ⊢
  cases hread : content.read name with
  | error e =>
    rw [hread] at h
    cases e with
    | notFound =>
      cases h
      exact ⟨acc₁, rfl, hfound⟩
    | other reason => cases h
  | ok bytes =>
    simp only [hread] at h ⊢
    by_cases hlen : (bytes.take (maxSignatureBytes + 1)).length > maxSignatureBytes
    · rw [if_pos hlen] at h
      cases h
    · rw [if_neg hlen] at h ⊢
      -- a file that is there counts as found, whatever the keys say of it
      have hafter : acc'.foundAny = true := by
        dsimp only at h
        split at h
        · cases h
          rfl
        · split at h
          · split at h <;> cases h <;> rfl
          · cases h
            rfl
      dsimp only
      rw [hafter]
      split
      · exact ⟨_, rfl, rfl⟩
      · split
        · split <;> exact ⟨_, rfl, rfl⟩
        · exact ⟨_, rfl, rfl⟩

theorem verifySignatures_loop_same {names : List String} {acc acc' acc₁ : Signatures}
    (h : checkEach (verifySignature dir content data keys now) acc names = .ok acc')
    (hfound : acc₁.foundAny = acc.foundAny) :
    ∃ acc₁', checkEach (verifySignature dir' content data keys' now) acc₁ names = .ok acc₁' ∧
      acc₁'.foundAny = acc'.foundAny := by
  induction names generalizing acc acc₁ with
  | nil =>
    cases h
    exact ⟨acc₁, rfl, hfound⟩
  | cons name names ih =>
    obtain ⟨acc₂, hname, hrest⟩ := checkEach_cons_eq_ok.mp h
    obtain ⟨acc₃, hname', hfound'⟩ := verifySignature_same hname hfound
    obtain ⟨acc₁', hrest', hfound''⟩ := ih hrest hfound'
    exact ⟨acc₁', checkEach_cons_eq_ok.mpr ⟨acc₃, hname', hrest'⟩, hfound''⟩

theorem RemainingKeys.signedBy_iff (hkeys : RemainingKeys keys keys' remains) {name : String}
    {id : KeyId} : SignedBy dir' content data keys' now name id ↔
      SignedBy dir content data keys now name id ∧ remains id = true := by
  rw [signedBy_iff_verify "", signedBy_iff_verify ""]
  simp only [TrustedKeys.verify, hkeys.verifyRole_iff]
  constructor
  · rintro ⟨sigBytes, text, hread, htext, comment, hver, hid⟩
    exact ⟨⟨sigBytes, text, readBounded_dir.mp hread, htext, comment, hver⟩, hid⟩
  · rintro ⟨⟨sigBytes, text, hread, htext, comment, hver⟩, hid⟩
    exact ⟨sigBytes, text, readBounded_dir.mp hread, htext, comment, hver, hid⟩

/-- The signatures are accepted again exactly when enough of the signers remain. -/
theorem RemainingKeys.verifySignatures_iff (hkeys : RemainingKeys keys keys' remains)
    {signers : List KeyId} (h : verifySignatures dir content data keys now = .ok signers) :
    (∃ signers', verifySignatures dir' content data keys' now = .ok signers') ↔
      keys.requiredSignatures ≤ (signers.filter remains).length := by
  obtain ⟨hnodup, _, hmem⟩ := verifySignatures_eq_ok h
  simp only [verifySignatures, except_bind_eq_ok, refuseIf_eq_ok, exists_const,
    Except.ok.injEq] at h ⊢
  obtain ⟨found, hloop, hany, _⟩ := h
  obtain ⟨found', hloop', hany'⟩ : ∃ found', checkEach (verifySignature dir' content data keys' now)
      ⟨[], [], false⟩ signatureNames = .ok found' ∧ found'.foundAny = found.foundAny :=
    verifySignatures_loop_same hloop rfl
  have hstart : Signatures.Sound dir' content data keys' now [] ⟨[], [], false⟩ :=
    ⟨List.nodup_nil, fun id => by simp⟩
  have hsound := verifySignatures_loop hstart hloop'
  -- the signers found now are those that remain
  have hperm : found'.signers.Perm (signers.filter remains) := by
    rw [List.perm_ext_iff_of_nodup hsound.nodup (hnodup.filter _)]
    intro id
    have hsigned (name : String) : SignedBy dir' content data keys' now name id ↔
        SignedBy dir content data keys now name id ∧ remains id = true := hkeys.signedBy_iff
    rw [hsound.mem_iff, List.mem_filter, hmem, List.nil_append]
    simp only [hsigned]
    tauto
  rw [← hperm.length_eq]
  simp [hloop', hany', hany, hkeys.requiredSignatures_eq]

variable {sha256 : Bytes → Sha256Digest} {parseManifest : Bytes → Except String Manifest}
  {opts : LoadOptions} {b b' : VerifiedBundle}

/-- The release is what the directory says, whatever keys it is verified with. -/
theorem loadBundle_same (h : loadBundle sha256 parseManifest dir content keys opts = .ok b)
    (h' : loadBundle sha256 parseManifest dir' content keys' opts = .ok b') :
    b'.manifest = b.manifest ∧ b'.manifestSha256 = b.manifestSha256 := by
  obtain ⟨_, data, hread, _, hparse, _, _, _, _, _, hsha, _⟩ := loadBundle_eq_ok.mp h
  obtain ⟨_, data', hread', _, hparse', _, _, _, _, _, hsha', _⟩ := loadBundle_eq_ok.mp h'
  have hdata : data' = data := Except.ok.inj ((readBounded_dir.mp hread').symm.trans hread)
  rw [hdata, hparse] at hparse'
  rw [hsha, hsha', hdata]
  exact ⟨(Except.ok.inj hparse').symm, rfl⟩

/-- A loaded bundle is loaded again exactly when enough of its signers remain. -/
theorem RemainingKeys.loadBundle_iff (hkeys : RemainingKeys keys keys' remains)
    (h : loadBundle sha256 parseManifest dir content keys opts = .ok b) :
    (∃ b', loadBundle sha256 parseManifest dir' content keys' opts = .ok b') ↔
      keys.requiredSignatures ≤ (b.signers.filter remains).length := by
  obtain ⟨hempty, data, hread, hsig, hparse, hvalid, hallowed, hopen, hfiles, _, hsha, hexpired⟩ :=
    loadBundle_eq_ok.mp h
  have hagain : (∃ signers', verifySignatures dir' content data keys' opts.now = .ok signers') ↔ _ :=
    hkeys.verifySignatures_iff hsig
  rw [← hagain]
  constructor
  · rintro ⟨b', h'⟩
    obtain ⟨_, data', hread', hsig', _⟩ := loadBundle_eq_ok.mp h'
    have hdata : data' = data := Except.ok.inj ((readBounded_dir.mp hread').symm.trans hread)
    subst hdata
    exact ⟨b'.signers, hsig'⟩
  · rintro ⟨signers', hsig'⟩
    refine ⟨{ b with dir := dir', signers := signers' }, loadBundle_eq_ok.mpr ?_⟩
    exact ⟨hkeys.isEmpty_eq.trans hempty, data, readBounded_dir.mp hread, hsig', hparse, hvalid,
      hallowed, hopen, hfiles, rfl, hsha, hexpired⟩

end AbyssalWarden

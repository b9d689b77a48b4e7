import AbyssalWarden.BundleSoundness
import AbyssalWarden.Update

/-! What a scan does with the installed bundles: open the state, verify every bundle with the keys
that are not revoked, check it for rollback, and record all of them. -/
namespace AbyssalWarden

variable {ms : Minisign}

inductive LoadError where
  | state (e : StateError)
  | bundle (e : BundleError)
  | givenTwice (name : String)
  | detectors (reason : String)
  deriving DecidableEq

variable (c : Content ms)

/-- One more directory. Revocations take effect immediately, for later bundles in this run. -/
def loadNext (state : ContentState) (opts : LoadOptions)
    (acc : TrustedKeys ms × List VerifiedBundle) (dir : String × BundleDir) :
    Except LoadError (TrustedKeys ms × List VerifiedBundle) := do
  let (keys, bundles) := acc
  let b ← (loadBundle c.sha256 c.parseManifest dir.1 dir.2 keys opts).mapError .bundle
  refuseIf (∃ o ∈ bundles, o.manifest.name = b.manifest.name) (.givenTwice b.manifest.name)
  (state.check b (keys.minSequence b.manifest.name)).mapError .state
  (c.detectors b).mapError .detectors
  .ok (keys.revokeAll b.manifest.revokeKeys, bundles ++ [b])

/-- Verify every bundle and, when `record` is set, record the accepted sequences. Nothing is
recorded unless every bundle loads. The second component is the state file afterwards. -/
def loadBundles (statePath : String) (dirs : List (String × BundleDir)) (trust : TrustedKeys ms)
    (record : Bool) (opts : LoadOptions) (openFault : Option IoKind)
    (saveFault : Option (SaveStep × IoKind)) (file : Option Bytes) :
    Except LoadError (List VerifiedBundle) × Option Bytes :=
  if dirs = [] then (.ok [], file)
  else
    match ContentState.openState c.codec statePath openFault file with
    | .error e => (.error (.state e), file)
    | .ok state =>
      let keys := trust.revokeAll state.revokedKeys
      match checkEach (loadNext c state opts) (keys, []) dirs with
      | .error e => (.error e, file)
      | .ok (_, bundles) =>
        if record then
          let state := bundles.foldl (fun s b => s.record b opts.now) state
          let (saved, file) := state.save c.codec saveFault file
          (saved.mapError .state >>= fun _ => .ok bundles, file)
        else (.ok bundles, file)

/-! ### Revoked keys -/

/-- No signer of the bundle has a revoked ID. -/
def VerifiedBundle.Unrevoked (revoked : List String) (b : VerifiedBundle) : Prop :=
  ∀ id ∈ b.signers, ∀ r ∈ revoked, eqIgnoreAsciiCase id.toString r = false

theorem loadBundle_unrevoked {dir : String} {content : BundleDir} {keys : TrustedKeys ms}
    {revoked : List String} {opts : LoadOptions} {b : VerifiedBundle} (hkeys : keys.Refuses revoked)
    (h : loadBundle c.sha256 c.parseManifest dir content keys opts = .ok b) :
    b.Unrevoked revoked := by
  intro id hid
  obtain ⟨data, text, path, comment, hver⟩ := loadBundle_signers h id hid
  exact hkeys data text path opts.now .content id comment hver

theorem loadNext_eq_ok {state : ContentState} {opts : LoadOptions} {keys keys' : TrustedKeys ms}
    {bundles bundles' : List VerifiedBundle} {dir : String × BundleDir}
    (h : loadNext c state opts (keys, bundles) dir = .ok (keys', bundles')) :
    ∃ b, loadBundle c.sha256 c.parseManifest dir.1 dir.2 keys opts = .ok b ∧
      state.check b (keys.minSequence b.manifest.name) = .ok () ∧
      bundles' = bundles ++ [b] ∧ keys' = keys.revokeAll b.manifest.revokeKeys := by
  simp only [loadNext, except_bind_eq_ok, mapError_eq_ok, Except.ok.injEq, Prod.mk.injEq] at h
  obtain ⟨b, hload, _, _, _, hcheck, _, _, hkeys, hbundles⟩ := h
  exact ⟨b, hload, hcheck, hbundles.symm, hkeys.symm⟩

/-- Whatever the keys refuse once the state is open signs none of the run's bundles. -/
theorem loadBundles_unrevoked {statePath : String} {dirs : List (String × BundleDir)}
    {trust : TrustedKeys ms} {record : Bool} {opts : LoadOptions} {openFault : Option IoKind}
    {saveFault : Option (SaveStep × IoKind)} {file file' : Option Bytes}
    {bundles : List VerifiedBundle} {revoked : List String}
    (hrefuses : ∀ state, ContentState.openState c.codec statePath openFault file = .ok state →
      (trust.revokeAll state.revokedKeys).Refuses revoked)
    (h : loadBundles c statePath dirs trust record opts openFault saveFault file =
      (.ok bundles, file')) :
    ∀ b ∈ bundles, b.Unrevoked revoked := by
  unfold loadBundles at h
  split at h
  · cases h
    simp
  · cases hopen : ContentState.openState c.codec statePath openFault file with
    | error e =>
      simp only [hopen] at h
      cases h
    | ok state =>
      simp only [hopen] at h
      split at h
      · cases h
      · rename_i keys' bundles₁ hloop
        -- the loop only adds to what the keys refuse, and loads with them
        have hall : keys'.Refuses revoked ∧ ∀ b ∈ bundles₁, b.Unrevoked revoked := by
          refine checkEach_invariant (I := fun acc : TrustedKeys ms × List VerifiedBundle =>
            acc.1.Refuses revoked ∧ ∀ b ∈ acc.2, b.Unrevoked revoked) ?_
            ⟨hrefuses state hopen, by simp⟩ hloop
          rintro ⟨keys₁, done⟩ dir ⟨keys₂, done'⟩ ⟨hkeys, hdone⟩ hnext
          obtain ⟨b, hload, _, rfl, rfl⟩ := loadNext_eq_ok c hnext
          refine ⟨hkeys.revokeAll _, fun b' hb' => ?_⟩
          rcases List.mem_append.mp hb' with hb' | hb'
          · exact hdone b' hb'
          · rw [List.mem_singleton.mp hb']
            exact loadBundle_unrevoked c hkeys hload
        -- saving the state does not change what was loaded
        have heq : bundles = bundles₁ := by
          split at h
          · have hres := congrArg Prod.fst h
            simp only [except_bind_eq_ok, Except.ok.injEq] at hres
            exact hres.choose_spec.2.symm
          · cases h
            rfl
        rw [heq]
        exact hall.2

end AbyssalWarden

import AbyssalWarden.BundleKeys
import AbyssalWarden.StateRecords
import AbyssalWarden.UpdateSteps

/-! Successful updates. What a scan does next with the installed directory succeeds if the release
was downloaded and does not revoke its own signers; a release that is taken for current is only as
good as the directory and the state were. -/
namespace AbyssalWarden

variable {ms : Minisign} {c : Content ms} {opts : UpdateOptions ms} {call : UpdateCall}
  {state : ContentState} {keys : TrustedKeys ms} {ts : Timestamp} {w w' : World}

/-- With the state `d`, a scan loads what is installed under the timestamp's name and `check`
accepts it, and the record of that name is of the timestamp's sequence and the installed
manifest. -/
def Usable (c : Content ms) (opts : UpdateOptions ms) (call : UpdateCall) (ts : Timestamp)
    (d : StateFile) (dir : ContentDir) : Prop :=
  ∃ content b, dir[ts.bundle]?.bind Entry.resolve = some (.dir content) ∧
    loadBundle c.sha256 c.parseManifest (joinPath opts.contentDir ts.bundle) content
      (opts.keys.revokeAll d.revokedKeys.keys) ⟨opts.allowExpired, call.now⟩ = .ok b ∧
    ContentState.check ⟨opts.statePath, d⟩ b (opts.keys.minSequence b.manifest.name) = .ok () ∧
    ∃ r, d.bundles[ts.bundle]? = some r ∧ r.sequence = ts.sequence ∧
      r.manifestSha256 = b.manifestSha256

/-- What update saved is a state with which the installed bundle is usable. -/
def SavedUsable (c : Content ms) (opts : UpdateOptions ms) (call : UpdateCall) (ts : Timestamp)
    (w' : World) : Prop :=
  ∃ d, contents c.codec w'.stateFile = some d ∧ Usable c opts call ts d w'.contentDir

/-- The key is not among those the release revokes. -/
def VerifiedBundle.leaves (b : VerifiedBundle) (id : KeyId) : Bool :=
  b.manifest.revokeKeys.all fun r => eqIgnoreAsciiCase id.toString r = false

/-- A release taken for current is recorded and usable; a release to be downloaded leaves enough of
its signers their keys. -/
def ReadyFor (c : Content ms) (opts : UpdateOptions ms) (call : UpdateCall) (w : World)
    (state : ContentState) (keys : TrustedKeys ms) (ts : Timestamp) : Prop :=
  if alreadyCurrent c (recover w.contentDir ts.bundle) ts then
    Usable c opts call ts state.data (recover w.contentDir ts.bundle)
  else
    ∀ files verified,
      stage c opts call state keys ts (joinPath opts.contentDir (stagingName call ts)) =
        .ok (files, verified) →
      keys.requiredSignatures ≤ (verified.signers.filter verified.leaves).length

/-- Before the call, in the state that it opens and for the timestamp that it accepts. -/
def ReadyToUpdate (c : Content ms) (opts : UpdateOptions ms) (call : UpdateCall) (w : World) : Prop :=
  ∀ state keys ts, checkChannel c opts call w.stateFile = .ok (state, keys, ts) →
    ReadyFor c opts call w state keys ts

theorem usable_recordTimestamp {dir : ContentDir} :
    Usable c opts call ts (state.recordTimestamp ts call.now).data dir ↔
      Usable c opts call ts state.data dir := by
  unfold Usable ContentState.check
  simp only [recordTimestamp_bundles, recordTimestamp_revokedKeys]

theorem requiredSignatures_revokeAll (keys : TrustedKeys ms) (revoked : List String) :
    (keys.revokeAll revoked).requiredSignatures = keys.requiredSignatures := by
  induction revoked generalizing keys with
  | nil => rfl
  | cons r revoked ih => exact ih (keys.revoke r)

theorem minSequence_revokeAll (keys : TrustedKeys ms) (revoked : List String) (name : String) :
    (keys.revokeAll revoked).minSequence name = keys.minSequence name := by
  induction revoked generalizing keys with
  | nil => rfl
  | cons r revoked ih => exact ih (keys.revoke r)

theorem isEmpty_revokeAll (keys : TrustedKeys ms) (revoked : List String) :
    (keys.revokeAll revoked).isEmpty = keys.isEmpty := by
  induction revoked generalizing keys with
  | nil => rfl
  | cons r revoked ih =>
    refine (ih (keys.revoke r)).trans ?_
    simp [TrustedKeys.isEmpty, TrustedKeys.revoke, TrustedKeys.mapKeys]

/-- The keys of the next run are those of this one that the release does not revoke. -/
theorem remainingKeys_record (keys : TrustedKeys ms) (state : ContentState) (b : VerifiedBundle)
    (now : OffsetDateTime) :
    RemainingKeys (keys.revokeAll state.revokedKeys)
      (keys.revokeAll (state.record b now).revokedKeys) b.leaves := by
  refine ⟨?_, ?_, ?_⟩
  · intro data text path now' role id comment
    rw [TrustedKeys.verifyRole_revokeAll, TrustedKeys.verifyRole_revokeAll, record_unrevoked_iff,
      and_assoc]
    simp [VerifiedBundle.leaves]
  · rw [requiredSignatures_revokeAll, requiredSignatures_revokeAll]
  · rw [isEmpty_revokeAll, isEmpty_revokeAll]

/-- What is recorded after a check passes the check again. -/
theorem check_record {b b' : VerifiedBundle} {floor : Option ℕ} {now : OffsetDateTime}
    (hcheck : state.check b floor = .ok ()) (hm : b'.manifest = b.manifest)
    (hsha : b'.manifestSha256 = b.manifestSha256) :
    (state.record b now).check b' floor = .ok () := by
  obtain ⟨r, hr, hseq, hsha'⟩ : ∃ r, (state.record b now).recordFor b.manifest.name = some r ∧
      r.sequence = b.manifest.sequence ∧ r.manifestSha256 = b.manifestSha256 :=
    record_recordFor hcheck
  refine check_eq_ok.mpr ⟨hm ▸ (check_eq_ok.mp hcheck).1, fun r' hr' => .inr ?_⟩
  rw [hm, hr] at hr'
  cases hr'
  rw [hm, hsha]
  exact ⟨hseq, hsha'⟩

/-- What was staged is the release the timestamp names, loaded and checked. -/
theorem stage_eq_ok {staging : String} {files : List (String × Bytes)} {verified : VerifiedBundle}
    (h : stage c opts call state keys ts staging = .ok (files, verified)) :
    loadBundle c.sha256 c.parseManifest staging (dirOf files) keys ⟨opts.allowExpired, call.now⟩ =
      .ok verified ∧
    state.check verified (keys.minSequence verified.manifest.name) = .ok () ∧
    verified.manifest.name = ts.bundle ∧ verified.manifest.sequence = ts.sequence := by
  simp only [stage, except_bind_eq_ok, Except.ok.injEq, Prod.mk.injEq] at h
  obtain ⟨files', hdownload, verified', hverify, rfl, rfl⟩ := h
  simp only [verifyStaged, except_bind_eq_ok, mapError_eq_ok, Except.ok.injEq] at hverify
  obtain ⟨_, _, b, hload, _, hcheck, _, _, _, _, rfl⟩ := hverify
  obtain ⟨data, manifest, rest, rfl, _, _, hparse, hname, hseq⟩ := download_manifest hdownload
  obtain ⟨_, data', hread, _, hparse', _⟩ := loadBundle_eq_ok.mp hload
  have hdata : data = data' :=
    Except.ok.inj (dirOf_read_cons.symm.trans (readBounded_eq_ok hread).1)
  rw [hdata, hparse'] at hparse
  have hmanifest := Except.ok.inj hparse
  exact ⟨hload, hcheck, hmanifest ▸ hname, hmanifest ▸ hseq⟩

/-- A release that was swapped into place is usable exactly when it leaves enough of its signers
their keys. -/
theorem Swapped.usable_iff {d d' dir : ContentDir} {files : List (String × Bytes)}
    {verified : VerifiedBundle} {hadOld : Bool}
    (h : Swapped c opts call state (opts.keys.revokeAll state.revokedKeys) ts d files verified hadOld d')
    (hdir : dir[ts.bundle]? = d'[ts.bundle]?) :
    Usable c opts call ts (recordedState call state verified ts).data dir ↔
      (opts.keys.revokeAll state.revokedKeys).requiredSignatures ≤
        (verified.signers.filter verified.leaves).length := by
  obtain ⟨hload, hcheck, hname, hseq⟩ := stage_eq_ok h.staged
  rw [minSequence_revokeAll] at hcheck
  have hinstalled : dir[ts.bundle]?.bind Entry.resolve = some (.dir (dirOf files)) := by
    rw [hdir, h.installed.1]
    rfl
  rw [recordedState, usable_recordTimestamp, ← (remainingKeys_record opts.keys state verified
    call.now).loadBundle_iff hload]
  constructor
  · rintro ⟨content, b, hcontent, hb, _⟩
    rw [hinstalled] at hcontent
    cases hcontent
    exact ⟨b, hb⟩
  · rintro ⟨b, hb⟩
    -- the same directory gives the same bundle, so the recorded state fits it
    obtain ⟨hm, hsha⟩ := loadBundle_same hload hb
    obtain ⟨r, hr, hrseq, hrsha⟩ : ∃ r, (state.record verified call.now).recordFor
        verified.manifest.name = some r ∧ r.sequence = verified.manifest.sequence ∧
        r.manifestSha256 = verified.manifestSha256 := record_recordFor hcheck
    refine ⟨dirOf files, b, hinstalled, hb, ?_, r, hname ▸ hr, hrseq.trans hseq, hrsha.trans hsha.symm⟩
    rw [hm]
    exact check_record hcheck hm hsha

theorem savedUsable_of_saved {s : ContentState} {dir : ContentDir} {file : Option Bytes}
    (h : s.save c.codec call.saveFault w.stateFile = (.ok (), file)) :
    SavedUsable c opts call ts ⟨dir, file⟩ ↔ Usable c opts call ts s.data dir := by
  have hsaved : contents c.codec file = some s.data := by
    rcases save_cases c.codec call.saveFault s w.stateFile with ⟨_, hne⟩ | hcontents
    · rw [h] at hne
      exact absurd rfl hne
    · rwa [h] at hcontents
  simp only [SavedUsable, hsaved, Option.some.injEq, exists_eq_left']

/-- After an update that succeeds, the installed bundle is usable with the saved state exactly when
the update was ready for it. -/
theorem update_ok_usable_iff {result : UpdateOutcome} (hnamed : NamedBy c opts ts)
    (h : update c opts call w = (.ok result, w')) :
    SavedUsable c opts call ts w' ↔ ReadyToUpdate c opts call w := by
  unfold update at h
  split at h
  · cases h
  · rename_i state keys ts' hchannel
    obtain ⟨_, hkeys, hnamed', _⟩ := checkChannel_eq_ok hchannel
    have hts := hnamed'.unique hnamed
    subst hts
    subst hkeys
    split at h
    · cases h
    · have hready : ReadyToUpdate c opts call w ↔
          ReadyFor c opts call w state (opts.keys.revokeAll state.revokedKeys) ts' := by
        refine ⟨fun hall => hall _ _ _ hchannel, fun hone state₁ keys₁ ts₁ hchannel₁ => ?_⟩
        rw [hchannel] at hchannel₁
        cases hchannel₁
        exact hone
      rw [hready, ReadyFor]
      -- the bundle is current already, or it was swapped in
      cases hcur : alreadyCurrent c (recover w.contentDir ts'.bundle) ts' with
      | true =>
        rw [if_pos rfl]
        simp only [updateBundle, hcur, if_true] at h
        split at h
        · cases h
        · rename_i file hsave
          cases h
          rw [savedUsable_of_saved hsave, usable_recordTimestamp]
      | false =>
        rw [if_neg Bool.false_ne_true]
        rcases updateBundle_cases h with ⟨hcur', _⟩ | ⟨⟨e, he⟩, _⟩ | ⟨files, verified, hadOld, d', hswapped⟩
        · rw [hcur] at hcur'
          cases hcur'
        · cases he
        · rw [updateBundle_of_swapped hswapped] at h
          split at h
          · cases h
          · rename_i file hsave
            cases h
            rw [savedUsable_of_saved hsave, hswapped.usable_iff]
            · simp [hswapped.staged]
            · split
              · exact removeDirAll_get_ne oldName_ne_bundle.symm
              · rfl

theorem update_ok_usable_first :
    SavedUsable (officialContent releasedCodec) officialOptions ⟨epoch, "0", "1", none⟩
        channelTimestamp
        (update (officialContent releasedCodec) officialOptions ⟨epoch, "0", "1", none⟩ ⟨∅, none⟩).2 ↔
      ReadyToUpdate (officialContent releasedCodec) officialOptions ⟨epoch, "0", "1", none⟩
        ⟨∅, none⟩ := by
  have hok : (update (officialContent releasedCodec) officialOptions ⟨epoch, "0", "1", none⟩
      ⟨∅, none⟩).1 =
      .ok ⟨"official", none, 1, "content/official", true, 1, ⟨nanosPerDay, by decide⟩⟩ := by
    decide +kernel
  have hnamed : NamedBy (officialContent releasedCodec) officialOptions channelTimestamp :=
    ⟨channelJson, rfl, by simp [officialContent]⟩
  generalize hupdate : update (officialContent releasedCodec) officialOptions
    ⟨epoch, "0", "1", none⟩ ⟨∅, none⟩ = r at hok
  obtain ⟨result, w'⟩ := r
  dsimp only at hok
  subst hok
  exact update_ok_usable_iff hnamed hupdate

/-! ### After a crash between the swap and the save -/

/-- The state with a timestamp and no bundle. -/
def checkedState : StateFile where
  formatVersion := 1
  bundles := ∅
  revokedKeys := ∅
  timestamps := (∅ : BTreeMap String TimestampRecord).insert "official"
    ⟨1, ⟨nanosPerDay, nanosPerDay_in_range⟩, epoch⟩

def checkedJson : Bytes :=
  ("\x7b\n  \"format_version\": 1,\n  \"bundles\": \x7b\x7d,\n  \"revoked_keys\": \x7b\x7d,\n" ++
  "  \"timestamps\": \x7b\n    \"official\": \x7b\n      \"version\": 1,\n" ++
  "      \"expires\": \"1970-01-02T00:00:00Z\",\n" ++
  "      \"checked_at\": \"1970-01-01T00:00:00Z\"\n    \x7d\n  \x7d\n\x7d").toUTF8.data.toList

/-- The release is in place, and no state was ever saved. -/
def crashedWorld : World :=
  ⟨(∅ : ContentDir).insert "official" (.plain (.dir officialDir)), none⟩

/-- The release is taken for current and never recorded. -/
theorem update_ok_unrecorded :
    (update (officialContent (codecOf checkedState checkedJson)) officialOptions
      ⟨epoch, "0", "1", none⟩ crashedWorld).1 =
      .ok ⟨"official", none, 1, "content/official", false, 1, ⟨nanosPerDay, by decide⟩⟩ ∧
    ¬ SavedUsable (officialContent (codecOf checkedState checkedJson)) officialOptions
      ⟨epoch, "0", "1", none⟩ channelTimestamp
      (update (officialContent (codecOf checkedState checkedJson)) officialOptions
        ⟨epoch, "0", "1", none⟩ crashedWorld).2 := by
  refine ⟨by decide +kernel, ?_⟩
  have hsaved : contents (codecOf checkedState checkedJson)
      (update (officialContent (codecOf checkedState checkedJson)) officialOptions
        ⟨epoch, "0", "1", none⟩ crashedWorld).2.stateFile = some checkedState := by
    decide +kernel
  rintro ⟨d, hd, _, _, _, _, _, r, hr, _⟩
  have hstate : d = checkedState := Option.some.inj (hd.symm.trans hsaved)
  rw [hstate] at hr
  cases hr

end AbyssalWarden

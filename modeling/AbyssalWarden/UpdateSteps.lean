import AbyssalWarden.BundleSoundness
import AbyssalWarden.Update

/-! What the parts of an update do: the swap and its undoing, the files that are staged, and the
three ways in which an update of a known bundle ends. -/
namespace AbyssalWarden

variable {ms : Minisign} {c : Content ms} {opts : UpdateOptions ms} {call : UpdateCall}
  {state : ContentState} {keys : TrustedKeys ms} {ts : Timestamp} {w : World}

/-! ### Names -/

theorem stagingName_ne_bundle : stagingName call ts ≠ ts.bundle := by
  intro h
  have hlen := congrArg (fun s => s.toList.length) h
  have hpre := length_stagingPrefix ts.bundle
  simp only [stagingName, String.toList_append, List.length_append] at hlen
  omega

theorem oldName_ne_bundle : oldName call ts ≠ ts.bundle := by
  intro h
  have hlen := congrArg (fun s => s.toList.length) h
  have hpre := length_oldPrefix ts.bundle
  simp only [oldName, String.toList_append, List.length_append] at hlen
  omega

theorem stagingName_ne_oldName : stagingName call ts ≠ oldName call ts := by
  intro h
  have hlist := congrArg String.toList h
  simp [stagingName, oldName, stagingPrefix, oldPrefix, String.toList_append] at hlist

/-- The names of a call are those of entries. -/
theorem stagingName_not_dots : dotName (stagingName call ts) = false := by
  apply not_dotName_of_prefix ".staging-" (by decide)
  simp [stagingName, stagingPrefix, String.toList_append]

theorem oldName_not_dots : dotName (oldName call ts) = false := by
  apply not_dotName_of_prefix ".old-" (by decide)
  simp [oldName, oldPrefix, String.toList_append]

/-! ### The swap -/

theorem renameStep_eq_ok {step : UpdateStep} {d d' : ContentDir} {source target : String}
    (h : renameStep call step d source target = .ok d') : d.rename source target = .ok d' := by
  simp only [renameStep, except_bind_eq_ok, mapError_eq_ok] at h
  exact h.choose_spec.2

variable {d d' : ContentDir} {target staging old : String}

/-- A swap that fails gives the old directory its name back. -/
theorem swap_error {e : UpdateError} (hts : staging ≠ target) (hto : old ≠ target)
    (hso : staging ≠ old) (h : swap call d target staging old = (.error e, d')) :
    d'[target]? = d[target]? ∧ d'[staging]? = d[staging]? := by
  unfold swap at h
  cases hex : d.exists? target with
  | false =>
    simp only [hex, Bool.false_eq_true, if_false] at h
    split at h
    · cases h
      exact ⟨rfl, rfl⟩
    · cases h
  | true =>
    simp only [hex, if_true] at h
    split at h
    · cases h
      exact ⟨rfl, rfl⟩
    · rename_i aside haside
      have hren := renameStep_eq_ok haside
      have hfree := rename_get_source hren hto.symm
      have hstaging := rename_get hren hts hso
      have hold := rename_get_target hren
      obtain ⟨hdots, hdotsOld⟩ := rename_not_dots hren
      obtain ⟨entry, hentry, _⟩ := rename_eq_ok hren
      rw [hentry] at hold
      -- the second rename failed, so the first one is undone
      split at h
      · rw [rename_of_free hdotsOld hdots hold hfree] at h
        cases h
        refine ⟨?_, ?_⟩
        · rw [get_insert, if_pos rfl, hentry]
        · rw [get_insert, if_neg hts.symm, get_erase, if_neg hso.symm, hstaging]
      · cases h

/-- A swap that succeeds installs what was staged under the name of an entry, and the staging name
is free again. -/
theorem swap_ok {hadOld : Bool} (hts : staging ≠ target) (hso : staging ≠ old)
    (h : swap call d target staging old = (.ok hadOld, d')) :
    d'[target]? = d[staging]? ∧ d'[staging]? = none ∧ dotName target = false := by
  unfold swap at h
  simp only at h
  split at h
  · cases h
  · rename_i aside haside
    have hstaging : aside[staging]? = d[staging]? := by
      split at haside
      · exact rename_get (renameStep_eq_ok haside) hts hso
      · cases haside
        rfl
    split at h
    · split at h
      · split at h <;> cases h
      · cases h
    · rename_i installed hinstall
      cases h
      have hren := renameStep_eq_ok hinstall
      exact ⟨(rename_get_target hren).trans hstaging, rename_get_source hren hts,
        (rename_not_dots hren).2⟩

/-! ### What a call did -/

/-- Everything was checked and both renames went through: `files`, verified as `verified`, are
installed in `d'`. -/
structure Swapped (c : Content ms) (opts : UpdateOptions ms) (call : UpdateCall)
    (state : ContentState) (keys : TrustedKeys ms) (ts : Timestamp) (d : ContentDir)
    (files : List (String × Bytes)) (verified : VerifiedBundle) (hadOld : Bool) (d' : ContentDir) :
    Prop where
  not_current : alreadyCurrent c d ts = false
  created : createStaging call d (stagingName call ts) =
    .ok (d.insert (stagingName call ts) (.plain (.dir (dirOf []))))
  staged : stage c opts call state keys ts (joinPath opts.contentDir (stagingName call ts)) =
    .ok (files, verified)
  swapped : swap call (d.insert (stagingName call ts) (.plain (.dir (dirOf files)))) ts.bundle
    (stagingName call ts) (oldName call ts) = (.ok hadOld, d')

/-- The state as it is saved after a swap. -/
def recordedState (call : UpdateCall) (state : ContentState) (verified : VerifiedBundle)
    (ts : Timestamp) : ContentState :=
  (state.record verified call.now).recordTimestamp ts call.now

theorem createStaging_eq_ok (h : createStaging call d staging = .ok d') :
    d[staging]? = none ∧ d' = d.insert staging (.plain (.dir (dirOf []))) := by
  simp only [createStaging, except_bind_eq_ok, refuseIf_eq_ok, Except.ok.injEq] at h
  obtain ⟨_, _, _, _, _, hfree, rfl⟩ := h
  exact ⟨by simpa using hfree, rfl⟩

theorem insert_insert (d : ContentDir) (name : String) (e e' : Entry) :
    (d.insert name e).insert name e' = d.insert name e' := by
  apply Std.ExtTreeMap.ext_getElem?
  intro k
  simp only [get_insert]
  split <;> rfl

/-- After a swap only the save of the state is left. -/
theorem updateBundle_of_swapped {files : List (String × Bytes)} {verified : VerifiedBundle}
    {hadOld : Bool}
    (h : Swapped c opts call state keys ts w.contentDir files verified hadOld d') :
    updateBundle c opts call state keys ts w =
      match (recordedState call state verified ts).save c.codec call.saveFault w.stateFile with
      | (.error e, file) => (.error (.state e), ⟨d', file⟩)
      | (.ok (), file) => (.ok (outcome opts state ts true),
          ⟨if hadOld then d'.removeDirAll (oldName call ts) else d', file⟩) := by
  simp only [updateBundle, h.not_current, Bool.false_eq_true, if_false, h.created, h.staged,
    insert_insert, h.swapped]
  rfl

/-- The entry of the bundle is as before, and the staging directory of the call is gone. -/
structure Kept (call : UpdateCall) (ts : Timestamp) (d d' : ContentDir) : Prop where
  installed : d'[ts.bundle]? = d[ts.bundle]?
  staging : d'[stagingName call ts]? = none ∨ d'[stagingName call ts]? = d[stagingName call ts]?

/-- Removing the staging directory undoes a call that put nothing else into place. -/
theorem kept_removeDirAll {content : BundleDir}
    (hstaging : d'[stagingName call ts]? = some (.plain (.dir content)))
    (hbundle : d'[ts.bundle]? = d[ts.bundle]?) :
    Kept call ts d (d'.removeDirAll (stagingName call ts)) := by
  refine ⟨?_, .inl ?_⟩
  · rw [removeDirAll_get_ne stagingName_ne_bundle.symm, hbundle]
  · exact removeDirAll_get_eq (by simp [hstaging])

/-- How an update of a known bundle ends: it was current, or it stopped before the swap was
complete, or it swapped. -/
theorem updateBundle_cases {result : Except UpdateError UpdateOutcome} {w' : World}
    (h : updateBundle c opts call state keys ts w = (result, w')) :
    (alreadyCurrent c w.contentDir ts = true ∧ w'.contentDir = w.contentDir) ∨
    ((∃ e, result = .error e) ∧ Kept call ts w.contentDir w'.contentDir) ∨
    ∃ files verified hadOld d',
      Swapped c opts call state keys ts w.contentDir files verified hadOld d' := by
  -- where the bundle is current only the state is saved
  cases hcur : alreadyCurrent c w.contentDir ts with
  | true =>
    refine .inl ⟨rfl, ?_⟩
    simp only [updateBundle, hcur, if_true] at h
    split at h <;> cases h <;> rfl
  | false =>
    refine .inr ?_
    simp only [updateBundle, hcur, Bool.false_eq_true, if_false] at h
    -- the staging directory is made, filled and swapped in; each of these can fail
    split at h
    · cases h
      exact .inl ⟨⟨_, rfl⟩, rfl, .inr rfl⟩
    · rename_i d hcreate
      obtain ⟨hfree, rfl⟩ := createStaging_eq_ok hcreate
      split at h
      · cases h
        refine .inl ⟨⟨_, rfl⟩, kept_removeDirAll (get_insert .. |>.trans (if_pos rfl)) ?_⟩
        rw [get_insert, if_neg stagingName_ne_bundle]
      · rename_i files verified hstage
        rw [insert_insert] at h
        split at h
        · rename_i e d' hswap
          cases h
          obtain ⟨hbundle, hstaging⟩ := swap_error stagingName_ne_bundle oldName_ne_bundle
            stagingName_ne_oldName hswap
          rw [get_insert, if_neg stagingName_ne_bundle] at hbundle
          rw [get_insert, if_pos rfl] at hstaging
          exact .inl ⟨⟨_, rfl⟩, kept_removeDirAll hstaging hbundle⟩
        · rename_i hadOld d' hswap
          exact .inr ⟨files, verified, hadOld, d', hcur, hcreate, hstage, hswap⟩

/-! ### What is installed -/

theorem writeFile_eq_ok {files files' : List (String × Bytes)} {path : String} {data : Bytes}
    (h : writeFile call files path data = .ok files') : files' = files ++ [(path, data)] := by
  simp only [writeFile, except_bind_eq_ok, Except.ok.injEq] at h
  obtain ⟨_, _, _, _, heq⟩ := h
  exact heq.symm

theorem downloadSignatures_listed {names : List String} {files files' : List (String × Bytes)}
    (h : downloadSignatures opts call files names = .ok files') : files <+: files' := by
  induction names generalizing files with
  | nil =>
    cases h
    exact List.prefix_rfl
  | cons name names ih =>
    simp only [downloadSignatures, except_bind_eq_ok] at h
    obtain ⟨found, _, h⟩ := h
    split at h
    · cases h
      exact List.prefix_rfl
    · simp only [except_bind_eq_ok] at h
      obtain ⟨files₁, hwrite, hrest⟩ := h
      rw [writeFile_eq_ok hwrite] at hrest
      exact (List.prefix_append files _).trans (ih hrest)

theorem downloadFile_listed {f : ManifestFile} {files files' : List (String × Bytes)}
    (h : downloadFile c opts call files f = .ok files') : files <+: files' := by
  simp only [downloadFile, except_bind_eq_ok] at h
  obtain ⟨data, _, _, _, hwrite⟩ := h
  rw [writeFile_eq_ok hwrite]
  exact List.prefix_append files _

/-- The manifest that was downloaded is the one the timestamp names. -/
theorem download_manifest {files : List (String × Bytes)}
    (h : download c opts call ts = .ok files) :
    ∃ data manifest rest, files = (manifestFile, data) :: rest ∧ data.length ≤ maxManifestBytes ∧
      c.sha256 data = ts.manifestSha256 ∧ c.parseManifest data = .ok manifest ∧
      manifest.name = ts.bundle ∧ manifest.sequence = ts.sequence := by
  simp only [download, except_bind_eq_ok, mapError_eq_ok, refuseIf_eq_ok, not_or,
    Decidable.not_not] at h
  obtain ⟨data, hdata, _, hsha, manifest, hparse, _, _, _, hname, files₁, hwrite, sig, _, files₂,
    hwrite₂, files₃, hsigs, hfiles⟩ := h
  have hlen : data.length ≤ maxManifestBytes := by
    simp only [UpdateOptions.require, except_bind_eq_ok] at hdata
    obtain ⟨found, hget, hfound⟩ := hdata
    cases found with
    | none => cases hfound
    | some data' =>
      cases hfound
      unfold UpdateOptions.get at hget
      split at hget
      · cases hget
      · cases hget
      · split at hget
        · cases hget
        · cases hget
          omega
  -- later downloads append to the list of files
  have hpre : [(manifestFile, data)] <+: files := by
    have h₁ : [(manifestFile, data)] <+: files₂ := by
      rw [writeFile_eq_ok hwrite₂, writeFile_eq_ok hwrite]
      exact List.prefix_append _ _
    have h₂ := h₁.trans (downloadSignatures_listed hsigs)
    exact checkEach_invariant (I := fun files => [(manifestFile, data)] <+: files)
      (fun _ _ _ hacc hstep => hacc.trans (downloadFile_listed hstep)) h₂ hfiles
  obtain ⟨rest, rfl⟩ := hpre
  exact ⟨data, manifest, rest, rfl, hlen, hsha.2, hparse, hname.1, hname.2⟩

theorem dirOf_read_cons {name : String} {data : Bytes} {rest : List (String × Bytes)} :
    (dirOf ((name, data) :: rest)).read name = .ok data := by
  simp [dirOf]

/-- After a swap the bundle is not what was there before. -/
theorem Swapped.installed {files : List (String × Bytes)} {verified : VerifiedBundle} {hadOld : Bool}
    (h : Swapped c opts call state keys ts d files verified hadOld d') :
    d'[ts.bundle]? = some (.plain (.dir (dirOf files))) ∧ d'[stagingName call ts]? = none := by
  have hswap := swap_ok stagingName_ne_bundle stagingName_ne_oldName h.swapped
  rw [get_insert, if_pos rfl] at hswap
  exact ⟨hswap.1, hswap.2.1⟩

/-- What was swapped is an entry of the directory. -/
theorem Swapped.named {files : List (String × Bytes)} {verified : VerifiedBundle} {hadOld : Bool}
    (h : Swapped c opts call state keys ts d files verified hadOld d') :
    dotName ts.bundle = false :=
  (swap_ok stagingName_ne_bundle stagingName_ne_oldName h.swapped).2.2

theorem Swapped.alreadyCurrent {files : List (String × Bytes)} {verified : VerifiedBundle}
    {hadOld : Bool} (h : Swapped c opts call state keys ts d files verified hadOld d')
    {d₁ : ContentDir} (hd₁ : d₁[ts.bundle]? = d'[ts.bundle]?) : alreadyCurrent c d₁ ts = true := by
  have hstaged := h.staged
  simp only [stage, except_bind_eq_ok, Except.ok.injEq, Prod.mk.injEq] at hstaged
  obtain ⟨files', hdownload, _, _, rfl, _⟩ := hstaged
  obtain ⟨data, _, rest, rfl, _, hsha, _⟩ := download_manifest hdownload
  have hread : d₁.readManifest ts.bundle = .ok data := by
    rw [readManifest_of_entry h.named (by rw [hd₁, h.installed.1]; rfl), dirOf_read_cons]
  simp [AbyssalWarden.alreadyCurrent, hread, hsha]

/-! ### The channel -/

/-- The timestamp file of the source names the bundle. -/
def NamedBy (c : Content ms) (opts : UpdateOptions ms) (ts : Timestamp) : Prop :=
  ∃ data, opts.source timestampFile = .ok (some data) ∧ c.parseTimestamp data = .ok ts

theorem require_source {rel : String} {limit : ℕ} {data : Bytes}
    (h : opts.require rel limit = .ok data) : opts.source rel = .ok (some data) := by
  simp only [UpdateOptions.require, except_bind_eq_ok] at h
  obtain ⟨found, hget, hfound⟩ := h
  unfold UpdateOptions.get at hget
  split at hget
  · cases hget
  · cases hget
    cases hfound
  · rename_i data' hsource
    split at hget
    · cases hget
    · cases hget
      cases hfound
      exact hsource

theorem checkChannel_eq_ok {file : Option Bytes}
    (h : checkChannel c opts call file = .ok (state, keys, ts)) :
    ContentState.openState c.codec opts.statePath call.openFault file = .ok state ∧
      keys = opts.keys.revokeAll state.revokedKeys ∧ NamedBy c opts ts ∧
      state.checkTimestamp ts = .ok () ∧
      ∃ data text signer comment,
        keys.verifyRole data text timestampFile call.now .timestamp = .ok (signer, comment) := by
  simp only [checkChannel, except_bind_eq_ok] at h
  obtain ⟨data, hdata, sig, _, h⟩ := h
  split at h
  · cases h
  · rename_i text htext
    simp only [except_bind_eq_ok, mapError_eq_ok, Except.ok.injEq, Prod.mk.injEq] at h
    obtain ⟨state', hopen, verified, hverify, _, hcheck, rfl, rfl, rfl⟩ := h
    simp only [verifyTimestamp, except_bind_eq_ok, mapError_eq_ok, refuseIf_eq_ok,
      Except.ok.injEq] at hverify
    obtain ⟨_, _, ⟨signer, comment⟩, hrole, timestamp, hparse, _, _, _, _, rfl⟩ := hverify
    exact ⟨hopen, rfl, ⟨data, require_source hdata, hparse⟩, hcheck, data, text, signer, comment,
      hrole⟩

theorem NamedBy.unique {ts' : Timestamp} (h : NamedBy c opts ts) (h' : NamedBy c opts ts') :
    ts = ts' := by
  obtain ⟨data, hsource, hparse⟩ := h
  obtain ⟨data', hsource', hparse'⟩ := h'
  rw [hsource] at hsource'
  cases hsource'
  rw [hparse] at hparse'
  exact Except.ok.inj hparse'

/-! ### A first release -/

def channelSha256 : Sha256Digest :=
  ⟨[169, 35, 189, 14, 113, 22, 136, 90, 94, 19, 61, 60, 14, 254, 155, 49,
    11, 120, 204, 23, 20, 39, 16, 192, 181, 52, 212, 20, 155, 86, 252, 124], rfl⟩

def channelJson : Bytes :=
  ("\x7b\"format\":\"abyssal-warden.content-timestamp\",\"format_version\":1,\"version\":1," ++
  "\"bundle\":\"official\",\"sequence\":1,\"manifest_sha256\":" ++
  "\"fa8ba72025c47b2a17bfffc1a658d04c0be42c977ea858b95f6e48f443c833b2\",\"manifest_size\":288," ++
  "\"issued\":\"1970-01-01T00:00:00Z\",\"expires\":\"1970-01-02T00:00:00Z\"\x7d").toUTF8.data.toList

def channelTimestamp : Timestamp where
  format := timestampFormat
  formatVersion := 1
  version := 1
  bundle := "official"
  sequence := 1
  manifestSha256 := officialSha256
  manifestSize := 288
  issued := epoch
  expires := ⟨nanosPerDay, nanosPerDay_in_range⟩

/-- The state once the release is installed. -/
def releasedState : StateFile where
  formatVersion := 1
  bundles := (∅ : BTreeMap String BundleRecord).insert "official"
    ⟨1, officialSha256, ["0000000000000000"], epoch⟩
  revokedKeys := ∅
  timestamps := (∅ : BTreeMap String TimestampRecord).insert "official"
    ⟨1, ⟨nanosPerDay, nanosPerDay_in_range⟩, epoch⟩

def releasedJson : Bytes :=
  ("\x7b\n  \"format_version\": 1,\n  \"bundles\": \x7b\n    \"official\": \x7b\n" ++
  "      \"sequence\": 1,\n      \"manifest_sha256\": " ++
  "\"fa8ba72025c47b2a17bfffc1a658d04c0be42c977ea858b95f6e48f443c833b2\",\n" ++
  "      \"signers\": [\n        \"0000000000000000\"\n      ],\n" ++
  "      \"accepted_at\": \"1970-01-01T00:00:00Z\"\n    \x7d\n  \x7d,\n  \"revoked_keys\": \x7b\x7d,\n" ++
  "  \"timestamps\": \x7b\n    \"official\": \x7b\n      \"version\": 1,\n" ++
  "      \"expires\": \"1970-01-02T00:00:00Z\",\n" ++
  "      \"checked_at\": \"1970-01-01T00:00:00Z\"\n    \x7d\n  \x7d\n\x7d").toUTF8.data.toList

def releasedCodec : StateCodec := codecOf releasedState releasedJson

def officialContent (codec : StateCodec) : Content plainMinisign where
  sha256 data := if data = channelJson then channelSha256 else officialDigests data
  parseManifest := parseOfficial
  parseTimestamp data := if data = channelJson then .ok channelTimestamp else .error "no timestamp"
  codec := codec
  detectors _ := .ok ()

def officialOptions : UpdateOptions plainMinisign where
  source name := .ok ([("timestamp.json", channelJson),
    ("timestamp.json.minisig", "AAAAAAAAAAB4".toUTF8.data.toList),
    ("manifest.json", officialJson),
    ("manifest.json.minisig", "AAAAAAAAAABF".toUTF8.data.toList), ("NOTICE", [])].lookup name)
  contentDir := "content"
  statePath := "state.json"
  keys := zeroKeys [.content, .timestamp]
  allowExpired := false
  validate _ := .ok ()

end AbyssalWarden

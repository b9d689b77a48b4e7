import AbyssalWarden.KeyVerification

/-! What a keyring does to the keys that were trusted before it. A key is recognised as already
present from the raw text of `public_key`, while the key itself is read from its first line that
is not a comment. -/
namespace AbyssalWarden

variable {ms : Minisign}

/-! ### One entry of a keyring -/

/-- The key ID that `add_key_text` finds in the entry's text. -/
def KeyringEntry.keyId (ms : Minisign) (e : KeyringEntry) : Option KeyId :=
  (keyLine e.publicKey.toList).bind fun b64 => (newKey ms b64).toOption.map TrustedKey.id

/-- The text is the key's base64 and nothing else, so that `base64_decode` reads it as it is. -/
def KeyringEntry.bare (e : KeyringEntry) : Bool := (base64Decode e.publicKey.toList).isSome

/-- The key after the entry: restricted by it if the entry names it. -/
def TrustedKey.underEntry (k : TrustedKey ms) (e : KeyringEntry) : TrustedKey ms :=
  if e.keyId ms = some k.id then k.applyEntry e.bare e else k

theorem TrustedKey.underEntry_id (k : TrustedKey ms) (e : KeyringEntry) :
    (k.underEntry e).id = k.id := by
  unfold TrustedKey.underEntry
  split <;> rfl

/-- Both recognisers read a bare text the same way. -/
theorem keyLine_of_bare {s : List Char} (hne : s ≠ []) (h : (base64Decode s).isSome = true) :
    keyLine s = some s := by
  obtain ⟨raw, hraw⟩ := Option.isSome_iff_exists.mp h
  have hchars := base64Decode_chars hraw
  have hws (c : Char) (hc : c ∈ s) : isWhitespace c = false :=
    isBase64Char_not_whitespace (hchars c hc)
  have hline : lines s = [s] := by
    apply lines_singleton hne
    intro hc
    exact absurd (hws _ hc) (by decide)
  have hcomment : commentPrefix.isPrefixOf s = false := by
    cases hc : commentPrefix.isPrefixOf s with
    | false => rfl
    | true =>
      have hblank : ' ' ∈ s := (List.isPrefixOf_iff_prefix.mp hc).subset (by decide)
      exact absurd (hws _ hblank) (by decide)
  simp [keyLine, hline, trim_eq_self hws, hne, hcomment]

theorem newKey_id {b64 : List Char} {k : TrustedKey ms} (h : newKey ms b64 = .ok k) :
    (base64Decode b64).bind rawKeyId = some k.id := by
  unfold newKey at h
  split at h
  · cases h
  · split at h
    · cases h
    · rename_i raw hraw
      split at h
      · rename_i hlen
        cases h
        simp [hraw, rawKeyId, hlen]
      · cases h

theorem existed_eq_bare {keys : TrustedKeys ms} {e : KeyringEntry} {k : TrustedKey ms}
    (hk : k ∈ keys.keys) (hid : e.keyId ms = some k.id) : keys.existed e = e.bare := by
  unfold KeyringEntry.keyId at hid
  obtain ⟨b64, hline, hid⟩ := Option.bind_eq_some_iff.mp hid
  obtain ⟨k', hk', hid'⟩ := Option.map_eq_some_iff.mp hid
  have hnew : newKey ms b64 = .ok k' := by
    cases hn : newKey ms b64 with
    | error r => simp [hn, Except.toOption] at hk'
    | ok k₁ => simpa [hn, Except.toOption] using hk'
  have hdec := newKey_id hnew
  cases hb : e.bare with
  | false =>
    have hnone : base64Decode e.publicKey.toList = none := by
      simpa [KeyringEntry.bare, Option.isSome_eq_false_iff] using hb
    simp [TrustedKeys.existed, hnone]
  | true =>
    -- a key that is bare is the line that is read
    have hne : e.publicKey.toList ≠ [] := by
      intro hnil
      rw [hnil] at hline
      cases hline
    have hself := keyLine_of_bare hne hb
    rw [hself] at hline
    cases hline
    rw [hid'] at hdec
    simp only [TrustedKeys.existed, List.any_eq_true, decide_eq_true_eq]
    exact ⟨k, hk, hdec⟩

theorem addKeyText_keyId {keys keys' : TrustedKeys ms} {e : KeyringEntry} {sourceName : String}
    {id : KeyId} (h : keys.addKeyText e.publicKey sourceName = .ok (keys', id)) :
    e.keyId ms = some id := by
  unfold TrustedKeys.addKeyText at h
  split at h
  · cases h
  · rename_i b64 hline
    split at h
    · cases h
    · rename_i k hk
      cases h
      simp [KeyringEntry.keyId, hline, hk, Except.toOption]

theorem addEntry_underEntry {sourceName : String} {keys keys' : TrustedKeys ms}
    {ids ids' : List KeyId} {e : KeyringEntry} {i : ℕ}
    (h : addEntry sourceName (keys, ids) (e, i) = .ok (keys', ids')) :
    ∀ k ∈ keys.keys, k.underEntry e ∈ keys'.keys := by
  simp only [addEntry, except_bind_eq_ok, refuseIf_eq_ok, mapError_eq_ok, Prod.exists] at h
  obtain ⟨_, _, _, _, _, _, added, id, hadd, _, _, heq⟩ := h
  cases heq
  intro k hk
  have hid := addKeyText_keyId hadd
  have hmem := TrustedKeys.mem_addKeyText hadd hk
  apply List.mem_map.mpr
  refine ⟨k, hmem, ?_⟩
  unfold TrustedKey.underEntry
  rw [hid]
  by_cases hkid : k.id = id
  · have hex := existed_eq_bare hk (by rw [hid, hkid])
    simp [hkid, hex]
  · have hkid' : ¬ id = k.id := fun h => hkid h.symm
    simp [hkid, hkid']

/-! ### The whole keyring -/

theorem addPolicy_keys {sourceName : String} {keys keys' : TrustedKeys ms}
    {policy : Option KeyringPolicy} (h : keys.addPolicy sourceName policy = .ok keys') :
    keys'.keys = keys.keys := by
  cases policy with
  | none =>
    cases h
    rfl
  | some policy =>
    simp only [TrustedKeys.addPolicy, except_bind_eq_ok, refuseIf_eq_ok] at h
    obtain ⟨_, _, heq⟩ := h
    cases heq
    rfl

theorem addFloor_keys {sourceName : String} {keys keys' : TrustedKeys ms} {item : BundleFloor × ℕ}
    (h : addFloor sourceName keys item = .ok keys') : keys'.keys = keys.keys := by
  simp only [addFloor, except_bind_eq_ok, refuseIf_eq_ok] at h
  obtain ⟨_, _, heq⟩ := h
  cases heq
  rfl

theorem addEntries_underEntry {sourceName : String} {keys keys' : TrustedKeys ms}
    {ids ids' : List KeyId} {items : List (KeyringEntry × ℕ)}
    (h : checkEach (addEntry sourceName) (keys, ids) items = .ok (keys', ids')) :
    ∀ k ∈ keys.keys, (items.map Prod.fst).foldl TrustedKey.underEntry k ∈ keys'.keys := by
  induction items generalizing keys ids with
  | nil =>
    cases h
    exact fun k hk => hk
  | cons item items ih =>
    obtain ⟨⟨keys₁, ids₁⟩, hitem, hrest⟩ := checkEach_cons_eq_ok.mp h
    intro k hk
    exact ih hrest (k.underEntry item.1) (addEntry_underEntry hitem k hk)

/-- The entries that name the key ID. -/
def KeyringFile.naming (ms : Minisign) (file : KeyringFile) (id : KeyId) : List KeyringEntry :=
  file.keys.filter fun e => e.keyId ms = some id

/-- The key under the entries that name it. -/
def TrustedKey.under (k : TrustedKey ms) (es : List KeyringEntry) : TrustedKey ms :=
  es.foldl (fun k e => k.applyEntry e.bare e) k

theorem foldl_underEntry (k : TrustedKey ms) (es : List KeyringEntry) :
    es.foldl TrustedKey.underEntry k =
      k.under (es.filter fun e => e.keyId ms = some k.id) := by
  induction es generalizing k with
  | nil => rfl
  | cons e es ih =>
    rw [List.foldl_cons, ih, k.underEntry_id]
    unfold TrustedKey.underEntry
    by_cases hid : e.keyId ms = some k.id
    · simp [hid, TrustedKey.under]
    · simp [hid]

/-- Every key stays, under the restrictions of the entries that name it. -/
theorem addKeyring_under {parse : Bytes → Except String KeyringFile} {keys keys' : TrustedKeys ms}
    {json : Bytes} {sourceName : String} {ids : List KeyId} {file : KeyringFile}
    (hparse : parse json = .ok file)
    (h : keys.addKeyring parse json sourceName = .ok (keys', ids)) :
    ∀ k ∈ keys.keys, k.under (file.naming ms k.id) ∈ keys'.keys := by
  simp only [TrustedKeys.addKeyring, except_bind_eq_ok, mapError_eq_ok, hparse, Except.ok.injEq,
    exists_eq_left'] at h
  obtain ⟨_, _, _, _, _, _, keys₁, hpolicy, keys₂, hfloors, hentries⟩ := h
  have hkeys : keys₂.keys = keys.keys := by
    refine checkEach_invariant (I := fun k : TrustedKeys ms => k.keys = keys.keys) ?_
      (addPolicy_keys hpolicy) hfloors
    intro acc item acc' hacc hitem
    rw [addFloor_keys hitem, hacc]
  intro k hk
  have hmem := addEntries_underEntry hentries k (hkeys ▸ hk)
  rw [foldl_underEntry, List.zipIdx_map_fst] at hmem
  exact hmem

@[simp] theorem TrustedKey.under_id (k : TrustedKey ms) (es : List KeyringEntry) :
    (k.under es).id = k.id := by
  induction es generalizing k with
  | nil => rfl
  | cons e es ih => exact ih (k.applyEntry e.bare e)

@[simp] theorem TrustedKey.under_key (k : TrustedKey ms) (es : List KeyringEntry) :
    (k.under es).key = k.key := by
  induction es generalizing k with
  | nil => rfl
  | cons e es ih => exact ih (k.applyEntry e.bare e)

theorem TrustedKey.under_revoked (k : TrustedKey ms) (es : List KeyringEntry) :
    (k.under es).revoked = false ↔ k.revoked = false ∧ ∀ e ∈ es, e.revoked = false := by
  induction es generalizing k with
  | nil => simp [TrustedKey.under]
  | cons e es ih =>
    have hstep : k.under (e :: es) = (k.applyEntry e.bare e).under es := rfl
    rw [hstep, ih]
    simp [TrustedKey.applyEntry, and_assoc]

theorem TrustedKey.applyEntry_validAt (k : TrustedKey ms) (existed : Bool) (e : KeyringEntry)
    (now : OffsetDateTime) : (k.applyEntry existed e).validAt now = true ↔
      k.validAt now = true ∧ withinWindow e.notBefore e.notAfter now = true := by
  simp only [TrustedKey.validAt, TrustedKey.applyEntry, withinWindow, optionMax, Bool.and_eq_true]
  rcases k.notBefore with _ | a <;> rcases e.notBefore with _ | b <;>
    rcases k.notAfter with _ | c <;> rcases e.notAfter with _ | d <;>
    simp <;> tauto

theorem TrustedKey.under_validAt (k : TrustedKey ms) (es : List KeyringEntry)
    (now : OffsetDateTime) : (k.under es).validAt now = true ↔
      k.validAt now = true ∧ ∀ e ∈ es, withinWindow e.notBefore e.notAfter now = true := by
  induction es generalizing k with
  | nil => simp [TrustedKey.under]
  | cons e es ih =>
    have hstep : k.under (e :: es) = (k.applyEntry e.bare e).under es := rfl
    rw [hstep, ih, k.applyEntry_validAt]
    simp [and_assoc]

end AbyssalWarden

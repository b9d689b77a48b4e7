import AbyssalWarden.TrustedKeys

/-! Which keys verify a signature, and when one set of keys verifies no more than another. -/
namespace AbyssalWarden

variable {ms : Minisign}

/-- The key, by itself, verifies the signature for `role` at `now`. -/
structure TrustedKey.Accepts (k : TrustedKey ms) (data : Bytes) (sig : ms.Signature)
    (now : OffsetDateTime) (role : KeyRole) : Prop where
  role_mem : role ∈ k.roles
  verify_eq : ms.verify k.key data sig = true
  not_revoked : k.revoked = false
  valid : k.validAt now = true

theorem TrustedKeys.eq_of_id_eq (keys : TrustedKeys ms) {a b : TrustedKey ms}
    (ha : a ∈ keys.keys) (hb : b ∈ keys.keys) (h : a.id = b.id) : a = b :=
  List.inj_on_of_nodup_map keys.ids_nodup ha hb h

/-- A signature names one key ID, so at most one key can verify it, and the loop over the keys
is a question about that key alone. -/
theorem TrustedKeys.verifyRole_eq_ok {keys : TrustedKeys ms} {data : Bytes} {text path : String}
    {now : OffsetDateTime} {role : KeyRole} {id : KeyId} {comment : String} :
    keys.verifyRole data text path now role = .ok (id, comment) ↔
      ∃ sig, ms.decode text = .ok sig ∧ comment = ms.trustedComment sig ∧
        ∃ k ∈ keys.keys, k.id = id ∧ k.Accepts data sig now role := by
  unfold TrustedKeys.verifyRole
  cases hdec : ms.decode text with
  | error e => simp
  | ok sig =>
    simp only [Except.ok.injEq, exists_eq_left']
    cases hfind : (keys.keys.filter (role ∈ ·.roles)).find? (ms.verify ·.key data sig) with
    | none =>
      simp only [reduceCtorEq, false_iff]
      rintro ⟨_, k, hk, _, hacc⟩
      have hnone := List.find?_eq_none.mp hfind k
        (List.mem_filter.mpr ⟨hk, decide_eq_true hacc.role_mem⟩)
      exact hnone hacc.verify_eq
    | some k =>
      have hver : ms.verify k.key data sig = true := by simpa using List.find?_some hfind
      have hmem := List.mem_filter.mp (List.mem_of_find?_eq_some hfind)
      have hrole : role ∈ k.roles := of_decide_eq_true hmem.2
      -- a signature names its key, and keys have different identifiers
      have honly (k' : TrustedKey ms) (hk' : k' ∈ keys.keys)
          (hacc : k'.Accepts data sig now role) : k' = k := by
        apply keys.eq_of_id_eq hk' hmem.1
        rw [← k'.id_eq, ← k.id_eq, ← ms.verify_keyId _ _ _ hacc.verify_eq,
          ← ms.verify_keyId _ _ _ hver]
      constructor
      · intro h
        by_cases hrev : k.revoked = true
        · simp [hrev] at h
        · by_cases hval : k.validAt now = false
          · simp [hrev, hval] at h
          · dsimp only at h
            rw [if_neg hrev, if_neg hval] at h
            simp only [Except.ok.injEq, Prod.mk.injEq] at h
            exact ⟨h.2.symm, k, hmem.1, h.1, hrole, hver, by simpa using hrev, by simpa using hval⟩
      · rintro ⟨hcomment, k', hk', hid, hacc⟩
        have hkk := honly k' hk' hacc
        subst hkk
        simp [hacc.not_revoked, hacc.valid, hid, hcomment]

/-! ### Revoked keys -/

theorem TrustedKey.revokeIf_accepts (k : TrustedKey ms) (id : String) {data : Bytes}
    {sig : ms.Signature} {now : OffsetDateTime} {role : KeyRole} :
    (k.revokeIf id).Accepts data sig now role ↔
      k.Accepts data sig now role ∧ eqIgnoreAsciiCase k.id.toString id = false := by
  unfold TrustedKey.revokeIf
  split
  · rename_i hid
    simp only [hid, Bool.true_eq_false, and_false, iff_false]
    intro h
    have hrev := h.not_revoked
    cases hrev
  · rename_i hid
    simp [hid]

theorem TrustedKeys.verifyRole_revoke {keys : TrustedKeys ms} {revoked : String} {data : Bytes}
    {text path : String} {now : OffsetDateTime} {role : KeyRole} {id : KeyId} {comment : String} :
    (keys.revoke revoked).verifyRole data text path now role = .ok (id, comment) ↔
      keys.verifyRole data text path now role = .ok (id, comment) ∧
        eqIgnoreAsciiCase id.toString revoked = false := by
  rw [TrustedKeys.verifyRole_eq_ok, TrustedKeys.verifyRole_eq_ok]
  constructor
  · rintro ⟨sig, hdec, hcomment, k', hk', rfl, hacc⟩
    obtain ⟨k, hk, rfl⟩ := List.mem_map.mp hk'
    obtain ⟨hacc, hid⟩ := (k.revokeIf_accepts revoked).mp hacc
    rw [k.revokeIf_id]
    exact ⟨⟨sig, hdec, hcomment, k, hk, rfl, hacc⟩, hid⟩
  · rintro ⟨⟨sig, hdec, hcomment, k, hk, rfl, hacc⟩, hid⟩
    exact ⟨sig, hdec, hcomment, k.revokeIf revoked, List.mem_map_of_mem hk, k.revokeIf_id revoked,
      (k.revokeIf_accepts revoked).mpr ⟨hacc, hid⟩⟩

/-- Revoking keys takes away their signatures, and no others. -/
theorem TrustedKeys.verifyRole_revokeAll {keys : TrustedKeys ms} {revoked : List String}
    {data : Bytes} {text path : String} {now : OffsetDateTime} {role : KeyRole} {id : KeyId}
    {comment : String} :
    (keys.revokeAll revoked).verifyRole data text path now role = .ok (id, comment) ↔
      keys.verifyRole data text path now role = .ok (id, comment) ∧
        ∀ r ∈ revoked, eqIgnoreAsciiCase id.toString r = false := by
  induction revoked generalizing keys with
  | nil => simp [TrustedKeys.revokeAll]
  | cons r revoked ih =>
    have hstep : keys.revokeAll (r :: revoked) = (keys.revoke r).revokeAll revoked := rfl
    rw [hstep, ih, TrustedKeys.verifyRole_revoke, List.forall_mem_cons, and_assoc]

/-- None of the keys with a revoked ID verifies anything. -/
def TrustedKeys.Refuses (keys : TrustedKeys ms) (revoked : List String) : Prop :=
  ∀ data text path now role id comment,
    keys.verifyRole data text path now role = .ok (id, comment) →
    ∀ r ∈ revoked, eqIgnoreAsciiCase id.toString r = false

theorem TrustedKeys.refuses_revokeAll (keys : TrustedKeys ms) (revoked : List String) :
    (keys.revokeAll revoked).Refuses revoked :=
  fun _ _ _ _ _ _ _ h => (TrustedKeys.verifyRole_revokeAll.mp h).2

theorem TrustedKeys.Refuses.revokeAll {keys : TrustedKeys ms} {revoked : List String}
    (h : keys.Refuses revoked) (more : List String) : (keys.revokeAll more).Refuses revoked :=
  fun data text path now role id comment hok =>
    h data text path now role id comment (TrustedKeys.verifyRole_revokeAll.mp hok).1

/-! ### Fewer signatures -/

/-- No key of `old` verifies more in `new` than it did in `old`. -/
def Restricts (old new : TrustedKeys ms) : Prop :=
  ∀ (data : Bytes) (text path : String) (now : OffsetDateTime) (role : KeyRole) (id : KeyId)
    (comment : String), (∃ k ∈ old.keys, k.id = id) →
    new.verifyRole data text path now role = .ok (id, comment) →
    old.verifyRole data text path now role = .ok (id, comment)

/-- `k'` is `k` with fewer roles, a smaller window, or revoked. -/
structure TrustedKey.Narrows (k k' : TrustedKey ms) : Prop where
  id_eq : k'.id = k.id
  key_eq : k'.key = k.key
  roles_subset : k'.roles ⊆ k.roles
  valid_of_valid : ∀ now, k'.validAt now = true → k.validAt now = true
  revoked_of_revoked : k.revoked = true → k'.revoked = true

theorem TrustedKey.Narrows.refl (k : TrustedKey ms) : k.Narrows k :=
  ⟨rfl, rfl, List.Subset.refl _, fun _ h => h, fun h => h⟩

theorem TrustedKey.Narrows.accepts {k k' : TrustedKey ms} (h : k.Narrows k') {data : Bytes}
    {sig : ms.Signature} {now : OffsetDateTime} {role : KeyRole}
    (hacc : k'.Accepts data sig now role) : k.Accepts data sig now role := by
  refine ⟨h.roles_subset hacc.role_mem, by rw [← h.key_eq]; exact hacc.verify_eq, ?_,
    h.valid_of_valid now hacc.valid⟩
  cases hrev : k.revoked with
  | false => rfl
  | true =>
    have hrev' := h.revoked_of_revoked hrev
    rw [hacc.not_revoked] at hrev'
    cases hrev'

/-! ### Later calls -/

theorem TrustedKeys.mem_pushNew {keys : TrustedKeys ms} {k k' : TrustedKey ms}
    (h : k ∈ keys.keys) : k ∈ (keys.pushNew k').keys := by
  unfold TrustedKeys.pushNew
  split
  · exact h
  · exact List.mem_append_left _ h

theorem TrustedKeys.mem_addKeyText {keys keys' : TrustedKeys ms} {text sourceName : String}
    {id : KeyId} (h : keys.addKeyText text sourceName = .ok (keys', id)) {k : TrustedKey ms}
    (hk : k ∈ keys.keys) : k ∈ keys'.keys := by
  unfold TrustedKeys.addKeyText at h
  split at h
  · cases h
  · split at h
    · cases h
    · cases h
      exact TrustedKeys.mem_pushNew hk

theorem TrustedKey.narrows_revokeIf (id : String) (k : TrustedKey ms) :
    k.Narrows (k.revokeIf id) := by
  unfold TrustedKey.revokeIf
  split
  · exact ⟨rfl, rfl, List.Subset.refl _, fun _ h => h, fun _ => rfl⟩
  · exact TrustedKey.Narrows.refl k

/-- The calls that may follow a keyring. -/
inductive LaterCall where
  | addKeyText (text sourceName : String)
  | revoke (id : String)

/-- A refused key text leaves the keys as they are. -/
def TrustedKeys.call (keys : TrustedKeys ms) : LaterCall → TrustedKeys ms
  | .addKeyText text sourceName =>
    match keys.addKeyText text sourceName with
    | .ok (keys', _) => keys'
    | .error _ => keys
  | .revoke id => keys.revoke id

def TrustedKeys.calls (keys : TrustedKeys ms) (later : List LaterCall) : TrustedKeys ms :=
  later.foldl TrustedKeys.call keys

theorem TrustedKeys.call_narrows (keys : TrustedKeys ms) (c : LaterCall) :
    ∀ k ∈ keys.keys, ∃ k' ∈ (keys.call c).keys, k.Narrows k' := by
  intro k hk
  cases c with
  | addKeyText text sourceName =>
    refine ⟨k, ?_, TrustedKey.Narrows.refl k⟩
    cases hadd : keys.addKeyText text sourceName with
    | error e => simpa only [TrustedKeys.call, hadd] using hk
    | ok added => simpa only [TrustedKeys.call, hadd] using TrustedKeys.mem_addKeyText hadd hk
  | revoke id =>
    exact ⟨k.revokeIf id, List.mem_map_of_mem hk, k.narrows_revokeIf id⟩

theorem TrustedKey.Narrows.trans {a b c : TrustedKey ms} (hab : a.Narrows b) (hbc : b.Narrows c) :
    a.Narrows c :=
  ⟨hbc.id_eq.trans hab.id_eq, hbc.key_eq.trans hab.key_eq,
    List.Subset.trans hbc.roles_subset hab.roles_subset,
    fun now h => hab.valid_of_valid now (hbc.valid_of_valid now h),
    fun h => hbc.revoked_of_revoked (hab.revoked_of_revoked h)⟩

/-- Any number of later calls only narrows. -/
theorem TrustedKeys.calls_narrows (keys : TrustedKeys ms) (later : List LaterCall) :
    ∀ k ∈ keys.keys, ∃ k' ∈ (keys.calls later).keys, k.Narrows k' := by
  induction later generalizing keys with
  | nil => exact fun k hk => ⟨k, hk, TrustedKey.Narrows.refl k⟩
  | cons c later ih =>
    intro k hk
    obtain ⟨k₁, hk₁, h₁⟩ := keys.call_narrows c k hk
    obtain ⟨k₂, hk₂, h₂⟩ := ih (keys.call c) k₁ hk₁
    exact ⟨k₂, hk₂, h₁.trans h₂⟩

end AbyssalWarden

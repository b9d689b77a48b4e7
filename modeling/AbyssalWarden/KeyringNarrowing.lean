import AbyssalWarden.KeyringEntries

/-! A keyring narrows the roles of a key it names by bare base64. Where the text holds a blank, a
second line or a comment as well, the roles are those of the keyring. -/
namespace AbyssalWarden

variable {ms : Minisign}

/-- Some entry has more in its text than the base64 of the key, and it and all entries after it
list the role. -/
def GrantsRole (es : List KeyringEntry) (role : KeyRole) : Prop :=
  ∃ e post, e :: post <:+ es ∧ e.bare = false ∧ ∀ e' ∈ e :: post, role ∈ e'.roles

theorem grantsRole_cons {e : KeyringEntry} {es : List KeyringEntry} {role : KeyRole} :
    GrantsRole (e :: es) role ↔
      (e.bare = false ∧ ∀ e' ∈ e :: es, role ∈ e'.roles) ∨ GrantsRole es role := by
  constructor
  · rintro ⟨e', post, hsuf, hbare, hroles⟩
    rcases List.suffix_cons_iff.mp hsuf with heq | hsuf
    · cases heq
      exact .inl ⟨hbare, hroles⟩
    · exact .inr ⟨e', post, hsuf, hbare, hroles⟩
  · rintro (⟨hbare, hroles⟩ | ⟨e', post, hsuf, hbare, hroles⟩)
    · exact ⟨e, es, List.suffix_rfl, hbare, hroles⟩
    · exact ⟨e', post, hsuf.trans (List.suffix_cons e es), hbare, hroles⟩

theorem TrustedKey.mem_under_roles (k : TrustedKey ms) (es : List KeyringEntry) (role : KeyRole) :
    role ∈ (k.under es).roles ↔
      (role ∈ k.roles ∧ ∀ e ∈ es, role ∈ e.roles) ∨ GrantsRole es role := by
  induction es generalizing k with
  | nil => simp [TrustedKey.under, GrantsRole]
  | cons e es ih =>
    have hstep : k.under (e :: es) = (k.applyEntry e.bare e).under es := rfl
    rw [hstep, ih, grantsRole_cons]
    cases hbare : e.bare with
    | true => simp [TrustedKey.applyEntry, and_assoc]
    | false =>
      simp only [TrustedKey.applyEntry, Bool.false_eq_true, if_false, List.forall_mem_cons, true_and]
      tauto

/-- Under the entries the key verifies nothing: it is revoked, there is no time inside all
windows, or it verifies no signature whatever its roles. -/
def TrustedKey.Unusable (k : TrustedKey ms) (es : List KeyringEntry) : Prop :=
  (k.revoked = true ∨ ∃ e ∈ es, e.revoked = true) ∨
  (∀ now, ¬ (k.validAt now = true ∧ ∀ e ∈ es, withinWindow e.notBefore e.notAfter now = true)) ∨
  (∀ data text sig, ms.decode text = .ok sig → ms.verify k.key data sig = false)

/-- No role that the entries grant is new to the key. -/
def TrustedKey.NothingGranted (k : TrustedKey ms) (es : List KeyringEntry) : Prop :=
  ∀ role, GrantsRole es role → role ∈ k.roles

theorem TrustedKey.under_accepts_iff (k : TrustedKey ms) (es : List KeyringEntry) {data : Bytes}
    {sig : ms.Signature} {now : OffsetDateTime} {role : KeyRole} :
    (k.under es).Accepts data sig now role ↔
      ((role ∈ k.roles ∧ ∀ e ∈ es, role ∈ e.roles) ∨ GrantsRole es role) ∧
      ms.verify k.key data sig = true ∧
      (k.revoked = false ∧ ∀ e ∈ es, e.revoked = false) ∧
      (k.validAt now = true ∧ ∀ e ∈ es, withinWindow e.notBefore e.notAfter now = true) := by
  rw [← k.mem_under_roles, ← k.under_revoked, ← k.under_validAt, ← k.under_key es]
  exact ⟨fun h => ⟨h.1, h.2, h.3, h.4⟩, fun h => ⟨h.1, h.2.1, h.2.2.1, h.2.2.2⟩⟩

/-- One key verifies nothing new under the entries exactly when they leave it unusable or grant
it nothing. -/
theorem TrustedKey.under_restricts_iff (k : TrustedKey ms) (es : List KeyringEntry) :
    (∀ data text sig now role, ms.decode text = .ok sig →
      (k.under es).Accepts data sig now role → k.Accepts data sig now role) ↔
    k.Unusable es ∨ k.NothingGranted es := by
  constructor
  · intro h
    -- an unusable key verifies nothing; another one shows what it was granted
    by_cases huse : k.Unusable es
    · exact .inl huse
    · refine .inr fun role hgrant => ?_
      simp only [TrustedKey.Unusable, not_or] at huse
      obtain ⟨⟨hk, hes⟩, hwindow, hsig⟩ := huse
      have hrev : k.revoked = false ∧ ∀ e ∈ es, e.revoked = false := by simpa using And.intro hk hes
      obtain ⟨now, hnow⟩ := not_forall_not.mp hwindow
      obtain ⟨data, text, sig, hdec, hver'⟩ : ∃ data text sig,
          ms.decode text = .ok sig ∧ ms.verify k.key data sig = true := by simpa using hsig
      have hacc : (k.under es).Accepts data sig now role :=
        (k.under_accepts_iff es).mpr ⟨.inr hgrant, hver', hrev, hnow⟩
      exact (h data text sig now role hdec hacc).role_mem
  · intro h data text sig now role hdec hacc
    obtain ⟨hroles, hver, hrev, hval⟩ := (k.under_accepts_iff es).mp hacc
    have hrole : role ∈ k.roles := by
      rcases h with ((hr | ⟨e, he, hr⟩) | hnever | hnosig) | hgrant
      · rw [hr] at hrev
        exact absurd hrev.1 (by decide)
      · rw [hrev.2 e he] at hr
        cases hr
      · exact absurd hval (hnever now)
      · rw [hnosig data text sig hdec] at hver
        cases hver
      · exact hroles.elim And.left (hgrant role)
    exact ⟨hrole, hver, hrev.1, hval.1⟩

/-- After an accepted keyring and any later calls, the keys from before it verify no more than
they did, exactly when the keyring grants none of its usable keys a role it did not have. -/
theorem add_keyring_restricts_iff {parse : Bytes → Except String KeyringFile}
    {keys keys' : TrustedKeys ms} {json : Bytes} {sourceName : String} {ids : List KeyId}
    {file : KeyringFile} (hparse : parse json = .ok file)
    (hadd : keys.addKeyring parse json sourceName = .ok (keys', ids)) :
    (∀ later, Restricts keys (keys'.calls later)) ↔
      ∀ k ∈ keys.keys, k.Unusable (file.naming ms k.id) ∨ k.NothingGranted (file.naming ms k.id) := by
  have hunder := addKeyring_under hparse hadd
  constructor
  · intro h k hk
    refine (k.under_restricts_iff _).mp ?_
    intro data text sig now role hdec hacc
    -- the new keys verify what the entries let the key accept, so the old ones do
    have hnew : keys'.verifyRole data text "" now role = .ok (k.id, ms.trustedComment sig) :=
      TrustedKeys.verifyRole_eq_ok.mpr
        ⟨sig, hdec, rfl, k.under (file.naming ms k.id), hunder k hk, k.under_id _, hacc⟩
    have hold := h [] data text "" now role k.id _ ⟨k, hk, rfl⟩ hnew
    obtain ⟨sig', hdec', _, k', hk', hid, hacc'⟩ := TrustedKeys.verifyRole_eq_ok.mp hold
    rw [hdec] at hdec'
    cases hdec'
    rwa [keys.eq_of_id_eq hk' hk hid] at hacc'
  · intro h later data text path now role id comment hid hok
    obtain ⟨k, hk, rfl⟩ := hid
    obtain ⟨sig, hdec, hcomment, k₂, hk₂, hid₂, hacc⟩ := TrustedKeys.verifyRole_eq_ok.mp hok
    obtain ⟨k₁, hk₁, hnar⟩ := keys'.calls_narrows later _ (hunder k hk)
    -- identifiers are distinct, so the key that verified is the one narrowed
    have heq : k₂ = k₁ := by
      apply (keys'.calls later).eq_of_id_eq hk₂ hk₁
      rw [hid₂, hnar.id_eq, k.under_id]
    rw [heq] at hacc
    have hold := (k.under_restricts_iff _).mpr (h k hk) data text sig now role hdec (hnar.accepts hacc)
    exact TrustedKeys.verifyRole_eq_ok.mpr ⟨sig, hdec, hcomment, k, hk, rfl, hold⟩

/-! ### A key with a blank before it -/

def zeroKeyText : String := "RWQAAAAAAAAAAAAAAAAAAAAAAAAAAAAAAAAAAAAAAAAAAAAAAAAAAAAA"

def zeroKeyring (publicKey : String) (roles : List KeyRole) : KeyringFile where
  format := keyringFormat
  formatVersion := 1
  keys := [⟨"0000000000000000", publicKey, none, none, none, false, roles⟩]
  policy := none
  bundles := []

theorem add_keyring_restricts_bare_key :
    (zeroKeys [.content, .timestamp]).addKeyring
      (fun _ => .ok (zeroKeyring zeroKeyText [.timestamp])) [] "ring" =
        .ok (zeroKeys [.timestamp], [zeroId]) ∧
    ((∀ later, Restricts (zeroKeys [.content, .timestamp]) ((zeroKeys [.timestamp]).calls later)) ↔
      ∀ k ∈ (zeroKeys [.content, .timestamp]).keys,
        k.Unusable ((zeroKeyring zeroKeyText [.timestamp]).naming plainMinisign k.id) ∨
        k.NothingGranted ((zeroKeyring zeroKeyText [.timestamp]).naming plainMinisign k.id)) :=
  ⟨rfl, @add_keyring_restricts_iff plainMinisign
    (fun _ => .ok (zeroKeyring zeroKeyText [.timestamp])) _ _ [] "ring" [zeroId] _ rfl rfl⟩

/-- A timestamp key named with a blank before its base64 becomes a content key. -/
theorem leading_blank_grants_content :
    (zeroKeys [.timestamp]).addKeyring
      (fun _ => .ok (zeroKeyring (" " ++ zeroKeyText) [.content])) [] "ring" =
        .ok (zeroKeys [.content], [zeroId]) ∧
    ¬ Restricts (zeroKeys [.timestamp]) (zeroKeys [.content]) := by
  refine ⟨rfl, fun h => ?_⟩
  have hold := h [] "AAAAAAAAAAAA" "" ⟨0, by decide⟩ .content zeroId "" ⟨_, List.mem_singleton_self _, rfl⟩
    rfl
  cases hold

end AbyssalWarden

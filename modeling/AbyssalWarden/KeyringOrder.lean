import AbyssalWarden.KeyringNarrowing

/-! Keyrings added to no keys. Each key sums up the entries that name it, and none of what is summed
up depends on the order of the entries, so the order of two keyrings does not matter. -/
namespace AbyssalWarden

variable {ms : Minisign}

/-! ### What the entries of a key come to -/

/-- The key that the entry's text holds. -/
def KeyringEntry.newKey (ms : Minisign) (e : KeyringEntry) : Option (TrustedKey ms) :=
  (keyLine e.publicKey.toList).bind fun b64 => (AbyssalWarden.newKey ms b64).toOption

theorem KeyringEntry.keyId_eq (e : KeyringEntry) : e.keyId ms = (e.newKey ms).map TrustedKey.id := by
  rw [KeyringEntry.keyId, KeyringEntry.newKey, Option.map_bind]
  rfl

/-- Entries with one key ID hold one key. -/
def OneKeyPerId (ms : Minisign) (es : List KeyringEntry) : Prop :=
  ∀ e ∈ es, ∀ e' ∈ es, ∀ k k', e.newKey ms = some k → e'.newKey ms = some k' → k.id = k'.id →
    k.key = k'.key

/-- `Some(a.min(b))`, where `None` is above every time. -/
def optionMin (a b : Option OffsetDateTime) : Option OffsetDateTime :=
  match a, b with
  | some a, some b => some (min a b)
  | a, b => a.or b

instance : RightCommutative optionMax where
  right_comm a b c := by
    cases a <;> cases b <;> cases c <;> simp [optionMax, max_comm, max_left_comm]

instance : RightCommutative optionMin where
  right_comm a b c := by
    cases a <;> cases b <;> cases c <;> simp [optionMin, min_comm, min_left_comm]

/-- The key is that of the entries, with the roles that all of them give it, the window that lies in
all of theirs, and revoked if one of them says so. -/
structure TrustedKey.SumOf (k : TrustedKey ms) (es : List KeyringEntry) : Prop where
  held : ∃ e ∈ es, ∃ k', e.newKey ms = some k' ∧ k'.id = k.id ∧ k'.key = k.key
  roles : ∀ role, role ∈ k.roles ↔ ∀ e ∈ es, role ∈ e.roles
  notBefore : k.notBefore = (es.map KeyringEntry.notBefore).foldl optionMax none
  notAfter : k.notAfter = (es.map KeyringEntry.notAfter).foldl optionMin none
  revoked : k.revoked = es.any KeyringEntry.revoked

variable {k k' : TrustedKey ms} {e : KeyringEntry} {es es' : List KeyringEntry}

/-- A key that the first entry brings. -/
theorem TrustedKey.SumOf.first (hkey : e.newKey ms = some k)
    (hfresh : k.notBefore = none ∧ k.notAfter = none ∧ k.revoked = false) :
    (k.applyEntry false e).SumOf [e] := by
  obtain ⟨hbefore, hafter, hrevoked⟩ := hfresh
  refine ⟨⟨e, List.mem_singleton_self e, k, hkey, rfl, rfl⟩, fun role => ?_, ?_, ?_, ?_⟩
  · simp [TrustedKey.applyEntry]
  · simp [TrustedKey.applyEntry, hbefore]
  · simp [TrustedKey.applyEntry, hafter, optionMin]
  · simp [TrustedKey.applyEntry, hrevoked]

/-- One more entry for a key that is there. -/
theorem TrustedKey.SumOf.next (h : k.SumOf es) : (k.applyEntry true e).SumOf (es ++ [e]) := by
  obtain ⟨e', he', hheld⟩ := h.held
  refine ⟨⟨e', List.mem_append_left _ he', hheld⟩, fun role => ?_, ?_, ?_, ?_⟩
  · have hroles := h.roles role
    simp only [TrustedKey.applyEntry, if_true, List.mem_filter, decide_eq_true_eq, hroles,
      List.forall_mem_append, List.forall_mem_singleton]
  · rw [List.map_append, List.foldl_append, ← h.notBefore]
    rfl
  · rw [List.map_append, List.foldl_append, ← h.notAfter]
    rfl
  · rw [List.any_append, ← h.revoked]
    simp [TrustedKey.applyEntry]

/-- Two keys that verify the same signatures with the same outcome. -/
structure TrustedKey.Alike (k k' : TrustedKey ms) : Prop where
  id_eq : k.id = k'.id
  key_eq : k.key = k'.key
  roles : ∀ role, role ∈ k.roles ↔ role ∈ k'.roles
  notBefore : k.notBefore = k'.notBefore
  notAfter : k.notAfter = k'.notAfter
  revoked : k.revoked = k'.revoked

/-- What is summed up does not depend on the order. -/
theorem TrustedKey.SumOf.alike (h : k.SumOf es) (h' : k'.SumOf es') (hid : k.id = k'.id)
    (hperm : es.Perm es') (hone : OneKeyPerId ms es) : k.Alike k' := by
  refine ⟨hid, ?_, fun role => ?_, ?_, ?_, ?_⟩
  · obtain ⟨e, he, k₁, hk₁, hid₁, hkey₁⟩ := h.held
    obtain ⟨e', he', k₂, hk₂, hid₂, hkey₂⟩ := h'.held
    have hids : k₁.id = k₂.id := hid₁.trans (hid.trans hid₂.symm)
    rw [← hkey₁, ← hkey₂]
    exact hone e he e' (hperm.mem_iff.mpr he') k₁ k₂ hk₁ hk₂ hids
  · rw [h.roles, h'.roles]
    exact ⟨fun hall e he => hall e (hperm.mem_iff.mpr he), fun hall e he => hall e (hperm.mem_iff.mp he)⟩
  · rw [h.notBefore, h'.notBefore]
    exact (hperm.map _).foldl_eq none
  · rw [h.notAfter, h'.notAfter]
    exact (hperm.map _).foldl_eq none
  · rw [h.revoked, h'.revoked]
    exact hperm.any_eq

/-! ### The keys of a list of entries -/

def KeyringEntry.names (ms : Minisign) (id : KeyId) (e : KeyringEntry) : Bool := e.keyId ms = some id

/-- There is a key for each entry, and it sums up the entries that name it. -/
structure TrustedKeys.Gathers (keys : TrustedKeys ms) (es : List KeyringEntry) : Prop where
  sum : ∀ k ∈ keys.keys, k.SumOf (es.filter (KeyringEntry.names ms k.id))
  named : ∀ e ∈ es, ∀ id, e.keyId ms = some id → ∃ k ∈ keys.keys, k.id = id

theorem gathers_new : (TrustedKeys.new : TrustedKeys ms).Gathers [] :=
  ⟨fun _ hk => absurd hk List.not_mem_nil, fun _ he => absurd he List.not_mem_nil⟩

variable {keys keys' : TrustedKeys ms} {sourceName : String} {ids ids' : List KeyId} {i : ℕ}

/-- Of a bare entry it is known whether its key is there. -/
theorem existed_iff (hbare : e.bare = true) {id : KeyId} (hid : e.keyId ms = some id) :
    keys.existed e = true ↔ ∃ k ∈ keys.keys, k.id = id := by
  constructor
  · intro h
    obtain ⟨k, hk, hdec⟩ := List.any_eq_true.mp h
    refine ⟨k, hk, ?_⟩
    obtain ⟨b64, hline, hid⟩ := Option.bind_eq_some_iff.mp hid
    have hne : e.publicKey.toList ≠ [] := by
      intro hnil
      rw [hnil] at hline
      cases hline
    rw [keyLine_of_bare hne hbare] at hline
    cases hline
    -- the line of a bare entry is its key
    cases hnew : newKey ms e.publicKey.toList with
    | error reason => simp [hnew, Except.toOption] at hid
    | ok k' =>
      have hdec' := newKey_id hnew
      rw [of_decide_eq_true hdec] at hdec'
      have hkk' : k'.id = id := by simpa [hnew, Except.toOption] using hid
      rw [← hkk']
      exact Option.some.inj hdec'
  · intro h
    obtain ⟨k, hk, hkid⟩ := h
    rw [existed_eq_bare hk (by rw [hid, hkid])]
    exact hbare

/-- A key is added without restrictions. -/
theorem newKey_fresh {b64 : List Char} (h : newKey ms b64 = .ok k) :
    k.notBefore = none ∧ k.notAfter = none ∧ k.revoked = false := by
  unfold newKey at h
  split at h
  · cases h
  · split at h
    · cases h
    · split at h
      · cases h
        exact ⟨rfl, rfl, rfl⟩
      · cases h

/-- What an accepted entry does to the keys. -/
theorem addEntry_eq_ok (h : addEntry sourceName (keys, ids) (e, i) = .ok (keys', ids')) :
    ∃ k, e.newKey ms = some k ∧ keys' = (keys.pushNew k).restrict k.id (keys.existed e) e ∧
      k.notBefore = none ∧ k.notAfter = none ∧ k.revoked = false := by
  simp only [addEntry, except_bind_eq_ok, refuseIf_eq_ok, mapError_eq_ok, Prod.exists, Except.ok.injEq,
    Prod.mk.injEq] at h
  obtain ⟨_, _, _, _, _, _, added, id, hadd, _, _, hkeys, _⟩ := h
  unfold TrustedKeys.addKeyText at hadd
  split at hadd
  · cases hadd
  · rename_i b64 hline
    split at hadd
    · cases hadd
    · rename_i k hk
      cases hadd
      exact ⟨k, by simp [KeyringEntry.newKey, hline, hk, Except.toOption], hkeys.symm, newKey_fresh hk⟩

theorem filter_names_append (id : KeyId) :
    (es ++ [e]).filter (KeyringEntry.names ms id) =
      es.filter (KeyringEntry.names ms id) ++ if e.keyId ms = some id then [e] else [] := by
  rw [List.filter_append]
  by_cases hid : e.keyId ms = some id <;> simp [KeyringEntry.names, hid]

/-- An entry is summed up with those before it. -/
theorem TrustedKeys.Gathers.addEntry (hgathers : keys.Gathers es) (hbare : e.bare = true)
    (h : addEntry sourceName (keys, ids) (e, i) = .ok (keys', ids')) : keys'.Gathers (es ++ [e]) := by
  obtain ⟨k₀, hkey, rfl, hfresh⟩ := addEntry_eq_ok h
  have hid : e.keyId ms = some k₀.id := by rw [e.keyId_eq, hkey]; rfl
  -- the text of the key is its plain spelling, so it is recognised
  have hexisted : keys.existed e = true ↔ ∃ k ∈ keys.keys, k.id = k₀.id := existed_iff hbare hid
  -- the entry says nothing of keys with other identifiers
  have hother (k : TrustedKey ms) (hk : k ∈ keys.keys) (hne : k.id ≠ k₀.id) :
      k.SumOf ((es ++ [e]).filter (KeyringEntry.names ms k.id)) := by
    have hne' : e.keyId ms ≠ some k.id := fun heq => hne (Option.some.inj (heq.symm.trans hid))
    rw [filter_names_append, if_neg hne', List.append_nil]
    exact hgathers.sum k hk
  constructor
  · intro k' hk'
    obtain ⟨k, hk, rfl⟩ := List.mem_map.mp hk'
    unfold TrustedKeys.pushNew at hk
    -- a key that was there gets one more entry; a new one is summed up from this entry alone
    by_cases hthere : k₀.id ∈ keys.keys.map TrustedKey.id
    · rw [dif_pos hthere] at hk
      have hex : keys.existed e = true := hexisted.mpr (List.mem_map.mp hthere)
      by_cases hkid : k.id = k₀.id
      · rw [if_pos hkid, hex]
        change (k.applyEntry true e).SumOf ((es ++ [e]).filter (KeyringEntry.names ms k.id))
        rw [filter_names_append, if_pos (by rw [hid, hkid])]
        exact (hgathers.sum k hk).next
      · rw [if_neg hkid]
        exact hother k hk hkid
    · rw [dif_neg hthere] at hk
      have hex : keys.existed e = false :=
        Bool.eq_false_iff.mpr fun hex => hthere (List.mem_map.mpr (hexisted.mp hex))
      rcases List.mem_append.mp hk with hold | hnew
      · have hkid : k.id ≠ k₀.id := fun heq => hthere (List.mem_map.mpr ⟨k, hold, heq⟩)
        rw [if_neg hkid]
        exact hother k hold hkid
      · rw [List.mem_singleton.mp hnew, if_pos rfl, hex]
        change (k₀.applyEntry false e).SumOf ((es ++ [e]).filter (KeyringEntry.names ms k₀.id))
        have hnone : es.filter (KeyringEntry.names ms k₀.id) = [] := by
          refine List.filter_eq_nil_iff.mpr fun e' he' hnames => hthere ?_
          obtain ⟨k, hk, hkid⟩ := hgathers.named e' he' k₀.id (of_decide_eq_true hnames)
          exact List.mem_map.mpr ⟨k, hk, hkid⟩
        rw [filter_names_append, if_pos hid, hnone]
        exact TrustedKey.SumOf.first hkey hfresh
  · intro e' he' id hid'
    have hstays : ∃ k ∈ (keys.pushNew k₀).keys, k.id = id := by
      rcases List.mem_append.mp he' with hold | hnew
      · obtain ⟨k, hk, hkid⟩ := hgathers.named e' hold id hid'
        exact ⟨k, TrustedKeys.mem_pushNew hk, hkid⟩
      · rw [List.mem_singleton.mp hnew, hid] at hid'
        rw [← Option.some.inj hid']
        unfold TrustedKeys.pushNew
        split
        · rename_i hthere
          exact List.mem_map.mp hthere
        · exact ⟨k₀, List.mem_append_right _ (List.mem_singleton_self k₀), rfl⟩
    obtain ⟨k, hk, hkid⟩ := hstays
    refine ⟨_, List.mem_map_of_mem hk, ?_⟩
    split
    · exact hkid
    · exact hkid

theorem TrustedKeys.Gathers.addEntries {items : List (KeyringEntry × ℕ)} (hgathers : keys.Gathers es)
    (hbare : ∀ item ∈ items, item.1.bare = true)
    (h : checkEach (AbyssalWarden.addEntry sourceName) (keys, ids) items = .ok (keys', ids')) :
    keys'.Gathers (es ++ items.map Prod.fst) := by
  induction items generalizing keys ids es with
  | nil =>
    cases h
    rw [List.map_nil, List.append_nil]
    exact hgathers
  | cons item items ih =>
    obtain ⟨⟨keys₁, ids₁⟩, hitem, hrest⟩ := checkEach_cons_eq_ok.mp h
    have hfirst := hgathers.addEntry (hbare item List.mem_cons_self) hitem
    have hall := ih hfirst (fun item hitem => hbare item (List.mem_cons_of_mem _ hitem)) hrest
    rwa [List.append_assoc] at hall

/-! ### Threshold and floors -/

/-- The floor of a bundle after more of them. -/
def raiseFloor (name : String) (found : Option ℕ) (floor : BundleFloor) : Option ℕ :=
  if floor.name = name then some (max (found.getD 0) floor.minSequence) else found

instance (name : String) : RightCommutative (raiseFloor name) where
  right_comm found a b := by
    unfold raiseFloor
    split <;> split <;> simp [max_comm, max_left_comm]

/-- The strictest threshold of two keyrings. -/
def KeyringFile.threshold (file : KeyringFile) : ℕ := (file.policy.map KeyringPolicy.threshold).getD 0

theorem addPolicy_eq_ok {policy : Option KeyringPolicy} (h : keys.addPolicy sourceName policy = .ok keys') :
    keys' = { keys with threshold := max keys.threshold ((policy.map KeyringPolicy.threshold).getD 0) } := by
  cases policy with
  | none =>
    cases h
    simp
  | some policy =>
    simp only [TrustedKeys.addPolicy, except_bind_eq_ok, refuseIf_eq_ok, Except.ok.injEq] at h
    obtain ⟨_, _, heq⟩ := h
    exact heq.symm

theorem addFloor_eq_ok {floor : BundleFloor} (h : addFloor sourceName keys (floor, i) = .ok keys') :
    keys' = { keys with minSequences := fun name => raiseFloor name (keys.minSequences name) floor } := by
  simp only [addFloor, except_bind_eq_ok, refuseIf_eq_ok, Except.ok.injEq] at h
  obtain ⟨_, _, heq⟩ := h
  rw [← heq]
  congr 1
  funext name
  by_cases hname : floor.name = name
  · rw [← hname]
    simp [raiseFloor]
  · rw [Function.update_of_ne (Ne.symm hname), raiseFloor, if_neg hname]

theorem addFloors_eq_ok {items : List (BundleFloor × ℕ)}
    (h : checkEach (addFloor sourceName) keys items = .ok keys') :
    keys' = { keys with minSequences := fun name =>
      (items.map Prod.fst).foldl (raiseFloor name) (keys.minSequences name) } := by
  induction items generalizing keys with
  | nil =>
    cases h
    rfl
  | cons item items ih =>
    obtain ⟨keys₁, hitem, hrest⟩ := checkEach_cons_eq_ok.mp h
    rw [ih hrest, addFloor_eq_ok hitem]
    rfl

theorem addEntries_policy {items : List (KeyringEntry × ℕ)}
    (h : checkEach (addEntry sourceName) (keys, ids) items = .ok (keys', ids')) :
    keys'.threshold = keys.threshold ∧ keys'.minSequences = keys.minSequences := by
  refine checkEach_invariant (I := fun acc : TrustedKeys ms × List KeyId =>
    acc.1.threshold = keys.threshold ∧ acc.1.minSequences = keys.minSequences) ?_ ⟨rfl, rfl⟩ h
  intro acc item acc' hacc hitem
  obtain ⟨k, _, hkeys, _⟩ := addEntry_eq_ok hitem
  have hpush : (acc.1.pushNew k).threshold = acc.1.threshold ∧
      (acc.1.pushNew k).minSequences = acc.1.minSequences := by
    unfold TrustedKeys.pushNew
    split <;> exact ⟨rfl, rfl⟩
  rw [hkeys]
  exact ⟨hpush.1.trans hacc.1, hpush.2.trans hacc.2⟩

/-! ### A whole keyring -/

/-- What was gathered from keyrings: the keys of their entries, the strictest of their thresholds, and
the highest of their floors. -/
structure TrustedKeys.GatheredFrom (keys : TrustedKeys ms) (files : List KeyringFile) : Prop where
  gathers : keys.Gathers (files.flatMap KeyringFile.keys)
  threshold : keys.threshold = (files.map KeyringFile.threshold).foldl max 0
  minSequences : ∀ name, keys.minSequences name =
    (files.flatMap KeyringFile.bundles).foldl (raiseFloor name) none

theorem gatheredFrom_new : (TrustedKeys.new : TrustedKeys ms).GatheredFrom [] :=
  ⟨gathers_new, rfl, fun _ => rfl⟩

variable {parse : Bytes → Except String KeyringFile} {json : Bytes} {file : KeyringFile}
  {files files' : List KeyringFile}

theorem TrustedKeys.GatheredFrom.addKeyring (hgathered : keys.GatheredFrom files)
    (hparse : parse json = .ok file) (hbare : ∀ e ∈ file.keys, e.bare = true)
    (h : keys.addKeyring parse json sourceName = .ok (keys', ids)) :
    keys'.GatheredFrom (files ++ [file]) := by
  simp only [TrustedKeys.addKeyring, except_bind_eq_ok, mapError_eq_ok, hparse, Except.ok.injEq,
    exists_eq_left'] at h
  obtain ⟨_, _, _, _, _, _, keys₁, hpolicy, keys₂, hfloors, hentries⟩ := h
  have hkeys₁ := addPolicy_eq_ok hpolicy
  have hkeys₂ := addFloors_eq_ok hfloors
  obtain ⟨hthreshold, hmin⟩ := addEntries_policy hentries
  have hsame : keys₂.Gathers (files.flatMap KeyringFile.keys) := by
    rw [hkeys₂, hkeys₁]
    exact ⟨hgathered.gathers.sum, hgathered.gathers.named⟩
  have hbare' : ∀ item ∈ file.keys.zipIdx, item.1.bare = true :=
    fun item hitem => hbare item.1 (List.fst_mem_of_mem_zipIdx hitem)
  refine ⟨?_, ?_, fun name => ?_⟩
  · have hall := hsame.addEntries hbare' hentries
    rw [List.zipIdx_map_fst] at hall
    rwa [List.flatMap_append, List.flatMap_singleton]
  · rw [hthreshold, hkeys₂, hkeys₁, List.map_append, List.foldl_append, ← hgathered.threshold]
    rfl
  · rw [hmin, hkeys₂, hkeys₁, List.flatMap_append, List.foldl_append, ← hgathered.minSequences,
      List.flatMap_singleton, List.zipIdx_map_fst]

/-! ### Order -/

/-- Whether a keyring is accepted does not depend on the keys it is added to. -/
theorem addKeyring_accepts (h : keys.addKeyring parse json sourceName = .ok (keys', ids))
    (other : TrustedKeys ms) : ∃ r, other.addKeyring parse json sourceName = .ok r := by
  simp only [TrustedKeys.addKeyring, except_bind_eq_ok, mapError_eq_ok, refuseIf_eq_ok] at h
  obtain ⟨file, hparse, _, hformat, _, hversion, _, hmany, keys₁, hpolicy, keys₂, hfloors, hentries⟩ := h
  have hpolicies : ∃ other₁, other.addPolicy sourceName file.policy = .ok other₁ := by
    cases hp : file.policy with
    | none => exact ⟨other, rfl⟩
    | some policy =>
      rw [hp] at hpolicy
      simp only [TrustedKeys.addPolicy, except_bind_eq_ok] at hpolicy ⊢
      obtain ⟨u, hcheck, _⟩ := hpolicy
      exact ⟨_, u, hcheck, rfl⟩
  -- each check looks at its own item of the keyring only
  obtain ⟨other₁, hother₁⟩ := hpolicies
  have hfloor (acc : TrustedKeys ms) (item : BundleFloor × ℕ) (acc' : TrustedKeys ms)
      (hitem : addFloor sourceName acc item = .ok acc') (other : TrustedKeys ms) :
      ∃ other', addFloor sourceName other item = .ok other' := by
    simp only [addFloor, except_bind_eq_ok] at hitem ⊢
    obtain ⟨u, hcheck, _⟩ := hitem
    exact ⟨_, u, hcheck, rfl⟩
  have hentry (acc : TrustedKeys ms × List KeyId) (item : KeyringEntry × ℕ)
      (acc' : TrustedKeys ms × List KeyId) (hitem : addEntry sourceName acc item = .ok acc')
      (other : TrustedKeys ms × List KeyId) : ∃ other', addEntry sourceName other item = .ok other' := by
    simp only [addEntry, except_bind_eq_ok, mapError_eq_ok, Prod.exists] at hitem ⊢
    obtain ⟨u₁, h₁, u₂, h₂, u₃, h₃, added, id, hadd, u₄, h₄, _⟩ := hitem
    -- a key text is read or refused whatever keys there are
    unfold TrustedKeys.addKeyText at hadd
    split at hadd
    · cases hadd
    · rename_i b64 hline
      split at hadd
      · cases hadd
      · rename_i k hk
        cases hadd
        refine ⟨_, _, u₁, h₁, u₂, h₂, u₃, h₃, other.1.pushNew k, k.id, ?_, u₄, h₄, rfl⟩
        simp only [TrustedKeys.addKeyText, hline, hk]
  obtain ⟨other₂, hother₂⟩ := checkEach_accepts hfloor hfloors other₁
  obtain ⟨other₃, hother₃⟩ := checkEach_accepts hentry hentries (other₂, [])
  refine ⟨other₃, ?_⟩
  simp only [TrustedKeys.addKeyring, except_bind_eq_ok, mapError_eq_ok, refuseIf_eq_ok]
  exact ⟨file, hparse, (), hformat, (), hversion, (), hmany, other₁, hother₁, other₂, hother₂, hother₃⟩

/-- The key that verifies a signature, if there is one. -/
theorem find_verifying_iff {data : Bytes} {sig : ms.Signature} {role : KeyRole} :
    (keys.keys.filter (role ∈ ·.roles)).find? (ms.verify ·.key data sig) = some k ↔
      k ∈ keys.keys ∧ role ∈ k.roles ∧ ms.verify k.key data sig = true := by
  have hfound {k : TrustedKey ms}
      (h : (keys.keys.filter (role ∈ ·.roles)).find? (ms.verify ·.key data sig) = some k) :
      k ∈ keys.keys ∧ role ∈ k.roles ∧ ms.verify k.key data sig = true := by
    obtain ⟨hk, hrole⟩ := List.mem_filter.mp (List.mem_of_find?_eq_some h)
    exact ⟨hk, of_decide_eq_true hrole, by simpa using List.find?_some h⟩
  refine ⟨hfound, fun h => ?_⟩
  obtain ⟨hk, hrole, hverify⟩ := h
  cases hfind : (keys.keys.filter (role ∈ ·.roles)).find? (ms.verify ·.key data sig) with
  | none =>
    have hnone := List.find?_eq_none.mp hfind k (List.mem_filter.mpr ⟨hk, decide_eq_true hrole⟩)
    exact absurd hverify hnone
  | some k' =>
    -- a signature names one key ID
    obtain ⟨hk', _, hverify'⟩ := hfound hfind
    have hid : k'.id = k.id := by
      rw [← k'.id_eq, ← k.id_eq, ← ms.verify_keyId _ _ _ hverify', ← ms.verify_keyId _ _ _ hverify]
    rw [keys.eq_of_id_eq hk' hk hid]

/-- Keys that are alike give the same verdict. -/
theorem verifyRole_alike (h : ∀ k ∈ keys.keys, ∃ k' ∈ keys'.keys, k.Alike k')
    (h' : ∀ k' ∈ keys'.keys, ∃ k ∈ keys.keys, k'.Alike k) (data : Bytes) (text path : String)
    (now : OffsetDateTime) (role : KeyRole) :
    keys.verifyRole data text path now role = keys'.verifyRole data text path now role := by
  unfold TrustedKeys.verifyRole
  cases ms.decode text with
  | error e => rfl
  | ok sig =>
    -- a key that verifies is found in both or in neither
    cases hfind : (keys.keys.filter (role ∈ ·.roles)).find? (ms.verify ·.key data sig) with
    | none =>
      have hnone : (keys'.keys.filter (role ∈ ·.roles)).find? (ms.verify ·.key data sig) = none := by
        cases hfind' : (keys'.keys.filter (role ∈ ·.roles)).find? (ms.verify ·.key data sig) with
        | none => rfl
        | some k' =>
          obtain ⟨hk', hrole, hverify⟩ := find_verifying_iff.mp hfind'
          obtain ⟨k, hk, halike⟩ := h' k' hk'
          have hsome := find_verifying_iff.mpr
            ⟨hk, (halike.roles role).mp hrole, by rw [← halike.key_eq]; exact hverify⟩
          rw [hfind] at hsome
          cases hsome
      simp only [hfind, hnone]
    | some k =>
      obtain ⟨hk, hrole, hverify⟩ := find_verifying_iff.mp hfind
      obtain ⟨k', hk', halike⟩ := h k hk
      have hsome := find_verifying_iff.mpr
        ⟨hk', (halike.roles role).mp hrole, by rw [← halike.key_eq]; exact hverify⟩
      simp only [hfind, hsome, TrustedKey.validAt, halike.revoked, halike.id_eq, halike.notBefore, halike.notAfter]
      rfl

/-- What is gathered from the same keyrings in another order is alike. -/
theorem TrustedKeys.GatheredFrom.alike (h : keys.GatheredFrom files) (h' : keys'.GatheredFrom files')
    (hperm : files.Perm files') (hone : OneKeyPerId ms (files.flatMap KeyringFile.keys)) :
    ∀ k ∈ keys.keys, ∃ k' ∈ keys'.keys, k.Alike k' := by
  intro k hk
  have hsum := h.gathers.sum k hk
  obtain ⟨e, he, k₀, hk₀, hid₀, _⟩ := hsum.held
  have hentries : (files.flatMap KeyringFile.keys).Perm (files'.flatMap KeyringFile.keys) :=
    hperm.flatMap_right _
  have hnamed : e.keyId ms = some k.id := by rw [e.keyId_eq, hk₀, Option.map_some, hid₀]
  obtain ⟨k', hk', hid⟩ := h'.gathers.named e (hentries.mem_iff.mp (List.mem_filter.mp he).1) k.id hnamed
  have hsum' := h'.gathers.sum k' hk'
  rw [hid] at hsum'
  refine ⟨k', hk', hsum.alike hsum' hid.symm (hentries.filter _) fun e₁ he₁ e₂ he₂ => ?_⟩
  exact hone e₁ (List.mem_filter.mp he₁).1 e₂ (List.mem_filter.mp he₂).1

/-- Two keyrings added to no keys, one after the other. -/
def addBoth (ms : Minisign) (parse : Bytes → Except String KeyringFile) (first second : Bytes × String) :
    Except TrustError (TrustedKeys ms) := do
  let (keys, _) ← (TrustedKeys.new : TrustedKeys ms).addKeyring parse first.1 first.2
  let (keys, _) ← keys.addKeyring parse second.1 second.2
  .ok keys

theorem addBoth_gathered {first second : Bytes × String} {file₁ file₂ : KeyringFile}
    {r₁ r₂ : TrustedKeys ms × List KeyId} (hparse₁ : parse first.1 = .ok file₁)
    (hparse₂ : parse second.1 = .ok file₂)
    (h₁ : (TrustedKeys.new : TrustedKeys ms).addKeyring parse first.1 first.2 = .ok r₁)
    (h₂ : (TrustedKeys.new : TrustedKeys ms).addKeyring parse second.1 second.2 = .ok r₂)
    (hbare₁ : ∀ e ∈ file₁.keys, e.bare = true) (hbare₂ : ∀ e ∈ file₂.keys, e.bare = true) :
    ∃ keys, addBoth ms parse first second = .ok keys ∧ keys.GatheredFrom [file₁, file₂] := by
  obtain ⟨r, hr⟩ := addKeyring_accepts h₂ r₁.1
  have hfirst : r₁.1.GatheredFrom [file₁] := gatheredFrom_new.addKeyring hparse₁ hbare₁ h₁
  have hsecond : r.1.GatheredFrom [file₁, file₂] := hfirst.addKeyring hparse₂ hbare₂ hr
  refine ⟨r.1, ?_, hsecond⟩
  simp only [addBoth, h₁, except_ok_bind, hr]

/-- The order of two accepted keyrings of bare keys, one for each ID, does not matter. -/
theorem keyring_order_irrelevant {first second : Bytes × String} {file₁ file₂ : KeyringFile}
    {r₁ r₂ : TrustedKeys ms × List KeyId} (hparse₁ : parse first.1 = .ok file₁)
    (hparse₂ : parse second.1 = .ok file₂)
    (h₁ : (TrustedKeys.new : TrustedKeys ms).addKeyring parse first.1 first.2 = .ok r₁)
    (h₂ : (TrustedKeys.new : TrustedKeys ms).addKeyring parse second.1 second.2 = .ok r₂)
    (hbare : ∀ e ∈ file₁.keys ++ file₂.keys, e.bare = true)
    (hone : OneKeyPerId ms (file₁.keys ++ file₂.keys)) :
    ∃ keys keys', addBoth ms parse first second = .ok keys ∧ addBoth ms parse second first = .ok keys' ∧
      keys.threshold = keys'.threshold ∧ (∀ name, keys.minSequence name = keys'.minSequence name) ∧
      ∀ data text path now role,
        keys.verifyRole data text path now role = keys'.verifyRole data text path now role := by
  have hbare₁ (e : KeyringEntry) (he : e ∈ file₁.keys) : e.bare = true := hbare e (List.mem_append_left _ he)
  have hbare₂ (e : KeyringEntry) (he : e ∈ file₂.keys) : e.bare = true := hbare e (List.mem_append_right _ he)
  obtain ⟨keys, hkeys, hgathered⟩ := addBoth_gathered hparse₁ hparse₂ h₁ h₂ hbare₁ hbare₂
  obtain ⟨keys', hkeys', hgathered'⟩ := addBoth_gathered hparse₂ hparse₁ h₂ h₁ hbare₂ hbare₁
  have hperm : [file₁, file₂].Perm [file₂, file₁] := List.Perm.swap _ _ []
  -- each ID stands for one key, whichever keyring comes first
  have hone₁ : OneKeyPerId ms ([file₁, file₂].flatMap KeyringFile.keys) := by
    simpa [List.flatMap_cons] using hone
  have hone₂ : OneKeyPerId ms ([file₂, file₁].flatMap KeyringFile.keys) := by
    have hmem (e : KeyringEntry) : e ∈ [file₁, file₂].flatMap KeyringFile.keys ↔
        e ∈ [file₂, file₁].flatMap KeyringFile.keys := (hperm.flatMap_right _).mem_iff
    exact fun e he e' he' => hone₁ e ((hmem e).mpr he) e' ((hmem e').mpr he')
  refine ⟨keys, keys', hkeys, hkeys', ?_, fun name => ?_, ?_⟩
  · rw [hgathered.threshold, hgathered'.threshold]
    exact (hperm.map _).foldl_eq 0
  · rw [TrustedKeys.minSequence, TrustedKeys.minSequence, hgathered.minSequences, hgathered'.minSequences]
    exact (hperm.flatMap_right _).foldl_eq none
  · exact verifyRole_alike (hgathered.alike hgathered' hperm hone₁)
      (hgathered'.alike hgathered hperm.symm hone₂)

def timestampRing : KeyringFile := zeroKeyring zeroKeyText [.timestamp]

def contentRing : KeyringFile := { zeroKeyring zeroKeyText [.content, .timestamp] with policy := some ⟨2⟩ }

/-- Two files of one key. -/
def parseRings (json : Bytes) : Except String KeyringFile :=
  if json = [] then .ok timestampRing else .ok contentRing

theorem keyring_order_irrelevant_rings :
    ∃ keys keys', addBoth plainMinisign parseRings ([], "a") ([0], "b") = .ok keys ∧
      addBoth plainMinisign parseRings ([0], "b") ([], "a") = .ok keys' ∧
      keys.threshold = keys'.threshold ∧ (∀ name, keys.minSequence name = keys'.minSequence name) ∧
      ∀ data text path now role,
        keys.verifyRole data text path now role = keys'.verifyRole data text path now role := by
  have hone : OneKeyPerId plainMinisign (timestampRing.keys ++ contentRing.keys) := by
    have hsame (e : KeyringEntry) (he : e ∈ timestampRing.keys ++ contentRing.keys) :
        e.publicKey = zeroKeyText := by
      rcases List.mem_append.mp he with he | he <;> rw [List.mem_singleton.mp he]
    intro e he e' he' k k' hk hk' _
    rw [KeyringEntry.newKey, hsame e he] at hk
    rw [KeyringEntry.newKey, hsame e' he', hk] at hk'
    rw [Option.some.inj hk']
  refine @keyring_order_irrelevant plainMinisign parseRings ([], "a") ([0], "b") timestampRing contentRing
    (zeroKeys [.timestamp], [zeroId]) ({ zeroKeys [.content, .timestamp] with threshold := 2 }, [zeroId])
    rfl rfl rfl rfl (fun e he => ?_) hone
  rcases List.mem_append.mp he with he | he <;> rw [List.mem_singleton.mp he] <;> rfl

end AbyssalWarden

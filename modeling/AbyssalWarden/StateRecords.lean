import AbyssalWarden.ContentState

/-! What the checks of the content state say and what recording does to it: per name, sequences and
timestamp versions only advance, one sequence keeps one manifest, and revoked keys stay revoked. -/
namespace AbyssalWarden

variable {s s' : ContentState} {b : VerifiedBundle} {ts : Timestamp} {now : OffsetDateTime}
  {floor : Option ℕ} {d d' d'' : StateFile}

/-- The later record has a higher sequence, or the same with the same manifest. -/
def BundleRecord.Advances (r r' : BundleRecord) : Prop :=
  r.sequence < r'.sequence ∨ r.sequence = r'.sequence ∧ r.manifestSha256 = r'.manifestSha256

def TimestampRecord.Advances (r r' : TimestampRecord) : Prop := r.version ≤ r'.version

/-- What a state may become: nothing is forgotten, and every record only advances. -/
structure StateFile.Extends (d d' : StateFile) : Prop where
  bundles : MapLE BundleRecord.Advances d.bundles d'.bundles
  timestamps : MapLE TimestampRecord.Advances d.timestamps d'.timestamps
  revokedKeys : MapLE (· = ·) d.revokedKeys d'.revokedKeys

theorem BundleRecord.advances_refl (r : BundleRecord) : r.Advances r := .inr ⟨rfl, rfl⟩

theorem BundleRecord.advances_trans (r₁ r₂ r₃ : BundleRecord) (h₁ : r₁.Advances r₂)
    (h₂ : r₂.Advances r₃) : r₁.Advances r₃ := by
  rcases h₁ with h₁ | ⟨h₁, hsha₁⟩
  · rcases h₂ with h₂ | ⟨h₂, _⟩
    · exact .inl (h₁.trans h₂)
    · exact .inl (h₂ ▸ h₁)
  · rcases h₂ with h₂ | ⟨h₂, hsha₂⟩
    · exact .inl (h₁ ▸ h₂)
    · exact .inr ⟨h₁.trans h₂, hsha₁.trans hsha₂⟩

theorem TimestampRecord.advances_refl (r : TimestampRecord) : r.Advances r := le_refl r.version

theorem TimestampRecord.advances_trans (r₁ r₂ r₃ : TimestampRecord) (h₁ : r₁.Advances r₂)
    (h₂ : r₂.Advances r₃) : r₁.Advances r₃ :=
  le_trans h₁ h₂

theorem StateFile.Extends.refl (d : StateFile) : d.Extends d :=
  ⟨mapLE_refl BundleRecord.advances_refl _, mapLE_refl TimestampRecord.advances_refl _,
    mapLE_refl (fun _ => rfl) _⟩

theorem StateFile.Extends.trans (h₁ : d.Extends d') (h₂ : d'.Extends d'') : d.Extends d'' :=
  ⟨h₁.bundles.trans BundleRecord.advances_trans h₂.bundles,
    h₁.timestamps.trans TimestampRecord.advances_trans h₂.timestamps,
    h₁.revokedKeys.trans (fun _ _ _ => Eq.trans) h₂.revokedKeys⟩

/-! ### Checks -/

theorem check_eq_ok : s.check b floor = .ok () ↔
    (∀ f, floor = some f → f ≤ b.manifest.sequence) ∧
    ∀ r, s.recordFor b.manifest.name = some r →
      r.sequence < b.manifest.sequence ∨
        r.sequence = b.manifest.sequence ∧ r.manifestSha256 = b.manifestSha256 := by
  simp only [ContentState.check, except_bind_eq_ok, refuseSome_eq_ok, exists_const,
    Option.filter_eq_none_iff, decide_eq_true_eq, not_lt, ContentState.recordFor]
  refine and_congr Iff.rfl ?_
  cases hr : s.data.bundles[b.manifest.name]? with
  | none => simp
  | some r =>
    simp only [Option.some.injEq, forall_eq']
    split_ifs with hlow heq
    · simp only [false_iff, not_or, not_and]
      exact ⟨by omega, fun h => by omega⟩
    · simp only [false_iff, not_or, not_and]
      exact ⟨by omega, fun _ hsha => heq.2 hsha.symm⟩
    · simp only [true_iff]
      rcases Nat.lt_or_eq_of_le (not_lt.mp hlow) with hlt | hseq
      · exact .inl hlt
      · exact .inr ⟨hseq, by_contra fun hne => heq ⟨hseq.symm, fun h => hne h.symm⟩⟩

theorem checkTimestamp_eq_ok : s.checkTimestamp ts = .ok () ↔
    (∀ r, s.timestampFor ts.bundle = some r → r.version ≤ ts.version) ∧
    ∀ r, s.recordFor ts.bundle = some r → r.sequence ≤ ts.sequence := by
  simp only [ContentState.checkTimestamp, except_bind_eq_ok, refuseSome_eq_ok, exists_const,
    Option.filter_eq_none_iff, decide_eq_true_eq, not_lt, ContentState.recordFor,
    ContentState.timestampFor]

/-! ### Records -/

theorem recordTimestamp_extends : s.data.Extends (s.recordTimestamp ts now).data := by
  unfold ContentState.recordTimestamp
  split
  · rename_i hnewer
    refine ⟨mapLE_refl BundleRecord.advances_refl _, mapLE_insert TimestampRecord.advances_refl ?_,
      mapLE_refl (fun _ => rfl) _⟩
    intro r hr
    simpa [hr, TimestampRecord.Advances] using hnewer
  · exact StateFile.Extends.refl _

theorem recordTimestamp_bundles : (s.recordTimestamp ts now).data.bundles = s.data.bundles := by
  unfold ContentState.recordTimestamp
  split <;> rfl

theorem recordTimestamp_revokedKeys :
    (s.recordTimestamp ts now).data.revokedKeys = s.data.revokedKeys := by
  unfold ContentState.recordTimestamp
  split <;> rfl

/-- The revoked keys, folded over the IDs a manifest revokes. -/
theorem foldl_insertIfNew_mem {ids : List String} {rec : RevocationRecord}
    {revoked : BTreeMap String RevocationRecord} {id : String} :
    id ∈ ids.foldl (fun revoked id => revoked.insertIfNew (toAsciiUppercase id) rec) revoked ↔
      id ∈ revoked ∨ ∃ i ∈ ids, id = toAsciiUppercase i := by
  induction ids generalizing revoked with
  | nil => simp
  | cons i ids ih =>
    rw [List.foldl_cons, ih, Std.ExtTreeMap.mem_insertIfNew]
    simp only [Std.LawfulEqCmp.compare_eq_iff_eq, List.mem_cons, exists_eq_or_imp]
    rw [or_assoc, or_left_comm, @eq_comm _ _ id]

theorem foldl_insertIfNew_le {ids : List String} {rec : RevocationRecord}
    {revoked : BTreeMap String RevocationRecord} :
    MapLE (· = ·) revoked
      (ids.foldl (fun revoked id => revoked.insertIfNew (toAsciiUppercase id) rec) revoked) := by
  induction ids generalizing revoked with
  | nil => exact mapLE_refl (fun _ => rfl) _
  | cons i ids ih =>
    refine MapLE.trans (fun _ _ _ => Eq.trans) ?_ ih
    intro k v hk
    refine ⟨v, ?_, rfl⟩
    have hmem : k ∈ revoked := Std.ExtTreeMap.mem_iff_isSome_getElem?.mpr (by rw [hk]; rfl)
    rw [Std.ExtTreeMap.getElem?_insertIfNew, if_neg, hk]
    rintro ⟨heq, hnot⟩
    rw [Std.LawfulEqCmp.compare_eq_iff_eq.mp heq] at hnot
    exact hnot hmem

theorem record_bundles : (s.record b now).data.bundles =
    if s.data.bundles[b.manifest.name]?.all fun r => b.manifest.sequence > r.sequence then
      s.data.bundles.insert b.manifest.name
        ⟨b.manifest.sequence, b.manifestSha256, b.signers.map KeyId.toString, now⟩
    else s.data.bundles := by
  unfold ContentState.record
  dsimp only
  split <;> rfl

theorem record_revokedKeys : (s.record b now).data.revokedKeys =
    ContentState.recordRevocations b.manifest now s.data.revokedKeys := by
  unfold ContentState.record
  dsimp only
  split <;> rfl

theorem record_timestamps : (s.record b now).data.timestamps = s.data.timestamps := by
  unfold ContentState.record
  dsimp only
  split <;> rfl

theorem mem_revokedKeys {id : String} : id ∈ s.revokedKeys ↔ id ∈ s.data.revokedKeys :=
  Std.ExtTreeMap.mem_keys

theorem record_mem_revokedKeys {id : String} :
    id ∈ (s.record b now).revokedKeys ↔
      id ∈ s.revokedKeys ∨ ∃ i ∈ b.manifest.revokeKeys, id = toAsciiUppercase i := by
  rw [mem_revokedKeys, mem_revokedKeys, record_revokedKeys]
  exact foldl_insertIfNew_mem

/-- What was checked and recorded is on record. -/
theorem record_recordFor (hcheck : s.check b floor = .ok ()) :
    ∃ r, (s.record b now).recordFor b.manifest.name = some r ∧
      r.sequence = b.manifest.sequence ∧ r.manifestSha256 = b.manifestSha256 := by
  simp only [ContentState.recordFor, record_bundles]
  split
  · exact ⟨_, get_insert .. |>.trans (if_pos rfl), rfl, rfl⟩
  · rename_i hold
    cases hr : s.data.bundles[b.manifest.name]? with
    | none => simp [hr] at hold
    | some r =>
      simp only [hr, Option.all_some, decide_eq_true_eq, gt_iff_lt, not_lt] at hold
      rcases (check_eq_ok.mp hcheck).2 r hr with hlt | ⟨hseq, hsha⟩
      · omega
      · exact ⟨r, rfl, hseq, hsha⟩

theorem record_extends : s.data.Extends (s.record b now).data := by
  refine ⟨?_, ?_, ?_⟩
  · rw [record_bundles]
    split
    · rename_i hnewer
      refine mapLE_insert BundleRecord.advances_refl fun r hr => .inl ?_
      simpa [hr] using hnewer
    · exact mapLE_refl BundleRecord.advances_refl _
  · rw [record_timestamps]
    exact mapLE_refl TimestampRecord.advances_refl _
  · rw [record_revokedKeys]
    exact foldl_insertIfNew_le

/-! ### Revoked IDs -/

theorem eqIgnoreAsciiCase_toAsciiUppercase (a b : String) :
    eqIgnoreAsciiCase a (toAsciiUppercase b) = eqIgnoreAsciiCase a b := by
  have hmap : (toAsciiUppercase b).toList.map Char.toLower = b.toList.map Char.toLower := by
    simp [toAsciiUppercase]
  simp only [eqIgnoreAsciiCase, hmap]

/-- A key ID avoids the recorded revocations exactly when it avoids the old and the new ones. -/
theorem record_unrevoked_iff {id : String} :
    (∀ r ∈ (s.record b now).revokedKeys, eqIgnoreAsciiCase id r = false) ↔
      (∀ r ∈ s.revokedKeys, eqIgnoreAsciiCase id r = false) ∧
        ∀ r ∈ b.manifest.revokeKeys, eqIgnoreAsciiCase id r = false := by
  simp only [record_mem_revokedKeys, or_imp, forall_and]
  refine and_congr Iff.rfl ?_
  constructor
  · intro h r hr
    have hup := h _ ⟨r, hr, rfl⟩
    rwa [eqIgnoreAsciiCase_toAsciiUppercase] at hup
  · rintro h _ ⟨i, hi, rfl⟩
    rw [eqIgnoreAsciiCase_toAsciiUppercase]
    exact h i hi

/-! ### Files -/

/-- The state that the bytes of a file are the JSON of. -/
def contents (codec : StateCodec) : Option Bytes → Option StateFile
  | none => some StateFile.empty
  | some bytes => (codec.fromSlice bytes).toOption

theorem openState_contents {codec : StateCodec} {path : String} {fault : Option IoKind}
    {file : Option Bytes} (h : ContentState.openState codec path fault file = .ok s) :
    contents codec file = some s.data := by
  simp only [ContentState.openState, except_bind_eq_ok] at h
  obtain ⟨_, _, h⟩ := h
  cases file with
  | none =>
    cases h
    rfl
  | some bytes =>
    simp only [except_bind_eq_ok, refuseIf_eq_ok, mapError_eq_ok, Except.ok.injEq] at h
    obtain ⟨_, hlen, data, hparse, _, _, rfl⟩ := h
    have hfull : bytes.take (maxStateBytes + 1) = bytes := by
      rw [List.length_take] at hlen
      exact List.take_of_length_le (by omega)
    rw [hfull] at hparse
    simp [contents, hparse, Except.toOption]

/-- A save leaves the old file or the state. -/
theorem save_cases (codec : StateCodec) (fault : Option (SaveStep × IoKind)) (s : ContentState)
    (file : Option Bytes) :
    (s.save codec fault file).2 = file ∧ (s.save codec fault file).1 ≠ .ok () ∨
      contents codec (s.save codec fault file).2 = some s.data := by
  unfold ContentState.save
  split
  · exact .inl ⟨rfl, by simp⟩
  · rename_i json hjson
    have hread : contents codec (some json) = some s.data := by
      simp [contents, codec.fromSlice_toVec _ _ hjson, Except.toOption]
    split
    · exact .inr hread
    · exact .inr hread
    · exact .inl ⟨rfl, by simp⟩

end AbyssalWarden

import AbyssalWarden.CustodyLedger
import AbyssalWarden.EncodingSpec
import AbyssalWarden.QuarantineOpen

/-! What holds of the files whenever the store may be stopped: every deposit is where the ledger has it. -/
namespace AbyssalWarden

abbrev StoreLedger := Ledger FileKey QuarantineId Bytes

variable (host : Host)

namespace Host

/-- The record on disk. -/
def recordAt (w : Disk) (id : QuarantineId) : Option QuarantineRecord :=
  (w.items.lookup (.json id)).bind fun data => (host.records.fromSlice data).toOption

/-- `items/<id>.data` decodes to the content with the key of the record, whose hash is that of the
content. -/
def StoredAs (w : Disk) (id : QuarantineId) (content : Bytes) : Prop :=
  ∃ record key file, host.recordAt w id = some record ∧ recordKey record = some key ∧
    w.items.lookup (.data id) = some file ∧ decoded key file = some content ∧
    record.original.sha256 = host.sha256 content

/-- The deposit is where the ledger has it. -/
def Kept (w : Disk) (d : Deposit FileKey QuarantineId Bytes) : Prop :=
  match d.place with
  | .outside key => w.contentAt key = some d.content
  | .stored id => host.StoredAs w id d.content
  | .deleted _ => True

/-- The original of a record is at its path, the same file. -/
def presentAt (w : Disk) (record : QuarantineRecord) : Bool :=
  match host.originalKey record with
  | none => false
  | some key => match w.outside key with
    | none => false
    | some node => node.dev = record.original.dev && node.ino = record.original.ino

/-- Every deposit is kept, and only drawn identifiers are in use. -/
structure Consistent (ids : List QuarantineId) (L : StoreLedger) (w : Disk) : Prop where
  kept : ∀ d ∈ L, host.Kept w d
  drawn : ∀ id, w.items.lookup (.json id) ≠ none → id ∈ ids

/-- The store may be used: what is pending holds no deposit. -/
structure AtRest (ids : List QuarantineId) (L : StoreLedger) (w : Disk) : Prop extends
    Host.Consistent host ids L w where
  resolved : ∀ id record, host.recordAt w id = some record → record.state = .pending →
    ∀ d ∈ L, d.place ≠ .stored id

/-- The store may be opened: what is pending and holds a deposit has lost its original. -/
structure Recoverable (ids : List QuarantineId) (L : StoreLedger) (w : Disk) : Prop extends
    Host.Consistent host ids L w where
  removed : ∀ id record, host.recordAt w id = some record → record.state = .pending →
    (∃ d ∈ L, d.place = .stored id) → host.presentAt w record = false

end Host

variable {host} {ids : List QuarantineId} {L : StoreLedger} {w w' : Disk} {id : QuarantineId}
  {content : Bytes} {record : QuarantineRecord}

theorem Host.AtRest.recoverable (h : host.AtRest ids L w) : host.Recoverable ids L w where
  toConsistent := h.toConsistent
  removed id record hrecord hstate := by
    rintro ⟨d, hd, hplace⟩
    exact absurd hplace (h.resolved id record hrecord hstate d hd)

theorem recordAt_eq_some (h : host.recordAt w id = some record) :
    ∃ data, w.items.lookup (.json id) = some data ∧ host.records.fromSlice data = .ok record := by
  obtain ⟨data, hdata, hrecord⟩ := Option.bind_eq_some_iff.mp h
  refine ⟨data, hdata, ?_⟩
  cases hparse : host.records.fromSlice data with
  | error e => simp [hparse, Except.toOption] at hrecord
  | ok r => simpa [hparse, Except.toOption] using hrecord

theorem recordAt_of_lookup {data : Bytes} (hdata : w.items.lookup (.json id) = some data)
    (hrecord : host.records.fromSlice data = .ok record) : host.recordAt w id = some record := by
  simp [Host.recordAt, hdata, hrecord, Except.toOption]

/-- The record that was just written. -/
theorem recordAt_of_written {data : Bytes} (hdata : w.items.lookup (.json id) = some data)
    (hwritten : host.records.toVecPretty record = .ok data) : host.recordAt w id = some record :=
  recordAt_of_lookup hdata (host.records.fromSlice_toVecPretty record data hwritten)

theorem recordAt_congr (h : w'.items.lookup (.json id) = w.items.lookup (.json id)) :
    host.recordAt w' id = host.recordAt w id := by
  simp [Host.recordAt, h]

theorem presentAt_congr (h : w'.outside = w.outside) : host.presentAt w' record = host.presentAt w record := by
  simp [Host.presentAt, h]

theorem Host.StoredAs.drawn (hs : host.StoredAs w id content)
    (hdrawn : ∀ id, w.items.lookup (.json id) ≠ none → id ∈ ids) : id ∈ ids := by
  obtain ⟨record, _, _, hrecord, _⟩ := hs
  obtain ⟨data, hdata, _⟩ := recordAt_eq_some hrecord
  exact hdrawn id (by simp [hdata])

theorem Host.StoredAs.congr (hs : host.StoredAs w id content)
    (hjson : w'.items.lookup (.json id) = w.items.lookup (.json id))
    (hdata : w'.items.lookup (.data id) = w.items.lookup (.data id)) : host.StoredAs w' id content := by
  obtain ⟨record, key, file, hrecord, hkey, hfile, hrest⟩ := hs
  exact ⟨record, key, file, (recordAt_congr hjson).trans hrecord, hkey, hdata.trans hfile, hrest⟩

/-! ### Changes that lose no deposit -/

/-- Files that the ledger does not look at. -/
def ItemFile.IsTmp : ItemFile → Prop
  | .dataTmp _ | .jsonTmp _ => True
  | _ => False

theorem json_not_tmp (id : QuarantineId) : ¬ (ItemFile.json id).IsTmp := not_false

theorem data_not_tmp (id : QuarantineId) : ¬ (ItemFile.data id).IsTmp := not_false

/-- Outside the store nothing is lost, and but for temporary files the items are the same. -/
structure Grown (w w' : Disk) : Prop where
  content : ∀ key, w.contentAt key ≠ none → w'.contentAt key = w.contentAt key
  items : ∀ f : ItemFile, ¬ f.IsTmp → w'.items.lookup f = w.items.lookup f

theorem Grown.refl (w : Disk) : Grown w w := ⟨fun _ _ => rfl, fun _ _ => rfl⟩

theorem Host.Kept.grown {d : Deposit FileKey QuarantineId Bytes} (h : host.Kept w d) (hw : Grown w w') :
    host.Kept w' d := by
  unfold Host.Kept at h ⊢
  split
  · rename_i key hplace
    rw [hplace] at h
    change w.contentAt key = _ at h
    rw [hw.content key (by simp [h]), h]
  · rename_i id hplace
    rw [hplace] at h
    exact Host.StoredAs.congr h (hw.items _ (json_not_tmp id)) (hw.items _ (data_not_tmp id))
  · trivial

theorem Host.Consistent.grown (h : host.Consistent ids L w) (hw : Grown w w') :
    host.Consistent ids L w' where
  kept d hd := (h.kept d hd).grown hw
  drawn id hid := h.drawn id (by rwa [hw.items _ (json_not_tmp id)] at hid)

theorem Host.AtRest.grown (h : host.AtRest ids L w) (hw : Grown w w') : host.AtRest ids L w' where
  toConsistent := h.toConsistent.grown hw
  resolved id record hrecord :=
    h.resolved id record (by rwa [recordAt_congr (hw.items _ (json_not_tmp id))] at hrecord)

theorem Host.Recoverable.grown (h : host.Recoverable ids L w) (hw : Grown w w')
    (houtside : w'.outside = w.outside) : host.Recoverable ids L w' where
  toConsistent := h.toConsistent.grown hw
  removed id record hrecord hstate hd := by
    rw [presentAt_congr houtside]
    exact h.removed id record (by rwa [recordAt_congr (hw.items _ (json_not_tmp id))] at hrecord) hstate hd

/-- A deposit in an item is not in one that is not in use yet. -/
theorem Host.Consistent.stored_ne (h : host.Consistent ids L w) (hid : id ∉ ids)
    {d : Deposit FileKey QuarantineId Bytes} (hd : d ∈ L) {id' : QuarantineId}
    (hplace : d.place = .stored id') : id' ≠ id := by
  have hkept := h.kept d hd
  rw [Host.Kept, hplace] at hkept
  exact fun heq => hid (heq ▸ Host.StoredAs.drawn hkept h.drawn)

/-- Files of an item that is not in use yet may be anything. -/
theorem Host.AtRest.sameButItem (h : host.AtRest ids L w) (hid : id ∉ ids) (hw : SameButItem id w w') :
    host.AtRest (id :: ids) L w' := by
  refine ⟨⟨fun d hd => ?_, fun id' hid' => ?_⟩, fun id' record hrecord hstate d hd hplace => ?_⟩
  · have hkept := h.kept d hd
    unfold Host.Kept at hkept ⊢
    split
    · rename_i key hplace
      rw [hplace] at hkept
      rw [Disk.contentAt, hw.outside]
      exact hkept
    · rename_i id' hplace
      rw [hplace] at hkept
      have hne := h.stored_ne hid hd hplace
      exact Host.StoredAs.congr hkept (hw.items (.json id') hne) (hw.items (.data id') hne)
    · trivial
  · by_cases hne : id' = id
    · exact List.mem_cons.mpr (.inl hne)
    · rw [hw.items (.json id') hne] at hid'
      exact List.mem_cons_of_mem _ (h.drawn id' hid')
  · have hne := h.stored_ne hid hd hplace
    rw [recordAt_congr (hw.items (.json id') hne)] at hrecord
    exact h.resolved id' record hrecord hstate d hd hplace

/-- A new deposit, where it was found. -/
theorem Host.AtRest.give (h : host.AtRest ids L w) {key : FileKey}
    (hcontent : w.contentAt key = some content) : host.AtRest ids (L.give key content) w := by
  refine ⟨⟨fun d hd => ?_, h.drawn⟩, fun id record hrecord hstate d hd => ?_⟩
  · rcases List.mem_append.mp hd with hd | hd
    · exact h.kept d hd
    · rw [List.mem_singleton.mp hd]
      exact hcontent
  · rcases List.mem_append.mp hd with hd | hd
    · exact h.resolved id record hrecord hstate d hd
    · rw [List.mem_singleton.mp hd]
      simp

end AbyssalWarden

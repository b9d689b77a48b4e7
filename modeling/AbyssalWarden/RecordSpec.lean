import AbyssalWarden.StoreInvariant

/-! What reading and writing records and audit entries does to the files. -/
namespace AbyssalWarden

namespace StoreCall

/-- The call writes nothing but temporary files in `items/` and the audit log. -/
structure Scratch (c : StoreCall) : Prop where
  items : ∀ f, c.WritesItem f → f.IsTmp
  files : ∀ key, ¬ c.WritesFile key

/-- The call only looks, or syncs. -/
def ReadOnly : StoreCall → Prop
  | .openFile _ | .statFile _ | .syncDir _ | .syncFile _ | .syncItem _ | .readItem _ | .syncItems
  | .listItems | .syncAudit | .readAudit => True
  | _ => False

/-- The calls that write the journal, and the syncs of directories outside the store. -/
def journals : StoreCall → Bool
  | .syncDir _ | .truncateItem _ | .syncItem (.jsonTmp _) | .appendItem (.jsonTmp _) _
  | .renameItem (.jsonTmp _) _ => true
  | _ => false

/-- A call that may fail while the store is used on. -/
def mayFail (c : StoreCall) : Bool := !c.journals

theorem ReadOnly.keeps {c : StoreCall} (h : c.ReadOnly) (w : Disk) :
    Prog.Keeps storeSystem (· = w) c where
  torn n w' hw := by
    subst hw
    cases c <;> first | exact h.elim | (change (if n = 0 then _ else _) = _; split <;> rfl)
  failed n w' hw := by
    subst hw
    cases c <;> first | exact h.elim | rfl
  apply w' hw := by
    subst hw
    cases c <;> first | exact h.elim | rfl

end StoreCall

variable {host : Host} {mayFail : StoreCall → Bool} {ids : List QuarantineId} {L : StoreLedger}
  {w w' : Disk} {id : QuarantineId} {record old : QuarantineRecord} {data : Bytes}

theorem grown_of_scratch {c : StoreCall} (hc : c.Scratch) : Grown w (w.apply c).2 where
  content key _ := Disk.apply_contentAt (hc.files key)
  items f hf := Disk.apply_items fun h => hf (hc.items f h)

theorem scratch_cut {c : StoreCall} (n : ℕ) (hc : c.Scratch) : (c.cut n).Scratch :=
  ⟨fun f hf => hc.items f (StoreCall.cut_writesItem.mp hf),
    fun key hkey => hc.files key (StoreCall.cut_writesFile.mp hkey)⟩

theorem keeps_atRest (c : StoreCall) (hc : c.Scratch) :
    Prog.Keeps storeSystem (host.AtRest ids L) c :=
  keeps_of_apply (P := StoreCall.Scratch) (fun _ n hc => scratch_cut n hc)
    (fun _ _ hc hw => hw.grown (grown_of_scratch hc)) c hc

/-! ### Reading -/

theorem get_calls (id : QuarantineId) : (host.get id).Calls StoreCall.ReadOnly :=
  (Prog.Calls.request trivial).bind fun _ => Prog.Calls.ofExcept _

theorem parseRecord_eq_ok (h : host.parseRecord id data = .ok record) :
    host.records.fromSlice data = .ok record ∧ record.id = id := by
  simp only [Host.parseRecord, except_bind_eq_ok, refuseIf_eq_ok, mapError_eq_ok, not_or,
    Decidable.not_not] at h
  obtain ⟨-, -, r, hr, -, ⟨hid, -⟩, heq⟩ := h
  cases heq
  exact ⟨hr, hid⟩

/-- `get` changes nothing and returns the record on disk. -/
theorem get_meets (id : QuarantineId) (w : Disk) : (host.get id).Meets mayFail (· = w) (fun _ => (· = w))
    (fun record w' => w' = w ∧ host.recordAt w id = some record ∧ record.id = id) w := by
  refine (get_calls id).meets_and (fun c hc => hc.keeps w) rfl ?_
  refine Prog.Returns.bind (Prog.returns_request fun data _ hread => ?_)
  obtain ⟨hdata, rfl⟩ := readItem_eq_ok hread
  refine Prog.returns_ofExcept fun record hrecord => ?_
  obtain ⟨hparse, hid⟩ := parseRecord_eq_ok hrecord
  exact ⟨recordAt_of_lookup hdata hparse, hid⟩

/-! ### Writing the audit log -/

theorem readOnly_or_audit_scratch {c : StoreCall} (h : c.ReadOnly ∨ ∃ line, c = .appendAudit line) :
    c.Scratch := by
  rcases h with h | ⟨line, rfl⟩
  · constructor
    · intro f hf
      cases c <;> first | exact h.elim | exact hf.elim
    · intro key hkey
      cases c <;> first | exact h.elim | exact hkey.elim
  · exact ⟨fun f hf => hf.elim, fun key hkey => hkey.elim⟩

theorem StoreCall.ReadOnly.scratch {c : StoreCall} (h : c.ReadOnly) : c.Scratch :=
  readOnly_or_audit_scratch (.inl h)

theorem appendEntry_calls (store : QuarantineStore) (entry : AuditEntry) :
    (host.appendEntry store entry).Calls StoreCall.Scratch := by
  refine (Prog.Calls.ofExcept _).bind fun _ => ?_
  refine (Prog.Calls.request (readOnly_or_audit_scratch (.inr ⟨_, rfl⟩))).bind fun _ => ?_
  exact (Prog.Calls.request (StoreCall.ReadOnly.scratch (c := .syncAudit) trivial)).bind fun _ => trivial

/-! ### Writing a record -/

/-- The files once a record is renamed into place. -/
def Disk.written (w : Disk) (id : QuarantineId) (data : Bytes) : Disk :=
  (w.eraseItem (.jsonTmp id)).setItem (.json id) data

@[simp] theorem written_outside : (w.written id data).outside = w.outside := rfl

theorem written_json : (w.written id data).items.lookup (.json id) = some data := by
  rw [Disk.written, Disk.setItem_lookup, if_pos rfl]

theorem written_lookup {f : ItemFile} (hjson : f ≠ .json id) (htmp : ¬ f.IsTmp) :
    (w.written id data).items.lookup f = w.items.lookup f := by
  have hne : f ≠ .jsonTmp id := by
    rintro rfl
    exact htmp trivial
  rw [Disk.written, Disk.setItem_lookup, if_neg hjson, Disk.eraseItem_lookup, if_neg hne]

/-- A record may be written over an item without deposits, or over one with the same key and hash. -/
theorem Host.Consistent.written (h : host.Consistent ids L w) (hid : id ∈ ids)
    (hdata : host.records.toVecPretty record = .ok data)
    (hsame : (∀ d ∈ L, d.place ≠ .stored id) ∨ ∃ old, host.recordAt w id = some old ∧
      record.keyHex = old.keyHex ∧ record.original.sha256 = old.original.sha256) :
    host.Consistent ids L (w.written id data) where
  kept d hd := by
    have hkept := h.kept d hd
    unfold Host.Kept at hkept ⊢
    split
    · rename_i key hplace
      rw [hplace] at hkept
      exact hkept
    · rename_i id' hplace
      rw [hplace] at hkept
      -- of this item, the key and the hash are those of the old record
      by_cases hne : id' = id
      · subst hne
        obtain ⟨old, hold, hkey, hsha⟩ := hsame.resolve_left fun hall => hall d hd hplace
        obtain ⟨old', key, file, hold', hkey', hfile, hdecoded, hsha'⟩ := hkept
        rw [hold] at hold'
        cases hold'
        refine ⟨record, key, file, recordAt_of_written written_json hdata, ?_, ?_, hdecoded, ?_⟩
        · rw [recordKey, hkey]
          exact hkey'
        · rw [written_lookup (by simp) (data_not_tmp _), hfile]
        · rw [hsha, hsha']
      · exact Host.StoredAs.congr hkept (written_lookup (by simpa using hne) (json_not_tmp _))
          (written_lookup (by simp) (data_not_tmp _))
    · trivial
  drawn id' hid' := by
    by_cases hne : id' = id
    · rwa [hne]
    · rw [written_lookup (by simpa using hne) (json_not_tmp _)] at hid'
      exact h.drawn id' hid'

theorem written_recordAt {id' : QuarantineId} (hne : id' ≠ id) :
    host.recordAt (w.written id data) id' = host.recordAt w id' :=
  recordAt_congr (written_lookup (by simpa using hne) (json_not_tmp _))

/-- `save`, by what holds before and after the record is in place. -/
theorem save_meets {before after err : Disk → Prop}
    (hbefore : ∀ c, c.Scratch → Prog.Keeps storeSystem before c)
    (hafter : ∀ c, c.Scratch → Prog.Keeps storeSystem after c)
    (hwritten : ∀ w data, before w → host.records.toVecPretty record = .ok data →
      after (w.written record.id data))
    (herr : (record.Writable ∧ ∀ c, StoreCall.journals c = true → mayFail c = false) ∨
      ∀ w, before w → err w)
    (herr' : ∀ w, after w → err w) (hw : before w) :
    (host.save record).Meets mayFail (fun w => before w ∨ after w) (fun _ => err) (fun _ => after) w := by
  -- either no journal call fails, or failing where nothing was put in place is allowed
  have hfails {c : StoreCall} (hc : c.journals = true) (hm : mayFail c = true) :
      ∀ w, before w → err w := by
    refine herr.resolve_left fun h => ?_
    rw [h.2 c hc] at hm
    cases hm
  -- until the rename only the temporary file of the record is written
  have htmp (c : StoreCall) (hc : ∀ f, c.WritesItem f → f = .jsonTmp record.id)
      (hfiles : ∀ key, ¬ c.WritesFile key) : Prog.Keeps storeSystem before c :=
    hbefore c ⟨fun f hf => hc f hf ▸ trivial, hfiles⟩
  unfold Host.save
  refine Prog.meets_bind.mpr (Prog.meets_ofExcept.mpr ⟨fun data hdata => ?_, fun e he => ?_⟩)
  · rw [mapError_eq_ok] at hdata
    refine Prog.meets_bind.mpr (Prog.meets_keeping
      (htmp (.truncateItem (.jsonTmp record.id)) (fun _ h => h) fun _ h => h) hw (fun _ h => .inl h)
      (fun hm _ => hfails rfl hm) (fun _ h => by cases h) fun _ w₁ happly hw₁ => ?_)
    have hempty : w₁.items.lookup (.jsonTmp record.id) = some [] := by
      cases happly
      simp
    refine Prog.meets_bind.mpr (Prog.meets_keeping
      (htmp (.appendItem (.jsonTmp record.id) data) (fun _ h => h) fun _ h => h) hw₁ (fun _ h => .inl h)
      (fun hm _ => hfails rfl hm) (fun _ h => by cases h) fun _ w₂ happly hw₂ => ?_)
    have hfull : w₂.items.lookup (.jsonTmp record.id) = some data := by
      cases happly
      exact appendItem_lookup hempty
    refine Prog.meets_bind.mpr (Prog.meets_keeping
      (htmp (.syncItem (.jsonTmp record.id)) (fun _ h => h.elim) fun _ h => h) hw₂ (fun _ h => .inl h)
      (fun hm _ => hfails rfl hm) (fun _ h => by cases h) fun _ w₃ happly hw₃ => ?_)
    cases happly
    -- the temporary file holds the whole record, so the rename puts it in place
    have hrename : w₂.renameItem (.jsonTmp record.id) (.json record.id) =
        (.ok (), w₂.written record.id data) := by
      rw [Disk.renameItem, hfull]
      rfl
    have hw₄ := hwritten w₂ data hw₂ hdata
    refine Prog.meets_bind.mpr (Prog.meets_request (fun n => ?_)
      (fun hm _ n => hfails rfl hm _ hw₂) (fun e h => ?_) fun _ h => ?_)
    · change (fun w => before w ∨ after w) (if n = 0 then w₂ else (Disk.renameItem _ _ _).2)
      -- a stop in the rename: before it took effect, or after it
      split
      · exact .inl hw₂
      · rw [hrename]
        exact .inr hw₄
    · change (Disk.renameItem _ _ _).1 = _ at h
      rw [hrename] at h
      cases h
    · change Prog.Meets _ _ _ _ _ (Disk.renameItem _ _ _).2
      rw [hrename]
      exact Prog.meets_keeping (hafter .syncItems (StoreCall.ReadOnly.scratch trivial)) hw₄
        (fun _ h => .inr h) (fun _ _ => herr') (fun _ h => by cases h) fun _ _ _ h => h
  · refine herr.elim (fun h => ?_) fun h => h w hw
    -- a record with a time that can be written is encoded
    obtain ⟨data, hdata⟩ := (host.records.toVecPretty_writable record).mp h.1
    rw [hdata] at he
    cases he

theorem renameItem_eq_ok {source target : ItemFile}
    (h : w.renameItem source target = (.ok (), w')) :
    ∃ data, w.items.lookup source = some data ∧ w' = (w.eraseItem source).setItem target data := by
  unfold Disk.renameItem at h
  split at h
  · cases h
  · rename_i data hdata
    exact ⟨data, hdata, (Prod.mk.inj h).2.symm⟩

theorem save_calls (record : QuarantineRecord) :
    (host.save record).Calls (StoreCall.OfItem record.id) := by
  refine (Prog.Calls.ofExcept _).bind fun data => ?_
  refine (Prog.Calls.request ⟨fun f hf => hf ▸ rfl, fun key hkey => hkey.elim⟩).bind fun _ => ?_
  refine (Prog.Calls.request ⟨fun f hf => hf ▸ rfl, fun key hkey => hkey.elim⟩).bind fun _ => ?_
  refine (Prog.Calls.request ⟨fun f hf => hf.elim, fun key hkey => hkey.elim⟩).bind fun _ => ?_
  refine (Prog.Calls.request ⟨fun f hf => ?_, fun key hkey => hkey.elim⟩).bind fun _ =>
    Prog.Calls.request ⟨fun f hf => hf.elim, fun key hkey => hkey.elim⟩
  rcases hf with rfl | rfl <;> rfl

/-- What `save` leaves when it succeeds. -/
theorem save_returns : (host.save record).Returns mayFail (fun _ w' => ∃ data,
    host.records.toVecPretty record = .ok data ∧ w'.items.lookup (.json record.id) = some data ∧
      ∀ f, f ≠ .json record.id → f ≠ .jsonTmp record.id → w'.items.lookup f = w.items.lookup f) w := by
  unfold Host.save
  refine Prog.Returns.bind (Prog.returns_ofExcept fun data hdata => ?_)
  rw [mapError_eq_ok] at hdata
  refine Prog.Returns.bind (Prog.returns_request fun _ _ happly => ?_)
  cases happly
  refine Prog.Returns.bind (Prog.returns_request fun _ _ happly => ?_)
  cases happly
  refine Prog.Returns.bind (Prog.returns_request fun _ _ happly => ?_)
  cases happly
  have hfull : ((w.setItem (.jsonTmp record.id) []).appendItem (.jsonTmp record.id) data).items.lookup
      (.jsonTmp record.id) = some data := by
    rw [appendItem_lookup (Disk.createdItem_lookup _ _), List.nil_append]
  have hother (f : ItemFile) (hf : f ≠ .jsonTmp record.id) :
      ((w.setItem (.jsonTmp record.id) []).appendItem (.jsonTmp record.id) data).items.lookup f =
        w.items.lookup f := by
    rw [Disk.appendItem]
    split <;> simp [hf]
  -- the new record takes the name when all of it is written
  refine Prog.Returns.bind (Prog.returns_request fun _ _ hrename => ?_)
  obtain ⟨moved, hmoved, rfl⟩ := renameItem_eq_ok hrename
  obtain rfl : data = moved := by simpa [hfull] using hmoved
  refine Prog.returns_request fun _ _ happly => ?_
  cases happly
  refine ⟨data, hdata, by simp, fun f hjson htmp => ?_⟩
  rw [Disk.setItem_lookup, if_neg hjson, Disk.eraseItem_lookup, if_neg htmp, hother f htmp]

/-! ### Interrupted quarantines -/

/-- The records `todo` are still to be resolved; whatever else is pending holds no deposit. -/
structure Host.Interrupted (host : Host) (ids : List QuarantineId) (L : StoreLedger)
    (todo : List QuarantineRecord) (w : Disk) : Prop extends Host.Recoverable host ids L w where
  listed : ∀ record ∈ todo, host.recordAt w record.id = some record
  others : ∀ id record, host.recordAt w id = some record → record.state = .pending →
    id ∉ todo.map QuarantineRecord.id → ∀ d ∈ L, d.place ≠ .stored id

theorem Host.Interrupted.atRest (h : host.Interrupted ids L [] w) : host.AtRest ids L w where
  toConsistent := h.toConsistent
  resolved id record hrecord hstate := h.others id record hrecord hstate (by simp)

variable {todo : List QuarantineRecord}

theorem Host.Interrupted.grown (h : host.Interrupted ids L todo w) (hw : Grown w w')
    (houtside : w'.outside = w.outside) : host.Interrupted ids L todo w' where
  toRecoverable := h.toRecoverable.grown hw houtside
  listed record hrecord := by
    rw [recordAt_congr (hw.items _ (json_not_tmp _))]
    exact h.listed record hrecord
  others id record hrecord := by
    rw [recordAt_congr (hw.items _ (json_not_tmp _))] at hrecord
    exact h.others id record hrecord

theorem keeps_interrupted (c : StoreCall) (hc : c.Scratch) :
    Prog.Keeps storeSystem (host.Interrupted ids L todo) c :=
  keeps_of_apply (P := StoreCall.Scratch) (fun _ n hc => scratch_cut n hc)
    (fun _ _ hc hw => hw.grown (grown_of_scratch hc) (Disk.apply_outside hc.files)) c hc

theorem recordAt_drawn (h : host.Consistent ids L w) (hrecord : host.recordAt w id = some record) :
    id ∈ ids := by
  obtain ⟨data, hdata, -⟩ := recordAt_eq_some hrecord
  exact h.drawn id (by simp [hdata])

/-- The record is the old one with an outcome. -/
structure QuarantineRecord.Resolves (record old : QuarantineRecord) : Prop where
  id : record.id = old.id
  keyHex : record.keyHex = old.keyHex
  sha256 : record.original.sha256 = old.original.sha256
  state : record.state ≠ .pending

/-- The first record is resolved when it is written again. -/
theorem Host.Interrupted.written (h : host.Interrupted ids L (old :: todo) w)
    (hnodup : old.id ∉ todo.map QuarantineRecord.id) (hresolves : record.Resolves old)
    (hdata : host.records.toVecPretty record = .ok data) :
    host.Interrupted ids L todo (w.written record.id data) := by
  obtain ⟨hid, hkey, hsha, hstate⟩ := hresolves
  rw [hid]
  have hold : host.recordAt w old.id = some old := h.listed old (List.mem_cons_self)
  have hnew : host.recordAt (w.written old.id data) old.id = some record :=
    recordAt_of_written written_json hdata
  have hconsistent := h.toConsistent.written (recordAt_drawn h.toConsistent hold) hdata
    (.inr ⟨old, hold, hkey, hsha⟩)
  -- the item of the record is no longer pending, and the others are as they were
  refine ⟨⟨hconsistent, fun id r hr hpending hd => ?_⟩, fun r hr => ?_, fun id r hr hpending hnot => ?_⟩
  · by_cases hne : id = old.id
    · subst hne
      rw [hnew] at hr
      cases hr
      exact absurd hpending hstate
    · rw [written_recordAt hne] at hr
      exact h.removed id r hr hpending hd
  · have hne : r.id ≠ old.id := fun heq => hnodup (heq ▸ List.mem_map_of_mem hr)
    rw [written_recordAt hne]
    exact h.listed r (List.mem_cons_of_mem _ hr)
  · by_cases hne : id = old.id
    · subst hne
      rw [hnew] at hr
      cases hr
      exact absurd hpending hstate
    · rw [written_recordAt hne] at hr
      refine h.others id r hr hpending ?_
      rw [List.map_cons, List.mem_cons, not_or]
      exact ⟨hne, hnot⟩

theorem Host.Interrupted.save_meets {err : Disk → Prop} (h : host.Interrupted ids L (old :: todo) w)
    (hnodup : old.id ∉ todo.map QuarantineRecord.id) (hresolves : record.Resolves old)
    (herr : (record.Writable ∧ ∀ c, StoreCall.journals c = true → mayFail c = false) ∨
      ∀ w, host.Interrupted ids L (old :: todo) w → err w)
    (herr' : ∀ w, host.Interrupted ids L todo w → err w) :
    (host.save record).Meets mayFail (host.Recoverable ids L) (fun _ => err)
      (fun _ => host.Interrupted ids L todo) w :=
  (AbyssalWarden.save_meets keeps_interrupted keeps_interrupted
    (fun _ _ hw hdata => hw.written hnodup hresolves hdata) herr herr' h).mono
    (fun _ hw => hw.elim (·.toRecoverable) (·.toRecoverable)) (fun _ _ hw => hw) fun _ _ hw => hw

end AbyssalWarden

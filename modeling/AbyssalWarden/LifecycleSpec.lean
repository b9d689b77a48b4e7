import AbyssalWarden.LifecycleRules

/-! What holds of all items while the store is used, and how a saved record, an audited entry and a stored file
that is moved or removed keep it. -/
namespace AbyssalWarden

variable {host : Host} {ids todo todo' : List QuarantineId} {w w' w₁ : Disk} {id : QuarantineId}
  {record : QuarantineRecord} {g g' g'' : Progress} {data : Bytes} {entry : AuditEntry}

/-- What holds of all items at any moment, for what the run noted. -/
structure Host.Ordered (host : Host) (ids : List QuarantineId) (g : Progress) (w : Disk) : Prop where
  drawn : ∀ id, w.items.lookup (.json id) ≠ none → id ∈ ids
  writable : ∀ id record, host.recordAt w id = some record → record.Writable
  data : ∀ id, id ∉ g.halfDone → host.DataOk w id
  half : ∀ id ∈ g.halfDone, host.stateAt w id = some .quarantined ∧ w.items.lookup (.data id) = none
  log : ∀ id, id ∉ g.unaudited → host.LogOk w id
  lawful : g.lawful

/-- What holds between the calls of an operation that is to resolve the items of `todo`: nothing else is pending,
and the log can be appended to. -/
structure Host.Working (host : Host) (ids todo : List QuarantineId) (g : Progress) (w : Disk) : Prop extends
    Host.Ordered host ids g w where
  pending : ∀ id, host.stateAt w id = some .pending → id ∈ todo
  lineEnd : Host.LineEnd w.audit

/-- Nothing was noted that was not noted before, provided that every entry can be logged. -/
structure Host.Within (host : Host) (g g' : Progress) : Prop where
  halfDone : ∀ id ∈ g'.halfDone, id ∈ g.halfDone
  unaudited : host.CanLog → ∀ id ∈ g'.unaudited, id ∈ g.unaudited

theorem Host.Within.refl (g : Progress) : host.Within g g := ⟨fun _ h => h, fun _ _ h => h⟩

theorem Host.Within.trans (h : host.Within g g') (h' : host.Within g' g'') : host.Within g g'' where
  halfDone id hid := h.halfDone id (h'.halfDone id hid)
  unaudited hlog id hid := h.unaudited hlog id (h'.unaudited hlog id hid)

theorem stateAt_congr (h : w'.items.lookup (.json id) = w.items.lookup (.json id)) :
    host.stateAt w' id = host.stateAt w id := by
  rw [Host.stateAt, recordAt_congr h, Host.stateAt]

theorem stateAt_of_recordAt (h : host.recordAt w id = some record) : host.stateAt w id = some record.state := by
  rw [Host.stateAt, h, Option.map_some]

theorem copyAt_congr (h : w'.items.lookup (.data id) = w.items.lookup (.data id)) :
    host.copyAt w' record (.data id) = host.copyAt w record (.data id) := by
  rw [Host.copyAt, Host.copyAt, h]

theorem Host.DataOk.congr (h : host.DataOk w id)
    (hjson : w'.items.lookup (.json id) = w.items.lookup (.json id))
    (hdata : w'.items.lookup (.data id) = w.items.lookup (.data id)) : host.DataOk w' id := by
  intro record hrecord
  rw [recordAt_congr hjson] at hrecord
  rw [copyAt_congr hdata, hdata]
  exact h record hrecord

theorem Host.LogOk.congr (h : host.LogOk w id)
    (hjson : w'.items.lookup (.json id) = w.items.lookup (.json id))
    (haudit : ∃ data, w'.audit = w.audit ++ data) : host.LogOk w' id := by
  intro record hrecord hstate
  rw [recordAt_congr hjson] at hrecord
  obtain ⟨entry, hlogged, hannounces⟩ := h record hrecord hstate
  exact ⟨entry, hlogged.appended haudit, hannounces⟩

/-- An item whose stored file is missing is not in order while it is quarantined. -/
theorem not_dataOk_of_missing (hstate : host.stateAt w id = some .quarantined)
    (hdata : w.items.lookup (.data id) = none) : ¬ host.DataOk w id := by
  intro h
  obtain ⟨record, hrecord, hquarantined⟩ := Option.map_eq_some_iff.mp hstate
  have hcopy := (h record hrecord).1 hquarantined
  rw [Host.copyAt, hdata] at hcopy
  cases hkey : Host.recordKey record <;> simp [hkey] at hcopy

/-! ### Calls that do not show, and the log -/

theorem Host.Ordered.appended (h : host.Ordered ids g w) (hw : Appended w w') : host.Ordered ids g w' where
  drawn id hid := h.drawn id (by rwa [hw.items _ (json_not_tmp id)] at hid)
  writable id record hrecord := h.writable id record (hw.recordAt id ▸ hrecord)
  data id hid := (h.data id hid).congr (hw.items _ (json_not_tmp id)) (hw.items _ (data_not_tmp id))
  half id hid := by
    rw [stateAt_congr (hw.items _ (json_not_tmp id)), hw.items _ (data_not_tmp id)]
    exact h.half id hid
  log id hid := (h.log id hid).congr (hw.items _ (json_not_tmp id)) hw.audit
  lawful := h.lawful

theorem Host.Working.view (h : host.Working ids todo g w) (hw : SameView w w') : host.Working ids todo g w' where
  toOrdered := h.toOrdered.appended hw.appended
  pending id hid := h.pending id (hw.stateAt id ▸ hid)
  lineEnd := hw.audit ▸ h.lineEnd

theorem mem_audited (host : Host) (g : Progress) (w : Disk) (entry : AuditEntry) (id : QuarantineId) :
    id ∈ (g.audited host w entry).unaudited ↔ id ∈ g.unaudited ∧ host.announced w entry id = false := by
  rw [Progress.audited, List.mem_filter, Bool.not_eq_true']

/-- A logged entry announces the items it is about. -/
theorem Host.Ordered.audited (h : host.Ordered ids g w) (hw : Appended w w') (hl : host.LoggedAs w' entry) :
    host.Ordered ids (g.audited host w entry) w' := by
  have hordered := h.appended hw
  refine ⟨hordered.drawn, hordered.writable, hordered.data, hordered.half, fun id hid => ?_, hordered.lawful⟩
  by_cases hmem : id ∈ g.unaudited
  · have hannounced : host.announced w entry id = true := by
      by_contra hnot
      exact hid ((mem_audited host g w entry id).mpr ⟨hmem, Bool.eq_false_iff.mpr hnot⟩)
    intro record hrecord _
    rw [hw.recordAt] at hrecord
    obtain ⟨seq, prev, hlogged⟩ := hl
    refine ⟨_, hlogged, ?_⟩
    rw [Host.announced, hrecord] at hannounced
    exact of_decide_eq_true hannounced
  · exact hordered.log id hmem

theorem Host.Working.audited (h : host.Working ids todo g w) (hw : Appended w w') (hl : host.LoggedAs w' entry)
    (hend : Host.LineEnd w'.audit) : host.Working ids todo (g.audited host w entry) w' where
  toOrdered := h.toOrdered.audited hw hl
  pending id hid := h.pending id (stateAt_congr (hw.items _ (json_not_tmp id)) ▸ hid)
  lineEnd := hend

theorem within_audited : host.Within g (g.audited host w entry) where
  halfDone _ hid := hid
  unaudited _ id hid := ((mem_audited host g w entry id).mp hid).1

/-- An entry is appended; the log may only be left as it was when the entry's time cannot be written. -/
theorem Host.Working.appendEntry (h : host.Working ids todo g w) {store : QuarantineStore} :
    (host.appendEntry store entry).MeetsWith never host.note (host.Ordered ids)
      (fun _ g' w' => g' = g ∧ w' = w ∧ ¬ (host.CanLog ∧ entry.time.Rfc3339))
      (fun _ g' w' => g' = g.audited host w entry ∧ host.Working ids todo g' w' ∧
        ∀ id, host.recordAt w' id = host.recordAt w id) g w := by
  refine (appendEntry_meetsWith h.lineEnd).mono ?_ (fun _ _ _ h => h) ?_
  · rintro g' w' ⟨hw, rfl | ⟨rfl, hl⟩⟩
    · exact h.toOrdered.appended hw
    · exact h.toOrdered.audited hw hl
  · rintro _ g' w' ⟨hw, rfl, hend, hl⟩
    exact ⟨rfl, h.audited hw hl hend, hw.recordAt⟩

/-! ### Records -/

theorem written_stateAt_ne {id' : QuarantineId} (hne : id' ≠ id) :
    host.stateAt (w.written id data) id' = host.stateAt w id' := by
  rw [Host.stateAt, written_recordAt hne, Host.stateAt]

/-- A record is put in place whose stored file is as it says. -/
theorem Host.Working.saved (h : host.Working ids todo g w) (hdata : host.records.toVecPretty record = .ok data)
    (hid : record.id ∈ ids)
    (hquarantined : record.state = .quarantined →
      host.copyAt w record (.data record.id) = some record.original.sha256)
    (hgone : record.state ∈ [ItemState.restored, .deleted, .rolledBack] → w.items.lookup (.data record.id) = none)
    (htodo : ∀ id ∈ todo, id ≠ record.id → id ∈ todo') (hpending : record.state = .pending → record.id ∈ todo') :
    host.Working ids todo' (g.saved record) (w.written record.id data) := by
  have hrecord : host.recordAt (w.written record.id data) record.id = some record :=
    recordAt_of_written written_json hdata
  have hfile (id : QuarantineId) : (w.written record.id data).items.lookup (.data id) = w.items.lookup (.data id) :=
    written_lookup (by simp) (data_not_tmp id)
  have hjson {id : QuarantineId} (hne : id ≠ record.id) :
      (w.written record.id data).items.lookup (.json id) = w.items.lookup (.json id) :=
    written_lookup (by simpa using hne) (json_not_tmp id)
  -- the record that is saved settles what was half done of its item
  have hhalf (id : QuarantineId) : id ∈ (g.saved record).halfDone ↔ id ∈ g.halfDone ∧ id ≠ record.id := by
    rw [Progress.saved, List.mem_filter, decide_eq_true_eq]
  -- and is to be audited if its state is final
  have hunaudited {id : QuarantineId} (hmem : id ∉ (g.saved record).unaudited) :
      id ∉ g.unaudited ∧ (id = record.id → record.state = .pending) := by
    rw [Progress.saved] at hmem
    by_cases hstate : record.state = .pending
    · rw [if_pos hstate] at hmem
      exact ⟨hmem, fun _ => hstate⟩
    · rw [if_neg hstate, List.mem_cons, not_or] at hmem
      exact ⟨hmem.2, fun heq => absurd heq hmem.1⟩
  -- in each part the item itself, and then the others, which are as they were
  refine ⟨⟨fun id hlookup => ?_, fun id record' hrecord' => ?_, fun id hmem => ?_, fun id hmem => ?_,
    fun id hmem => ?_, h.lawful⟩, fun id hstate => ?_, h.lineEnd⟩
  · by_cases hne : id = record.id
    · rwa [hne]
    · exact h.drawn id (by rwa [hjson hne] at hlookup)
  · by_cases hne : id = record.id
    · rw [hne, hrecord] at hrecord'
      obtain rfl := Option.some.inj hrecord'
      exact (host.records.toVecPretty_writable record).mpr ⟨data, hdata⟩
    · exact h.writable id record' (by rwa [written_recordAt hne] at hrecord')
  · by_cases hne : id = record.id
    · intro record' hrecord'
      rw [hne, hrecord] at hrecord'
      obtain rfl := Option.some.inj hrecord'
      rw [hne, copyAt_congr (hfile _), hfile]
      exact ⟨hquarantined, hgone⟩
    · have hbefore : id ∉ g.halfDone := fun hin => hmem ((hhalf id).mpr ⟨hin, hne⟩)
      exact (h.data id hbefore).congr (hjson hne) (hfile id)
  · obtain ⟨hbefore, hne⟩ := (hhalf id).mp hmem
    rw [written_stateAt_ne hne, hfile]
    exact h.half id hbefore
  · obtain ⟨hbefore, hstate⟩ := hunaudited hmem
    by_cases hne : id = record.id
    · intro record' hrecord' hfinal
      rw [hne, hrecord] at hrecord'
      obtain rfl := Option.some.inj hrecord'
      exact absurd (hstate hne) hfinal
    · exact (h.log id hbefore).congr (hjson hne) ⟨[], by rw [List.append_nil]; rfl⟩
  · by_cases hne : id = record.id
    · rw [hne, stateAt_of_recordAt hrecord] at hstate
      exact hne ▸ hpending (Option.some.inj hstate)
    · exact htodo id (h.pending id (by rwa [written_stateAt_ne hne] at hstate)) hne

/-- `save` puts such a record in place. -/
theorem Host.Working.save (h : host.Working ids todo g w) (record : QuarantineRecord) (todo' : List QuarantineId)
    (hlife : Lifecycle (host.stateAt w record.id) (some record.state)) (hid : record.id ∈ ids)
    (hquarantined : record.state = .quarantined →
      host.copyAt w record (.data record.id) = some record.original.sha256)
    (hgone : record.state ∈ [ItemState.restored, .deleted, .rolledBack] → w.items.lookup (.data record.id) = none)
    (htodo : ∀ id ∈ todo, id ≠ record.id → id ∈ todo') (hpending : record.state = .pending → record.id ∈ todo') :
    (host.save record).MeetsWith never host.note (host.Ordered ids)
      (fun _ g' w' => g' = g ∧ host.Working ids todo g w' ∧ ¬ record.Writable)
      (fun _ g' w' => g' = g.saved record ∧ host.Working ids todo' g' w' ∧
        host.recordAt w' record.id = some record ∧
        ∀ id ≠ record.id, host.recordAt w' id = host.recordAt w id) g w := by
  have hsaved {data : Bytes} (hdata : host.records.toVecPretty record = .ok data) :=
    h.saved hdata hid hquarantined hgone htodo hpending
  refine (save_meetsWith hlife).mono ?_ ?_ ?_
  · rintro g' w' (⟨rfl, hw⟩ | ⟨data, hdata, rfl, hw⟩)
    · exact h.toOrdered.appended hw.appended
    · exact (hsaved hdata).toOrdered.appended hw.appended
  · rintro _ g' w' ⟨rfl, hw, hwritable⟩
    exact ⟨rfl, h.view hw, hwritable⟩
  · rintro _ g' w' ⟨data, hdata, rfl, hw⟩
    refine ⟨rfl, (hsaved hdata).view hw, ?_, fun id hne => ?_⟩
    · rw [hw.recordAt]
      exact recordAt_of_written written_json hdata
    · rw [hw.recordAt, written_recordAt hne]

/-! ### Stored files -/

/-- The stored file of a pending item may be anything. -/
theorem Host.Working.dataChanged (h : host.Working ids todo g w) (hstate : host.stateAt w id = some .pending)
    (hitems : ∀ f : ItemFile, ¬ f.IsTmp → f ≠ .data id → w'.items.lookup f = w.items.lookup f)
    (haudit : w'.audit = w.audit) : host.Working ids todo g w' := by
  have hjson (id' : QuarantineId) : w'.items.lookup (.json id') = w.items.lookup (.json id') :=
    hitems _ (json_not_tmp id') (by simp)
  have hfile {id' : QuarantineId} (hne : id' ≠ id) : w'.items.lookup (.data id') = w.items.lookup (.data id') :=
    hitems _ (data_not_tmp id') (by simpa using hne)
  refine ⟨⟨fun id' hid' => ?_, fun id' record hrecord => ?_, fun id' hid' => ?_, fun id' hid' => ?_,
    fun id' hid' => ?_, h.lawful⟩, fun id' hid' => ?_, haudit ▸ h.lineEnd⟩
  · exact h.drawn id' (hjson id' ▸ hid')
  · exact h.writable id' record (recordAt_congr (hjson id') ▸ hrecord)
  -- nothing is said yet of the file of a pending item
  · by_cases hne : id' = id
    · intro record hrecord
      rw [hne, recordAt_congr (hjson id)] at hrecord
      rw [stateAt_of_recordAt hrecord] at hstate
      simp [Option.some.inj hstate]
    · exact (h.data id' hid').congr (hjson id') (hfile hne)
  · obtain ⟨hquarantined, hgone⟩ := h.half id' hid'
    have hne : id' ≠ id := by
      rintro rfl
      rw [hstate] at hquarantined
      cases hquarantined
    rw [stateAt_congr (hjson id'), hfile hne]
    exact ⟨hquarantined, hgone⟩
  · exact (h.log id' hid').congr (hjson id') ⟨[], by rw [List.append_nil, haudit]⟩
  · exact h.pending id' (stateAt_congr (hjson id') ▸ hid')

theorem eraseItem_json (w : Disk) (id id' : QuarantineId) :
    (w.eraseItem (.data id)).items.lookup (.json id') = w.items.lookup (.json id') := by
  rw [Disk.eraseItem_lookup, if_neg (by simp)]

/-- The removal of a stored file is only noted while its item is quarantined. -/
theorem note_erase (hfile : w.items.lookup (.data id) ≠ none) :
    host.note g ⟨.removeItem (.data id), w, w.eraseItem (.data id)⟩ =
      if host.stateAt w id = some .quarantined then { g with halfDone := id :: g.halfDone } else g := by
  have htook : (⟨.removeItem (.data id), w, w.eraseItem (.data id)⟩ : Step storeSystem).took (.data id) := by
    refine ⟨hfile, ?_⟩
    change (w.eraseItem (.data id)).items.lookup (.data id) = none
    rw [Disk.eraseItem_lookup, if_pos rfl]
  have hlife (id' : QuarantineId) :
      Lifecycle (host.stateAt w id') (host.stateAt (w.eraseItem (.data id)) id') := by
    rw [stateAt_congr (eraseItem_json w id id')]
    exact .same _
  by_cases hstate : host.stateAt w id = some .quarantined
  · rw [if_pos hstate]
    exact note_eq (if_pos ⟨htook, hstate⟩) rfl hlife
  · rw [if_neg hstate]
    exact note_eq (if_neg fun h => hstate h.2) rfl hlife

/-- The stored file of a quarantined item is removed: what was asked for is half done. -/
theorem Host.Working.removed (h : host.Working ids todo g w) (hstate : host.stateAt w id = some .quarantined) :
    host.Working ids todo { g with halfDone := id :: g.halfDone } (w.eraseItem (.data id)) := by
  have hjson := eraseItem_json w id
  have hfile {id' : QuarantineId} (hne : id' ≠ id) :
      (w.eraseItem (.data id)).items.lookup (.data id') = w.items.lookup (.data id') := by
    rw [Disk.eraseItem_lookup, if_neg (by simpa using hne)]
  refine ⟨⟨fun id' hid' => ?_, fun id' record hrecord => ?_, fun id' hid' => ?_, fun id' hid' => ?_,
    fun id' hid' => ?_, h.lawful⟩, fun id' hid' => ?_, h.lineEnd⟩
  · exact h.drawn id' (hjson id' ▸ hid')
  · exact h.writable id' record (recordAt_congr (hjson id') ▸ hrecord)
  · obtain ⟨hne, hbefore⟩ := not_or.mp (mt List.mem_cons.mpr hid')
    exact (h.data id' hbefore).congr (hjson id') (hfile hne)
  · rw [stateAt_congr (hjson id')]
    by_cases hne : id' = id
    · rw [hne, Disk.eraseItem_lookup, if_pos rfl]
      exact ⟨hstate, rfl⟩
    · rw [hfile hne]
      exact h.half id' ((List.mem_cons.mp hid').resolve_left hne)
  · exact (h.log id' hid').congr (hjson id') ⟨[], by rw [List.append_nil]; rfl⟩
  · exact h.pending id' (stateAt_congr (hjson id') ▸ hid')

/-! ### Quiet programs -/

theorem Host.Ordered.quiet {ε α : Type} {p : Prog storeSystem ε α} {err : ε → Disk → Prop}
    {returned : α → Disk → Prop} (h : host.Ordered ids g w) (hp : p.Calls StoreCall.Quiet)
    (hm : p.Meets never (fun _ => True) err returned w) :
    p.MeetsWith never host.note (host.Ordered ids) (fun e g' w' => g' = g ∧ SameView w w' ∧ err e w')
      (fun a g' w' => g' = g ∧ SameView w w' ∧ returned a w') g w := by
  have hreturns : p.Returns never (fun _ _ => True) w := hm.mono (fun _ h => h) (fun _ _ _ => trivial)
    fun _ _ _ => trivial
  refine ((quiet_meetsWith hp hreturns).and hm).mono ?_ ?_ ?_
  · rintro g' w' ⟨⟨rfl, hw⟩, -⟩
    exact h.appended hw.appended
  · rintro e g' w' ⟨⟨rfl, hw⟩, he⟩
    exact ⟨rfl, hw, he⟩
  · rintro a g' w' ⟨⟨rfl, hw, -⟩, ha⟩
    exact ⟨rfl, hw, ha⟩

theorem Host.Ordered.kept {ε α : Type} {p : Prog storeSystem ε α} (h : host.Ordered ids g w)
    (hp : p.Calls StoreCall.Quiet) :
    p.MeetsWith never host.note (host.Ordered ids) (fun _ g' w' => g' = g ∧ SameView w w')
      (fun _ g' w' => g' = g ∧ SameView w w') g w := by
  have hany : p.Meets never (fun _ => True) (fun _ _ => True) (fun _ _ => True) w :=
    hp.meets (J := fun _ => True) (fun _ _ => ⟨fun _ _ _ => trivial, fun _ _ _ => trivial, fun _ _ => trivial⟩) trivial
  exact (h.quiet hp hany).mono (fun _ _ h => h) (fun _ _ _ h => ⟨h.1, h.2.1⟩) fun _ _ _ h => ⟨h.1, h.2.1⟩

/-- A quiet call that has no error. -/
theorem Host.Ordered.sure {c : StoreCall} {onError : Errno → RemediationError} (h : host.Ordered ids g w)
    (hc : c.Quiet) (hsure : ∀ e, (w.apply c).1 ≠ .error e) :
    (c.orErr onError).MeetsWith never host.note (host.Ordered ids) (fun _ _ _ => False)
      (fun a g' w' => g' = g ∧ SameView w w' ∧ w.apply c = (.ok a, w')) g w := by
  refine (quiet_sure hc hsure).mono ?_ (fun _ _ _ h => h) fun _ _ _ h => h
  rintro g' w' ⟨rfl, hw⟩
  exact h.appended hw.appended

theorem Host.Ordered.ignored {c : StoreCall} (h : host.Ordered ids g w) (hc : c.Quiet) :
    c.ignored.MeetsWith never host.note (host.Ordered ids) (fun _ _ _ => False)
      (fun _ g' w' => g' = g ∧ SameView w w') g w := by
  have hm : c.ignored.Meets never (fun _ => True) (fun _ _ => False) (fun _ _ => True) w :=
    ⟨fun _ => trivial, (fun h => by cases h), trivial⟩
  exact (h.quiet (Prog.Calls.ignore hc) hm).mono (fun _ _ h => h) (fun _ _ _ h => h.2.2) fun _ _ _ h => ⟨h.1, h.2.1⟩

end AbyssalWarden

import AbyssalWarden.LifecycleSpec

/-! Every call of the store, and opening it, keeps the items in order wherever it is stopped. A call that returns
leaves nothing to be resolved, and nothing half done that was not so before. -/
namespace AbyssalWarden

variable {host : Host} {ids todo : List QuarantineId} {w w' : Disk} {id : QuarantineId}
  {record old : QuarantineRecord} {g g' g₁ : Progress} {req : QuarantineRequest} {d : Draws}
  {store : QuarantineStore} {entry : AuditEntry} {now : Now} {key : FileKey}

/-- Nothing is left to do but for the items of `todo`. -/
structure Host.Settled (host : Host) (ids todo : List QuarantineId) (g g' : Progress) (w' : Disk) : Prop where
  working : host.Working ids todo g' w'
  within : host.Within g g'

/-- An item was brought to a final state, and only the audit of it is missing. -/
structure Host.Finished (host : Host) (ids todo : List QuarantineId) (g : Progress) (record : QuarantineRecord)
    (g' : Progress) (w' : Disk) : Prop where
  working : host.Working ids todo g' w'
  recordAt : host.recordAt w' record.id = some record
  halfDone : ∀ id ∈ g'.halfDone, id ∈ g.halfDone
  unaudited : ∀ id ∈ g'.unaudited, id = record.id ∨ id ∈ g.unaudited

theorem Host.Working.settled (h : host.Working ids todo g w) : host.Settled ids todo g g w := ⟨h, .refl g⟩

/-- What was half done is done when the record is saved. -/
theorem Host.Working.finished (h : host.Working ids todo (g₁.saved record) w')
    (hrecord : host.recordAt w' record.id = some record)
    (hhalf : ∀ id ∈ g₁.halfDone, id = record.id ∨ id ∈ g.halfDone) (hunaudited : g₁.unaudited = g.unaudited) :
    host.Finished ids todo g record (g₁.saved record) w' where
  working := h
  recordAt := hrecord
  halfDone id hid := by
    rw [Progress.saved, List.mem_filter, decide_eq_true_eq] at hid
    exact (hhalf id hid.1).resolve_left hid.2
  unaudited id hid := by
    rw [Progress.saved, hunaudited] at hid
    split at hid
    · exact .inr hid
    · exact List.mem_cons.mp hid

theorem Host.Settled.audit (h : host.Settled ids todo g g₁ w) :
    (host.appendEntry store entry).MeetsWith never host.note (host.Ordered ids)
      (fun _ => host.Settled ids todo g) (fun _ => host.Settled ids todo g) g₁ w := by
  refine h.working.appendEntry.mono (fun _ _ h => h) ?_ ?_
  · rintro _ g' w' ⟨rfl, rfl, -⟩
    exact h
  · rintro _ g' w' ⟨rfl, hw', -⟩
    exact ⟨hw', h.within.trans within_audited⟩

/-- With the audit of its entry an item is done. -/
theorem Host.Finished.audit (h : host.Finished ids todo g record g₁ w)
    (hannounces : Host.Announces record record.id entry) (htime : entry.time.Rfc3339) :
    (host.appendEntry store entry).MeetsWith never host.note (host.Ordered ids)
      (fun _ => host.Settled ids todo g) (fun _ g' w' => host.Settled ids todo g g' w' ∧
        ∀ id, host.recordAt w' id = host.recordAt w id) g₁ w := by
  refine h.working.appendEntry.mono (fun _ _ h => h) ?_ ?_
  · rintro _ g' w' ⟨rfl, rfl, hnot⟩
    exact ⟨h.working, h.halfDone, fun hlog => absurd ⟨hlog, htime⟩ hnot⟩
  · rintro _ g' w' ⟨rfl, hw', hsame⟩
    refine ⟨⟨hw', h.halfDone, fun _ id hid => ?_⟩, hsame⟩
    obtain ⟨hbefore, hnot⟩ := (mem_audited host g₁ w entry id).mp hid
    cases h.unaudited id hbefore with
    | inr hbefore => exact hbefore
    | inl heq =>
      rw [Host.announced, heq, h.recordAt] at hnot
      exact absurd hannounces (of_decide_eq_false hnot)

/-! ### Restore and delete -/

theorem decodeFile_quiet {f : ItemFile} {k : Bytes} {out : Option FileKey} :
    (host.decodeFile id f k out).Calls StoreCall.Quiet := by
  refine (Prog.Calls.request trivial).bind fun _ => (Prog.Calls.ofExcept _).bind fun _ => ?_
  refine (Prog.Calls.ofExcept _).bind fun _ => ?_
  refine Prog.Calls.bind (Prog.Calls.forEach (fun _ _ => ?_) _ _) fun _ => trivial
  unfold Host.decodePiece
  cases out with
  | none => trivial
  | some target => exact (Prog.Calls.request trivial).bind fun _ => trivial

theorem writeRestored_quiet {k : Bytes} {tmp : FileKey} {target : NativePath} :
    (host.writeRestored id record k tmp target).Calls StoreCall.Quiet := by
  have hsync : ((StoreCall.syncFile tmp).orErr (.io "finalise" target)).Calls StoreCall.Quiet :=
    Prog.Calls.request trivial
  unfold Host.writeRestored
  refine decodeFile_quiet.bind fun _ => (Prog.Calls.ofExcept _).bind fun _ => ?_
  refine (Prog.Calls.request trivial).bind fun _ => ?_
  split
  · exact (Prog.Calls.request trivial).bind fun _ => hsync
  · exact hsync

theorem commitRestored_quiet {tmp target : FileKey} {path : NativePath} :
    (Host.commitRestored tmp target path).Calls StoreCall.Quiet := by
  have hremove : (StoreCall.ignored (.removeFile tmp)).Calls StoreCall.Quiet := Prog.Calls.ignore trivial
  refine (Prog.Calls.ask trivial).bind fun renamed => ?_
  rcases renamed with e | _
  · cases e with
    | exist => exact hremove.bind fun _ => trivial
    | inval =>
      refine (Prog.Calls.ask trivial).bind fun linked => hremove.bind fun _ => ?_
      rcases linked with e | _
      · cases e <;> trivial
      · trivial
    | _ => exact hremove.bind fun _ => trivial
  · trivial

/-- The record that a restore or a delete finds. -/
theorem get_runs (h : host.Ordered ids g w) : (host.get id).MeetsWith never host.note (host.Ordered ids)
    (fun _ g' w' => g' = g ∧ SameView w w')
    (fun record g' w' => g' = g ∧ w' = w ∧ host.recordAt w id = some record ∧ record.id = id) g w := by
  refine (h.quiet ((get_calls id).mono fun _ hc => hc.quiet)
    ((get_meets id w).mono (fun _ _ => trivial) (fun _ _ h => h) fun _ _ h => h)).mono (fun _ _ h => h) ?_ ?_
  · rintro _ g' w' ⟨rfl, hw, -⟩
    exact ⟨rfl, hw⟩
  · rintro _ g' w' ⟨rfl, -, hrecord⟩
    exact ⟨rfl, hrecord⟩

/-- The stored file of a quarantined item is removed, or it was missing. -/
theorem removeItem_runs {ε α : Type} {f : Except Errno Unit → Prog storeSystem ε α}
    {err : ε → Progress → Disk → Prop} {returned : α → Progress → Disk → Prop}
    (h : host.Working ids [] g w) (hstate : host.stateAt w id = some .quarantined)
    (hremoved : (f (.ok ())).MeetsWith never host.note (host.Ordered ids) err returned
      { g with halfDone := id :: g.halfDone } (w.eraseItem (.data id)))
    (hmissing : w.items.lookup (.data id) = none →
      (f (.error .noent)).MeetsWith never host.note (host.Ordered ids) err returned g w) :
    (Prog.call (S := storeSystem) (.removeItem (.data id)) f).MeetsWith never host.note (host.Ordered ids) err
      returned g w := by
  -- a call that does nothing is noted as nothing
  have hstutter : host.note g ⟨.removeItem (.data id), w, w⟩ = g :=
    note_stutter (c := .removeItem (.data id)) fun _ h => by cases h
  have hbefore : host.Ordered ids (host.note g ⟨.removeItem (.data id), w, w⟩) w :=
    hstutter.symm ▸ h.toOrdered
  cases hfile : w.items.lookup (.data id) with
  | none =>
    have happly : w.removeItem (.data id) = (.error .noent, w) := by rw [Disk.removeItem, hfile]
    have happly' : storeSystem.apply (.removeItem (.data id)) w = (.error .noent, w) := happly
    refine ⟨fun n => ?_, (fun h => by cases h), ?_⟩
    · change host.Ordered ids (host.note g ⟨_, w, if n = 0 then w else (w.removeItem (.data id)).2⟩)
        (if n = 0 then w else (w.removeItem (.data id)).2)
      rw [happly, ite_self]
      exact hbefore
    · rw [happly', hstutter]
      exact hmissing hfile
  | some file =>
    have happly : w.removeItem (.data id) = (.ok (), w.eraseItem (.data id)) := by rw [Disk.removeItem, hfile]
    have happly' : storeSystem.apply (.removeItem (.data id)) w = (.ok (), w.eraseItem (.data id)) := happly
    have hnote : host.note g ⟨.removeItem (.data id), w, w.eraseItem (.data id)⟩ =
        { g with halfDone := id :: g.halfDone } :=
      (note_erase (by simp [hfile])).trans (if_pos hstate)
    refine ⟨fun n => ?_, (fun h => by cases h), ?_⟩
    · change host.Ordered ids (host.note g ⟨_, w, if n = 0 then w else (w.removeItem (.data id)).2⟩)
        (if n = 0 then w else (w.removeItem (.data id)).2)
      rw [happly]
      -- stopped before the removal, or after it: then the item is half done
      by_cases hn : n = 0
      · rw [if_pos hn]
        exact hbefore
      · rw [if_neg hn, hnote]
        exact (h.removed hstate).toOrdered
    · rw [happly', hnote]
      exact hremoved

/-- The record of an item whose stored file is gone is saved. -/
theorem Host.Working.saveGone (h : host.Working ids [] g₁ w) (record : QuarantineRecord)
    (hstate : host.stateAt w record.id = some .quarantined)
    (hfinal : record.state = .restored ∨ record.state = .deleted) (hwritable : record.Writable)
    (hfile : w.items.lookup (.data record.id) = none)
    (hhalf : ∀ id ∈ g₁.halfDone, id = record.id ∨ id ∈ g.halfDone) (hunaudited : g₁.unaudited = g.unaudited) :
    (host.save record).MeetsWith never host.note (host.Ordered ids) (fun _ _ _ => False)
      (fun _ => host.Finished ids [] g record) g₁ w := by
  obtain ⟨old, hold, -⟩ := Option.map_eq_some_iff.mp hstate
  have hid : record.id ∈ ids := by
    obtain ⟨data, hdata, -⟩ := recordAt_eq_some hold
    exact h.drawn record.id (by simp [hdata])
  have hlife : Lifecycle (host.stateAt w record.id) (some record.state) := by
    rw [hstate]
    rcases hfinal with hfinal | hfinal
    · exact hfinal ▸ .restored
    · exact hfinal ▸ .deleted
  refine (h.save record [] hlife hid ?_ (fun _ => hfile) (fun _ h _ => h) ?_).mono (fun _ _ h => h) ?_ ?_
  · intro heq
    rw [heq] at hfinal
    rcases hfinal with h | h <;> cases h
  · intro heq
    rw [heq] at hfinal
    rcases hfinal with h | h <;> cases h
  -- the record can be written, so saving it is not refused
  · rintro _ g' w' ⟨-, -, hnot⟩
    exact hnot hwritable
  · rintro _ g' w' ⟨rfl, hw', hrecord, -⟩
    exact hw'.finished hrecord hhalf hunaudited

theorem restoreInner_runs {destDir : Option NativePath} (h : host.Working ids [] g w) :
    (host.restoreInner id destDir d).MeetsWith never host.note (host.Ordered ids)
      (fun _ => host.Settled ids [] g) (fun _ g' w' => ∃ record, host.Finished ids [] g record g' w' ∧
        record.id = id ∧ record.state = .restored) g w := by
  have hview {w' : Disk} (hw : SameView w w') : host.Settled ids [] g g w' := (h.view hw).settled
  unfold Host.restoreInner
  refine Prog.meetsWith_bind.mpr ((get_runs h.toOrdered).mono (fun _ _ h => h) ?_ ?_)
  · rintro _ g' w' ⟨rfl, hw⟩
    exact hview hw
  rintro record g' w' ⟨rfl, rfl, hrecord, hid⟩
  refine Prog.meetsWith_bind.mpr (Prog.meetsWith_ofExcept.mpr ⟨fun _ hstate => ?_, fun _ _ => h.settled⟩)
  rw [refuseIf_eq_ok, not_not] at hstate
  refine Prog.meetsWith_bind.mpr (Prog.meetsWith_ofExcept.mpr ⟨fun target _ => ?_, fun _ _ => h.settled⟩)
  obtain ⟨targetDir, name, target⟩ := target
  refine Prog.meetsWith_bind.mpr (Prog.meetsWith_ofExcept.mpr ⟨fun _ _ => ?_, fun _ _ => h.settled⟩)
  cases hkey : Host.recordKey record with
  | none => exact h.settled
  | some k =>
    -- the restored file is written quietly
    have hquiet {α : Type} {p : StoreProg α} (hp : p.Calls StoreCall.Quiet) {w₁ : Disk} (hw₁ : SameView w' w₁) :
        p.MeetsWith never host.note (host.Ordered ids) (fun _ => host.Settled ids [] g')
          (fun _ g₂ w₂ => g₂ = g' ∧ SameView w' w₂) g' w₁ := by
      refine ((h.view hw₁).kept hp).mono (fun _ _ h => h) ?_ ?_
      · rintro _ g₂ w₂ ⟨rfl, hw₂⟩
        exact hview (hw₁.trans hw₂)
      · rintro _ g₂ w₂ ⟨rfl, hw₂⟩
        exact ⟨rfl, hw₁.trans hw₂⟩
    refine Prog.meetsWith_bind.mpr ((hquiet (Prog.Calls.request (by trivial)) (.refl w')).mono (fun _ _ h => h)
      (fun _ _ _ h => h) ?_)
    rintro _ g₁ w₁ ⟨rfl, hw₁⟩
    refine Prog.meetsWith_bind.mpr ((hquiet (writeRestored_quiet.orCleanup
      (Prog.Calls.ignore (by trivial))) hw₁).mono
      (fun _ _ h => h) (fun _ _ _ h => h) ?_)
    rintro _ g₂ w₂ ⟨rfl, hw₂⟩
    refine Prog.meetsWith_bind.mpr ((hquiet commitRestored_quiet hw₂).mono (fun _ _ h => h) (fun _ _ _ h => h) ?_)
    rintro _ g₃ w₃ ⟨rfl, hw₃⟩
    refine Prog.meetsWith_bind.mpr ((hquiet (Prog.Calls.request (by trivial)) hw₃).mono (fun _ _ h => h)
      (fun _ _ _ h => h) ?_)
    rintro _ g₄ w₄ ⟨rfl, hw₄⟩
    -- then the stored file is removed and the record saved
    have hworking := h.view hw₄
    have hstate₄ : host.stateAt w₄ id = some .quarantined := by
      rw [hw₄.stateAt, stateAt_of_recordAt hrecord, hstate]
    refine removeItem_runs hworking hstate₄ ?_ fun _ => hworking.settled
    have hwritable := h.writable id record hrecord
    have herase : host.stateAt (w₄.eraseItem (.data id)) id = some .quarantined := by
      rw [stateAt_congr (eraseItem_json w₄ id id), hstate₄]
    subst hid
    have hsave := (hworking.removed hstate₄).saveGone (g := g₄) { record with
        state := .restored
        updatedAt := d.later.1
        restoredTo := some (ObservedPath.fromPath target)
        notes := record.notes ++ host.restoreNotes record } herase (.inl rfl)
      ⟨hwritable.1, d.later.2, hwritable.2.2⟩ (by rw [Disk.eraseItem_lookup, if_pos rfl])
      (fun _ => List.mem_cons.mp) rfl
    exact (Prog.meetsWith_bind (p := host.save _)).mpr (hsave.mono (fun _ _ h => h) (fun _ _ _ h => h.elim)
      fun _ g' w' hfinished => ⟨_, hfinished, rfl, rfl⟩)

theorem deleteInner_runs (h : host.Working ids [] g w) :
    (host.deleteInner id d).MeetsWith never host.note (host.Ordered ids)
      (fun _ => host.Settled ids [] g) (fun _ g' w' => ∃ record, host.Finished ids [] g record g' w' ∧
        record.id = id ∧ record.state = .deleted) g w := by
  unfold Host.deleteInner
  refine Prog.meetsWith_bind.mpr ((get_runs h.toOrdered).mono (fun _ _ h => h) ?_ ?_)
  · rintro _ g' w' ⟨rfl, hw⟩
    exact (h.view hw).settled
  rintro record g' w' ⟨rfl, rfl, hrecord, hid⟩
  refine Prog.meetsWith_bind.mpr (Prog.meetsWith_ofExcept.mpr ⟨fun _ hstate => ?_, fun _ _ => h.settled⟩)
  rw [refuseIf_eq_ok, not_not] at hstate
  subst hid
  have hstateAt : host.stateAt w' record.id = some .quarantined := by
    rw [stateAt_of_recordAt hrecord, hstate]
  have hwritable := h.writable record.id record hrecord
  -- what follows when the stored file is gone
  have hsave {g₁ : Progress} {w₁ : Disk} (notes : List String) (h₁ : host.Working ids [] g₁ w₁)
      (hstate₁ : host.stateAt w₁ record.id = some .quarantined) (hfile : w₁.items.lookup (.data record.id) = none)
      (hhalf : ∀ id ∈ g₁.halfDone, id = record.id ∨ id ∈ g'.halfDone) (hunaudited : g₁.unaudited = g'.unaudited) :
      (do
        StoreCall.syncItems.orErr (.io "sync" host.root)
        host.save { record with
          state := .deleted
          updatedAt := d.later.1
          notes := record.notes ++ notes } : StoreProg Unit).MeetsWith never host.note (host.Ordered ids)
        (fun _ => host.Settled ids [] g') (fun _ g₂ w₂ => ∃ r, host.Finished ids [] g' r g₂ w₂ ∧
          r.id = record.id ∧ r.state = .deleted) g₁ w₁ := by
    refine Prog.meetsWith_bind.mpr ((h₁.sure (c := .syncItems) trivial fun _ h => by cases h).mono
      (fun _ _ h => h) (fun _ _ _ h => h.elim) ?_)
    rintro _ g₂ w₂ ⟨rfl, -, hsync⟩
    cases hsync
    have hsave := h₁.saveGone (g := g') { record with
        state := .deleted
        updatedAt := d.later.1
        notes := record.notes ++ notes } hstate₁ (.inr rfl) ⟨hwritable.1, d.later.2, hwritable.2.2⟩ hfile hhalf
      hunaudited
    exact hsave.mono (fun _ _ h => h) (fun _ _ _ h => h.elim) fun _ g' w' hfinished => ⟨_, hfinished, rfl, rfl⟩
  refine removeItem_runs h hstateAt ?_ fun hmissing => ?_
  · refine hsave [] (h.removed hstateAt) ?_ ?_ (fun _ => List.mem_cons.mp) rfl
    · rw [stateAt_congr (eraseItem_json w' record.id record.id), hstateAt]
    · rw [Disk.eraseItem_lookup, if_pos rfl]
  · exact hsave ["content was already missing"] h hstateAt hmissing (fun _ => .inr) rfl

end AbyssalWarden

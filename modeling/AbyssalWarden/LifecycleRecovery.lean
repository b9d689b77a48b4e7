import AbyssalWarden.LifecycleOpen

/-! Opening the store resolves every interrupted quarantine, or leaves the store closed. -/
namespace AbyssalWarden

variable {host : Host} {ids todo : List QuarantineId} {w w' : Disk} {id : QuarantineId}
  {record old : QuarantineRecord} {g g' : Progress} {store : QuarantineStore} {now : Now}
  {pending : List QuarantineRecord}

/-- What an interrupted quarantine is resolved to. -/
def Host.ResolvedTo (host : Host) (old : QuarantineRecord) (w' : Disk) (outcome : ItemState) : Prop :=
  outcome = .rolledBack ∧ w'.items.lookup (.data old.id) = none ∨
    outcome = .quarantined ∧ host.copyAt w' old (.data old.id) = some old.original.sha256 ∨ outcome = .failed

theorem originalPresent_quiet : (host.originalPresent record).Calls StoreCall.Quiet :=
  originalPresent_calls.mono fun _ hc => hc.quiet

theorem copyVerified_quiet : (host.copyVerified record).Calls StoreCall.Quiet :=
  copyVerified_calls.mono fun _ hc => hc.quiet

theorem resolvePending_runs (h : host.Working ids todo g w) (hstate : host.stateAt w old.id = some .pending) :
    (host.resolvePending old).MeetsWith never host.note (host.Ordered ids) (fun _ _ _ => False)
      (fun outcome g' w' => g' = g ∧ host.Working ids todo g w' ∧ (∀ id, host.recordAt w' id = host.recordAt w id) ∧
        host.ResolvedTo old w' outcome.1) g w := by
  unfold Host.resolvePending
  refine Prog.meetsWith_bind.mpr ((h.quiet originalPresent_quiet originalPresent_meets).mono (fun _ _ h => h)
    (fun _ _ _ h => h.2.2) ?_)
  rintro present g' w' ⟨rfl, -, rfl, -⟩
  -- the original is there and the copy goes, or the copy decides
  cases present with
  | true =>
    refine Prog.meetsWith_bind.mpr ((discard_runs h hstate).mono (fun _ _ h => h) (fun _ _ _ h => h) ?_)
    rintro _ g₁ w₁ ⟨rfl, hw₁, hsame, hgone⟩
    refine Prog.meetsWith_bind.mpr ((hw₁.ignored (c := .removeItem (.dataTmp old.id)) trivial).mono
      (fun _ _ h => h) (fun _ _ _ h => h) ?_)
    rintro _ g₂ w₂ ⟨rfl, hw₂⟩
    refine Prog.meetsWith_bind.mpr (((hw₁.view hw₂).ignored (c := .syncItems) trivial).mono
      (fun _ _ h => h) (fun _ _ _ h => h) ?_)
    rintro _ g₃ w₃ ⟨rfl, hw₃⟩
    have hw := hw₂.trans hw₃
    refine ⟨rfl, hw₁.view hw, fun id => (hw.recordAt id).trans (hsame id), .inl ⟨rfl, ?_⟩⟩
    exact (hw.items _ (data_not_tmp _)).trans hgone
  | false =>
    refine Prog.meetsWith_bind.mpr ((h.quiet copyVerified_quiet copyVerified_meets).mono (fun _ _ h => h)
      (fun _ _ _ h => h.2.2) ?_)
    rintro verified g₁ w₁ ⟨rfl, -, rfl, hverified⟩
    cases verified with
    | true =>
      refine Prog.meetsWith_bind.mpr ((h.ignored (c := .removeItem (.dataTmp old.id)) trivial).mono
        (fun _ _ h => h) (fun _ _ _ h => h) ?_)
      rintro _ g₂ w₂ ⟨rfl, hw₂⟩
      refine ⟨rfl, h.view hw₂, hw₂.recordAt, .inr (.inl ⟨rfl, ?_⟩)⟩
      rw [copyAt_congr (hw₂.items _ (data_not_tmp _))]
      exact of_decide_eq_true hverified.symm
    | false => exact ⟨rfl, h, fun _ => rfl, .inr (.inr rfl)⟩

/-- One interrupted quarantine is resolved, recorded and audited. -/
theorem recoverItem_runs (h : host.Working ids (old.id :: todo) g w) (hold : host.recordAt w old.id = some old)
    (hstate : old.state = .pending) :
    (host.recoverItem now store old).MeetsWith never host.note (host.Ordered ids)
      (fun _ g' w' => host.Ordered ids g' w' ∧ host.Within g g')
      (fun _ g' w' => host.Settled ids todo g g' w' ∧ ∀ id ≠ old.id, host.recordAt w' id = host.recordAt w id) g w := by
  have hwritable := h.writable old.id old hold
  have hpending : host.stateAt w old.id = some .pending := by rw [stateAt_of_recordAt hold, hstate]
  have hid : old.id ∈ ids := by
    obtain ⟨data, hdata, -⟩ := recordAt_eq_some hold
    exact h.drawn old.id (by simp [hdata])
  unfold Host.recoverItem
  refine Prog.meetsWith_bind.mpr ((resolvePending_runs h hpending).mono (fun _ _ h => h) (fun _ _ _ h => h.elim) ?_)
  rintro ⟨outcome, detail⟩ g₁ w₁ ⟨rfl, hw₁, hsame, hresolved⟩
  dsimp only at hresolved ⊢
  -- recovery decides for a final state, as the copy and the original are found
  have hfinal : outcome ≠ .pending := by
    rintro rfl
    rcases hresolved with ⟨h, -⟩ | ⟨h, -⟩ | h <;> cases h
  refine Prog.meetsWith_bind.mpr ((hw₁.save { old with
    state := outcome
    updatedAt := now.1
    notes := old.notes ++ ["recovery: " ++ detail] } todo ?_ hid ?_ ?_ ?_ fun h => absurd h hfinal).mono
      (fun _ _ h => h) ?_ ?_)
  -- the life of the item: pending to one of the three
  · change Lifecycle (host.stateAt w₁ old.id) (some outcome)
    rw [Host.stateAt, hsame, hold, Option.map_some, hstate]
    rcases hresolved with ⟨rfl, -⟩ | ⟨rfl, -⟩ | rfl
    · exact .rolledBack
    · exact .quarantined
    · exact .failed
  · rintro (rfl : outcome = .quarantined)
    rcases hresolved with ⟨h, -⟩ | ⟨-, hcopy⟩ | h
    · cases h
    · exact hcopy
    · cases h
  · intro hmem
    rcases hresolved with ⟨-, hgone⟩ | ⟨rfl, -⟩ | rfl
    · exact hgone
    · simp at hmem
    · simp at hmem
  · intro id hmem hne
    exact (List.mem_cons.mp hmem).resolve_left hne
  -- the record could be written before, so it can be written now
  · rintro _ g' w' ⟨-, -, hnot⟩
    exact absurd ⟨hwritable.1, now.2, hwritable.2.2⟩ hnot
  · rintro _ g' w' ⟨rfl, hw', hrecord', hother⟩
    have hfinished := hw'.finished (g := g₁) hrecord' (fun _ => .inr) rfl
    refine Prog.meetsWith_bind.mpr ((hfinished.audit ?_ now.2).mono (fun _ _ h => h) ?_ ?_)
    · rcases hresolved with ⟨rfl, -⟩ | ⟨rfl, -⟩ | rfl
      · exact ⟨rfl, rfl, rfl⟩
      · exact ⟨rfl, rfl, .inr rfl⟩
      · exact ⟨rfl, rfl, rfl⟩
    · intro _ g₂ w₂ hsettled
      exact ⟨hsettled.working.toOrdered, hsettled.within⟩
    · rintro _ g₂ w₂ ⟨hsettled, hsame₂⟩
      exact ⟨hsettled, fun id hne => (hsame₂ id).trans ((hother id hne).trans (hsame id))⟩

theorem recoverItems_runs (h : host.Working ids (pending.map QuarantineRecord.id) g w)
    (hpending : ∀ record ∈ pending, host.recordAt w record.id = some record ∧ record.state = .pending)
    (hnodup : (pending.map QuarantineRecord.id).Nodup) :
    (Prog.forEach (host.recoverItem now) store pending).MeetsWith never host.note (host.Ordered ids)
      (fun _ g' w' => host.Ordered ids g' w' ∧ host.Within g g') (fun _ => host.Settled ids [] g) g w := by
  -- those not yet resolved are pending, and each once
  let Inv (_ : QuarantineStore) (rest : List QuarantineRecord) (g' : Progress) (w' : Disk) : Prop :=
    host.Settled ids (rest.map QuarantineRecord.id) g g' w' ∧
      (∀ record ∈ rest, host.recordAt w' record.id = some record ∧ record.state = .pending) ∧
      (rest.map QuarantineRecord.id).Nodup
  have hloop : (Prog.forEach (host.recoverItem now) store pending).MeetsWith never host.note (host.Ordered ids)
      (fun _ g' w' => host.Ordered ids g' w' ∧ host.Within g g') (fun store => Inv store []) g w := by
    apply Prog.meetsWith_forEach
    · rintro store old rest g' w' ⟨hsettled, hrest, hnodup⟩
      rw [List.map_cons, List.nodup_cons] at hnodup
      obtain ⟨hold, hstate⟩ := hrest old List.mem_cons_self
      refine (recoverItem_runs hsettled.working hold hstate).mono (fun _ _ h => h) ?_ ?_
      · rintro _ g₁ w₁ ⟨hw₁, hwithin⟩
        exact ⟨hw₁, hsettled.within.trans hwithin⟩
      · rintro _ g₁ w₁ ⟨hw₁, hother⟩
        refine ⟨⟨hw₁.working, hsettled.within.trans hw₁.within⟩, fun record hrecord => ?_, hnodup.2⟩
        have hne : record.id ≠ old.id := fun heq => hnodup.1 (heq ▸ List.mem_map_of_mem hrecord)
        rw [hother record.id hne]
        exact hrest record (List.mem_cons_of_mem _ hrecord)
    · exact ⟨h.settled, hpending, hnodup⟩
  exact hloop.mono (fun _ _ h => h) (fun _ _ _ h => h) fun _ _ _ hinv => hinv.1

/-! ### Opening the store -/

theorem collectPending_quiet (names : List ItemFile) :
    (Prog.forEach host.collectPending [] names).Calls StoreCall.Quiet := by
  refine Prog.Calls.forEach (fun _ f => ?_) _ _
  cases f with
  | json id => exact ((get_calls id).mono fun _ hc => hc.quiet).bind fun _ => trivial
  | data id | dataTmp id | jsonTmp id => trivial

theorem removeStray_quiet (f : ItemFile) : (host.removeStray () f).Calls StoreCall.Quiet := by
  cases f with
  | jsonTmp id => exact Prog.Calls.ignore trivial
  | dataTmp id =>
    refine ((get_calls id).mono fun _ hc => hc.quiet).attempt.bind fun record => ?_
    cases record with
    | ok record => trivial
    | error e => exact Prog.Calls.ignore trivial
  | data id | json id => trivial

/-- What was collected from all files is all that is pending. -/
theorem Collected.complete (h : Collected host w w.items.keys pending) (hstate : host.stateAt w id = some .pending) :
    id ∈ pending.map QuarantineRecord.id := by
  obtain ⟨record, hrecord, hpending⟩ := Option.map_eq_some_iff.mp hstate
  obtain ⟨data, hdata, -⟩ := recordAt_eq_some hrecord
  have hkey : .json id ∈ w.items.keys := by
    rw [← AList.mem_keys, ← AList.lookup_isSome, hdata]
    rfl
  refine List.mem_map.mpr ⟨record, ?_, h.named id record hkey hrecord⟩
  rw [h.pending]
  exact List.mem_filterMap.mpr ⟨.json id, hkey, by simp [pendingIn, hrecord, hpending]⟩

theorem Collected.records (h : Collected host w w.items.keys pending) (hmem : record ∈ pending) :
    host.recordAt w record.id = some record ∧ record.state = .pending := by
  rw [h.pending] at hmem
  obtain ⟨f, hf, hfind⟩ := List.mem_filterMap.mp hmem
  obtain ⟨id, rfl, hrecord, hstate⟩ := pendingIn_eq_some hfind
  rw [h.named id record hf hrecord]
  exact ⟨hrecord, hstate⟩

theorem recover_runs (h : host.Ordered ids g w) (hend : Host.LineEnd w.audit) :
    (host.recover store now).MeetsWith never host.note (host.Ordered ids)
      (fun _ g' w' => host.Ordered ids g' w' ∧ host.Within g g') (fun _ => host.Settled ids [] g) g w := by
  have hsame : host.Ordered ids g w ∧ host.Within g g := ⟨h, .refl g⟩
  unfold Host.recover
  refine Prog.meetsWith_bind.mpr ((h.sure (c := .listItems) trivial fun _ h => by cases h).mono (fun _ _ h => h)
    (fun _ _ _ h => h.elim) ?_)
  rintro names g₁ w₁ ⟨rfl, -, hnames⟩
  cases hnames
  refine Prog.meetsWith_bind.mpr ((h.quiet (collectPending_quiet w.items.keys)
    ((collectPending_meets w.items.keys).mono (fun _ _ => trivial) (fun _ _ h => h) fun _ _ h => h)).mono
      (fun _ _ h => h) ?_ ?_)
  · rintro _ g' w' ⟨rfl, -, rfl⟩
    exact hsame
  rintro pending g' w' ⟨rfl, -, rfl, hcollected⟩
  have hworking : host.Working ids (pending.map QuarantineRecord.id) g' w' :=
    ⟨h, fun _ hid => hcollected.complete hid, hend⟩
  refine Prog.meetsWith_bind.mpr ((recoverItems_runs hworking (fun _ => hcollected.records)
    (hcollected.nodup (AList.keys_nodup w'.items))).mono (fun _ _ h => h) (fun _ _ _ h => h) ?_)
  intro store g₂ w₂ hsettled
  -- what is left is to remove temporary files
  refine Prog.meetsWith_bind.mpr ((hsettled.working.sure (c := .listItems) trivial fun _ h => by cases h).mono
    (fun _ _ h => h) (fun _ _ _ h => h.elim) ?_)
  rintro names g₃ w₃ ⟨rfl, hw₃, -⟩
  have hcalls : (do
      Prog.forEach host.removeStray () names
      pure store : StoreProg QuarantineStore).Calls StoreCall.Quiet :=
    (Prog.Calls.forEach (fun _ f => removeStray_quiet f) () names).bind fun _ => trivial
  have hworking₃ := hsettled.working.view hw₃
  refine (hworking₃.kept hcalls).mono (fun _ _ h => h) ?_ ?_
  · rintro _ g' w' ⟨rfl, hw⟩
    exact ⟨(hworking₃.view hw).toOrdered, hsettled.within⟩
  · rintro _ g' w' ⟨rfl, hw⟩
    exact ⟨hworking₃.view hw, hsettled.within⟩

/-- A verified log can be appended to. -/
theorem lineEnd_of_verified {log : Bytes} {head : ChainHead}
    (h : verifyChain host.sha256 host.entries log = .ok head) : Host.LineEnd log := by
  intro b hb
  by_contra hne
  obtain ⟨bytes, rfl⟩ := List.getLast?_eq_some_iff.mp hb
  exact verifyChain_open_end hne h

theorem openStore_runs (h : host.Ordered ids g w) :
    (host.openStore now).MeetsWith never host.note (host.Ordered ids)
      (fun _ g' w' => host.Ordered ids g' w' ∧ host.Within g g') (fun _ => host.Settled ids [] g) g w := by
  have hsame : host.Ordered ids g w ∧ host.Within g g := ⟨h, .refl g⟩
  unfold Host.openStore
  refine Prog.meetsWith_bind.mpr ((h.sure (c := .readAudit) trivial fun _ h => by cases h).mono (fun _ _ h => h)
    (fun _ _ _ h => h.elim) ?_)
  rintro log g₁ w₁ ⟨rfl, -, hlog⟩
  cases hlog
  refine Prog.meetsWith_bind.mpr (Prog.meetsWith_ofExcept.mpr ⟨fun head hhead => ?_, fun _ _ => hsame⟩)
  rw [mapError_eq_ok] at hhead
  exact recover_runs h (lineEnd_of_verified hhead)

end AbyssalWarden

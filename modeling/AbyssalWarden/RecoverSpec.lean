import AbyssalWarden.RestoreSpec

/-! Opening the store resolves every interrupted quarantine. Whatever it is stopped by, it can be done
again. -/
namespace AbyssalWarden

variable {host : Host} {mayFail : StoreCall → Bool} {ids : List QuarantineId} {L : StoreLedger}
  {w w' : Disk} {id : QuarantineId} {record : QuarantineRecord} {todo : List QuarantineRecord}

/-! ### Finding what is pending -/

/-- The record of a file, if it is one and still pending. -/
def pendingIn (host : Host) (w : Disk) (f : ItemFile) : Option QuarantineRecord :=
  match f with
  | .json id => (host.recordAt w id).filter fun record => record.state = .pending
  | _ => none

theorem pendingIn_eq_some {f : ItemFile} (h : pendingIn host w f = some record) :
    ∃ id, f = .json id ∧ host.recordAt w id = some record ∧ record.state = .pending := by
  cases f with
  | json id =>
    obtain ⟨hrecord, hstate⟩ := Option.filter_eq_some_iff.mp h
    exact ⟨id, rfl, hrecord, of_decide_eq_true hstate⟩
  | data id | dataTmp id | jsonTmp id => cases h

/-- What is collected from some files: the pending records, each under its own name. -/
structure Collected (host : Host) (w : Disk) (names : List ItemFile) (pending : List QuarantineRecord) :
    Prop where
  pending : pending = names.filterMap (pendingIn host w)
  named : ∀ id record, .json id ∈ names → host.recordAt w id = some record → record.id = id

theorem collectPending_meets (names : List ItemFile) :
    (Prog.forEach host.collectPending [] names).Meets mayFail (· = w) (fun _ => (· = w))
      (fun pending w' => w' = w ∧ Collected host w names pending) w := by
  let Inv (acc : List QuarantineRecord) (rest : List ItemFile) (w' : Disk) : Prop :=
    w' = w ∧ ∃ done, done ++ rest = names ∧ Collected host w done acc
  have h : (Prog.forEach host.collectPending [] names).Meets mayFail (· = w) (fun _ => (· = w))
      (fun acc w' => Inv acc [] w') w := by
    apply Prog.meets_forEach
    · intro acc f rest w' hinv
      obtain ⟨rfl, done, hnames, hdone⟩ := hinv
      have hnext : (done ++ [f]) ++ rest = names := by rw [List.append_assoc]; exact hnames
      -- a file that is no record changes nothing
      have hskip (hf : ∀ id, f ≠ .json id) (hnone : pendingIn host w' f = none) :
          Inv acc rest w' := by
        refine ⟨rfl, done ++ [f], hnext, ?_, fun id record hmem hrecord => ?_⟩
        · rw [List.filterMap_append, ← hdone.pending]
          simp [hnone]
        · rcases List.mem_append.mp hmem with hmem | hmem
          · exact hdone.named id record hmem hrecord
          · exact absurd (List.mem_singleton.mp hmem).symm (hf id)
      cases f with
      | json id =>
        refine Prog.meets_bind.mpr ((get_meets id w').mono (fun _ h => h) (fun _ _ h => h)
          fun record w'' hget => ?_)
        obtain ⟨rfl, hrecord, hrid⟩ := hget
        refine ⟨rfl, done ++ [.json id], hnext, ?_, fun id' record' hmem hrecord' => ?_⟩
        · rw [List.filterMap_append, ← hdone.pending]
          by_cases hstate : record.state = .pending
          · have hone : pendingIn host w'' (.json id) = some record := by
              simp [pendingIn, hrecord, hstate]
            simp [hone, hstate]
          · have hone : pendingIn host w'' (.json id) = none := by
              simp [pendingIn, hrecord, hstate]
            simp [hone, hstate]
        · rcases List.mem_append.mp hmem with hmem | hmem
          · exact hdone.named id' record' hmem hrecord'
          · cases List.mem_singleton.mp hmem
            rw [hrecord] at hrecord'
            cases hrecord'
            exact hrid
      | data id | dataTmp id | jsonTmp id => exact hskip nofun rfl
    · exact ⟨rfl, [], rfl, rfl, fun _ _ hmem => absurd hmem List.not_mem_nil⟩
  refine h.mono (fun _ h => h) (fun _ _ h => h) fun acc w' hinv => ?_
  obtain ⟨hw', done, hnames, hdone⟩ := hinv
  rw [List.append_nil] at hnames
  exact ⟨hw', hnames ▸ hdone⟩

theorem Collected.nodup {pending : List QuarantineRecord} {names : List ItemFile}
    (h : Collected host w names pending) (hnames : names.Nodup) :
    (pending.map QuarantineRecord.id).Nodup := by
  rw [h.pending, List.map_filterMap]
  have hfilter : names.filterMap (fun f => (pendingIn host w f).map QuarantineRecord.id) =
      names.filterMap fun f => (pendingIn host w f).bind fun _ => match f with
        | .json id => some id
        | _ => none := by
    apply List.filterMap_congr
    intro f hf
    cases hpending : pendingIn host w f with
    | none => rfl
    | some record =>
      obtain ⟨id, rfl, hrecord, -⟩ := pendingIn_eq_some hpending
      exact congrArg some (h.named id record hf hrecord)
  rw [hfilter]
  refine hnames.filterMap fun f f' id hf hf' => ?_
  have hjson {f : ItemFile} (hf : id ∈ (pendingIn host w f).bind fun _ => match f with
      | .json id => some id
      | _ => none) : f = .json id := by
    obtain ⟨record, hrecord, hid⟩ := Option.bind_eq_some_iff.mp hf
    obtain ⟨id', rfl, -⟩ := pendingIn_eq_some hrecord
    cases hid
    rfl
  rw [hjson hf, hjson hf']

/-- What was collected from all files is all there is to resolve. -/
theorem Host.Recoverable.interrupted {pending : List QuarantineRecord} (h : host.Recoverable ids L w)
    (hpending : Collected host w w.items.keys pending) : host.Interrupted ids L pending w := by
  have hkeys (id : QuarantineId) (record : QuarantineRecord) (hrecord : host.recordAt w id = some record) :
      .json id ∈ w.items.keys := by
    obtain ⟨data, hdata, -⟩ := recordAt_eq_some hrecord
    rw [← AList.mem_keys, ← AList.lookup_isSome, hdata]
    rfl
  refine ⟨h, fun record hrecord => ?_, fun id record hrecord hstate hnot => ?_⟩
  · rw [hpending.pending] at hrecord
    obtain ⟨f, hf, hfind⟩ := List.mem_filterMap.mp hrecord
    obtain ⟨id, rfl, hat, -⟩ := pendingIn_eq_some hfind
    rw [hpending.named id record hf hat]
    exact hat
  · have hmem : record ∈ pending := by
      rw [hpending.pending]
      refine List.mem_filterMap.mpr ⟨.json id, hkeys id record hrecord, ?_⟩
      simp [pendingIn, hrecord, hstate]
    have hid := hpending.named id record (hkeys id record hrecord) hrecord
    exact absurd (hid ▸ List.mem_map_of_mem hmem) hnot

/-! ### Resolving one record -/

variable {old : QuarantineRecord}

theorem originalPresent_calls : (host.originalPresent record).Calls StoreCall.ReadOnly := by
  unfold Host.originalPresent
  split
  · trivial
  · refine (Prog.Calls.ask trivial).bind fun st => ?_
    cases st <;> trivial

/-- The original is only found where it is. -/
theorem originalPresent_returns : (host.originalPresent record).Returns mayFail
    (fun present _ => present = true → host.presentAt w record = true) w := by
  unfold Host.originalPresent Host.presentAt
  cases host.originalKey record with
  | none => exact fun h => h
  | some key =>
    refine Prog.meets_ask_bind (fun _ => trivial) (fun _ e n => nofun) fun r w' happly => ?_
    change ((w.outside key).elim (.error .noent) fun node => .ok (node.dev, node.ino), w) = (r, w')
      at happly
    obtain ⟨rfl, rfl⟩ := Prod.mk.inj happly
    dsimp only
    cases w.outside key with
    | none => exact nofun
    | some node => exact fun h => h

theorem copyVerified_calls : (host.copyVerified record).Calls StoreCall.ReadOnly := by
  unfold Host.copyVerified
  split
  · trivial
  · refine decodeFile_calls.attempt.bind fun r => ?_
    cases r <;> trivial

theorem Host.Interrupted.eraseData (h : host.Interrupted ids L todo w)
    (hfree : ∀ d ∈ L, d.place ≠ .stored id) :
    host.Interrupted ids L todo (w.eraseItem (.data id)) := by
  have hlookup {f : ItemFile} (hf : f ≠ .data id) :
      (w.eraseItem (.data id)).items.lookup f = w.items.lookup f := by
    rw [Disk.eraseItem_lookup, if_neg hf]
  have hjson (id' : QuarantineId) : host.recordAt (w.eraseItem (.data id)) id' = host.recordAt w id' :=
    recordAt_congr (hlookup (by simp))
  refine ⟨⟨⟨fun d hd => ?_, fun id' hid' => ?_⟩, fun id' record hrecord => ?_⟩, fun record hrecord => ?_,
    fun id' record hrecord => ?_⟩
  · have hkept := h.kept d hd
    unfold Host.Kept at hkept ⊢
    split
    · rename_i key hplace
      rw [hplace] at hkept
      exact hkept
    · rename_i id' hplace
      rw [hplace] at hkept
      have hne : id' ≠ id := fun heq => hfree d hd (heq ▸ hplace)
      exact Host.StoredAs.congr hkept (hlookup (by simp)) (hlookup (by simpa using hne))
    · trivial
  · rw [hlookup (by simp)] at hid'
    exact h.drawn id' hid'
  · rw [hjson] at hrecord
    exact h.removed id' record hrecord
  · rw [hjson]
    exact h.listed record hrecord
  · rw [hjson] at hrecord
    exact h.others id' record hrecord

theorem keeps_interrupted_erase (hfree : ∀ d ∈ L, d.place ≠ .stored id) :
    Prog.Keeps storeSystem (host.Interrupted ids L todo) (.removeItem (.data id)) := by
  refine keeps_of_apply (P := fun c => c = .removeItem (.data id)) ?_ ?_ _ rfl
  · intro c n hc
    subst hc
    rfl
  · intro c w hc hw
    subst hc
    change host.Interrupted ids L todo (w.removeItem (.data id)).2
    unfold Disk.removeItem
    split
    · exact hw
    · exact hw.eraseData hfree

theorem removeTmp_scratch {f : ItemFile} (hf : f.IsTmp) : (StoreCall.removeItem f).Scratch :=
  ⟨fun g hg => by rw [show g = f from hg]; exact hf, fun _ hk => hk⟩

/-- Resolving keeps every deposit, whatever it finds: a copy is discarded only while the original is in
place, and then no deposit is in it. -/
theorem resolvePending_meets (h : host.Interrupted ids L (old :: todo) w) (hstate : old.state = .pending) :
    (host.resolvePending old).Meets mayFail (host.Interrupted ids L (old :: todo))
      (fun _ => host.Interrupted ids L (old :: todo))
      (fun outcome w' => outcome.1 ≠ .pending ∧ host.Interrupted ids L (old :: todo) w') w := by
  have hold : host.recordAt w old.id = some old := h.listed old List.mem_cons_self
  unfold Host.resolvePending
  refine Prog.meets_bind.mpr ((originalPresent_calls.meets_and (fun c hc => hc.keeps w) rfl
    originalPresent_returns).mono (fun w' hw' => hw' ▸ h) (fun _ w' hw' => hw' ▸ h)
    fun present w' hpresent => ?_)
  obtain ⟨rfl, hpresent⟩ := hpresent
  cases present with
  | true =>
    -- a deposit in the item would mean that the original is gone
    have hfree : ∀ d ∈ L, d.place ≠ .stored old.id := by
      intro d hd hplace
      have hgone := h.removed old.id old hold hstate ⟨d, hd, hplace⟩
      rw [hpresent rfl] at hgone
      cases hgone
    refine Prog.meets_bind.mpr (Prog.meets_ignore (keeps_interrupted_erase hfree) h (fun _ h => h)
      fun w₁ h₁ => ?_)
    refine Prog.meets_bind.mpr (Prog.meets_ignore (keeps_interrupted _ (removeTmp_scratch trivial)) h₁
      (fun _ h => h) fun w₂ h₂ => ?_)
    exact Prog.meets_bind.mpr (Prog.meets_ignore (keeps_interrupted .syncItems
      (StoreCall.ReadOnly.scratch trivial)) h₂ (fun _ h => h) fun w₃ h₃ => ⟨nofun, h₃⟩)
  | false =>
    refine Prog.meets_bind.mpr ((copyVerified_calls.meets (fun c hc => hc.keeps w') rfl).mono
      (fun w'' hw'' => hw'' ▸ h) (fun _ w'' hw'' => hw'' ▸ h) fun verified w'' hw'' => ?_)
    subst hw''
    cases verified with
    | false => exact ⟨nofun, h⟩
    | true =>
      -- the copy is verified, and only its temporary file is removed
      have hremove : (StoreCall.ignored (.removeItem (.dataTmp old.id))).Calls StoreCall.Scratch :=
        Prog.Calls.ignore (removeTmp_scratch trivial)
      exact Prog.meets_bind.mpr ((hremove.meets keeps_interrupted h).mono (fun _ h => h) (fun _ _ h => h)
        fun _ _ h => ⟨nofun, h⟩)

/-- One interrupted quarantine is resolved, recorded and audited. -/
theorem recoverItem_meets {store : QuarantineStore} {now : Now}
    (h : host.Interrupted ids L (old :: todo) w) (hstate : old.state = .pending)
    (hnodup : old.id ∉ todo.map QuarantineRecord.id) :
    (host.recoverItem now store old).Meets mayFail (host.Recoverable ids L)
      (fun _ => host.Recoverable ids L) (fun _ => host.Interrupted ids L todo) w := by
  unfold Host.recoverItem
  refine Prog.meets_bind.mpr ((resolvePending_meets h hstate).mono (fun _ h => h.toRecoverable)
    (fun _ _ h => h.toRecoverable) fun resolved w₁ hresolved => ?_)
  obtain ⟨outcome, detail⟩ := resolved
  obtain ⟨houtcome, hw₁⟩ := hresolved
  dsimp only
  refine Prog.meets_bind.mpr (Prog.Meets.mono (Host.Interrupted.save_meets hw₁ hnodup ?_
    (.inr fun _ h => h.toRecoverable) fun _ h => h.toRecoverable) (fun _ h => h) (fun _ _ h => h)
    fun _ w₂ hw₂ => ?_)
  · exact ⟨rfl, rfl, rfl, houtcome⟩
  · exact Prog.meets_bind.mpr (((appendEntry_calls _ _).meets keeps_interrupted hw₂).mono
      (fun _ h => h.toRecoverable) (fun _ _ h => h.toRecoverable) fun _ _ h => h)

theorem recoverItems_meets {store : QuarantineStore} {now : Now} (h : host.Interrupted ids L todo w)
    (hstate : ∀ record ∈ todo, record.state = .pending)
    (hnodup : (todo.map QuarantineRecord.id).Nodup) :
    (Prog.forEach (host.recoverItem now) store todo).Meets mayFail (host.Recoverable ids L)
      (fun _ => host.Recoverable ids L) (fun _ => host.AtRest ids L) w := by
  let Inv (_ : QuarantineStore) (rest : List QuarantineRecord) (w' : Disk) : Prop :=
    host.Interrupted ids L rest w' ∧ (∀ record ∈ rest, record.state = .pending) ∧
      (rest.map QuarantineRecord.id).Nodup
  have hloop : (Prog.forEach (host.recoverItem now) store todo).Meets mayFail (host.Recoverable ids L)
      (fun _ => host.Recoverable ids L) (fun store w' => Inv store [] w') w := by
    apply Prog.meets_forEach
    · intro store old rest w' hinv
      obtain ⟨hw', hstate, hnodup⟩ := hinv
      rw [List.map_cons, List.nodup_cons] at hnodup
      refine (recoverItem_meets hw' (hstate old List.mem_cons_self) hnodup.1).mono (fun _ h => h)
        (fun _ _ h => h) fun store w'' hw'' => ?_
      exact ⟨hw'', fun record hrecord => hstate record (List.mem_cons_of_mem _ hrecord), hnodup.2⟩
    · exact ⟨h, hstate, hnodup⟩
  exact hloop.mono (fun _ h => h) (fun _ _ h => h) fun _ _ hinv => hinv.1.atRest

theorem removeStray_calls (f : ItemFile) : (host.removeStray () f).Calls StoreCall.Scratch := by
  cases f with
  | jsonTmp id => exact Prog.Calls.ignore (removeTmp_scratch trivial)
  | dataTmp id =>
    refine ((get_calls id).mono fun c hc => hc.scratch).attempt.bind fun record => ?_
    cases record with
    | ok record => trivial
    | error e => exact Prog.Calls.ignore (removeTmp_scratch trivial)
  | data id | json id => trivial

/-- Opening the store leaves it at rest, or to be opened again. -/
theorem openStore_meets {now : Now} (h : host.Recoverable ids L w) :
    (host.openStore now).Meets mayFail (host.Recoverable ids L) (fun _ => host.Recoverable ids L)
      (fun _ => host.AtRest ids L) w := by
  have hread {c : StoreCall} (hc : c.ReadOnly) := hc.keeps w
  have hsame (w' : Disk) (hw' : w' = w) : host.Recoverable ids L w' := hw' ▸ h
  unfold Host.openStore
  refine Prog.meets_bind.mpr (Prog.meets_keeping (hread (c := .readAudit) trivial) rfl hsame
    (fun _ _ => hsame) nofun fun log w₁ _ hw₁ => ?_)
  subst hw₁
  refine Prog.meets_bind.mpr (Prog.meets_ofExcept.mpr ⟨fun head _ => ?_, fun _ _ => h⟩)
  unfold Host.recover
  refine Prog.meets_bind.mpr (Prog.meets_keeping (hread (c := .listItems) trivial) rfl hsame
    (fun _ _ => hsame) nofun fun names w₂ hnames hw₂ => ?_)
  subst hw₂
  obtain ⟨hnames, -⟩ := Prod.mk.inj hnames
  cases hnames
  refine Prog.meets_bind.mpr ((collectPending_meets w₂.items.keys).mono hsame (fun _ => hsame)
    fun pending w₃ hcollected => ?_)
  obtain ⟨rfl, hcollected⟩ := hcollected
  have hpending : ∀ record ∈ pending, record.state = .pending := by
    intro record hrecord
    rw [hcollected.pending] at hrecord
    obtain ⟨f, -, hf⟩ := List.mem_filterMap.mp hrecord
    obtain ⟨-, -, -, hstate⟩ := pendingIn_eq_some hf
    exact hstate
  refine Prog.meets_bind.mpr ((recoverItems_meets (h.interrupted hcollected) hpending
    (hcollected.nodup (AList.keys_nodup w₃.items))).mono (fun _ h => h) (fun _ _ h => h) fun store w₄ hw₄ => ?_)
  -- what is left is to remove temporary files
  have hcalls (store : QuarantineStore) : (do
      let names ← StoreCall.listItems.orErr (.io "list" (host.root.join (NativePath.ofString "items")))
      Prog.forEach host.removeStray () names
      pure store : StoreProg QuarantineStore).Calls StoreCall.Scratch := by
    refine (Prog.Calls.request (StoreCall.ReadOnly.scratch (c := .listItems) trivial)).bind fun names => ?_
    exact (Prog.Calls.forEach (fun _ f => removeStray_calls f) () names).bind fun _ => trivial
  exact ((hcalls store).meets keeps_atRest hw₄).mono (fun _ h => h.recoverable)
    (fun _ _ h => h.recoverable) fun _ _ h => h

end AbyssalWarden

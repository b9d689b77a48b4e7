import AbyssalWarden.FaultFree
import AbyssalWarden.StoreLifecycle

/-! How quiet programs, a saved record and an audited entry are noted, and what they leave. -/
namespace AbyssalWarden

variable {host : Host} {w w' w₁ : Disk} {id : QuarantineId} {record : QuarantineRecord} {g : Progress}
  {ε α : Type} {data : Bytes}

theorem quiet_meetsWith {p : Prog storeSystem ε α} {returned : α → Disk → Prop}
    (hp : p.Calls StoreCall.Quiet) (h : p.Returns never returned w) :
    p.MeetsWith never host.note (fun g' w' => g' = g ∧ SameView w w')
      (fun _ g' w' => g' = g ∧ SameView w w')
      (fun a g' w' => g' = g ∧ SameView w w' ∧ returned a w') g w :=
  Prog.Calls.meetsWith hp (keeps_sameView w) (fun _ hc _ _ _ _ hl => note_quiet hc hl) (.refl w) h

theorem StoreCall.ReadOnly.quiet {c : StoreCall} (h : c.ReadOnly) : c.Quiet := by
  cases c <;> first | exact h.elim | trivial

/-- A quiet call that has no error. -/
theorem quiet_sure {c : StoreCall} {onError : Errno → RemediationError} (hc : c.Quiet)
    (hsure : ∀ e, (w.apply c).1 ≠ .error e) :
    (c.orErr onError).MeetsWith never host.note (fun g' w' => g' = g ∧ SameView w w')
      (fun _ _ _ => False) (fun a g' w' => g' = g ∧ SameView w w' ∧ w.apply c = (.ok a, w')) g w := by
  have hleads {w' : Disk} (h : storeSystem.Leads c w w') :
      host.note g ⟨c, w, w'⟩ = g ∧ SameView w w' := ⟨note_quiet hc h, sameView_leads hc h⟩
  refine Prog.meetsWith_request (fun n => hleads (.inr (.inl ⟨n, rfl⟩))) (fun h => by cases h) (fun e w' h => ?_)
    fun a w' h => ?_
  · exact hsure e (congrArg Prod.fst h)
  · obtain ⟨hg, hw⟩ := hleads (.inl (congrArg Prod.snd h).symm)
    exact ⟨hg, hw, h⟩

/-- A call that does nothing is not noted. -/
theorem note_stutter {c : StoreCall} (haudit : ∀ line, c ≠ .appendAudit line) :
    host.note g ⟨c, w, w⟩ = g := by
  have hnot (f : ItemFile) : ¬ (⟨c, w, w⟩ : Step storeSystem).took f := fun h => h.1 h.2
  refine note_eq ?_ ?_ fun _ => .same _
  · unfold Host.noteHalfDone
    split
    · exact if_neg fun h => hnot _ h.1
    · exact if_neg (hnot _)
    · rfl
  · unfold Host.noteUnaudited
    split
    · exact if_neg fun h => hnot _ h.1
    · exact absurd ‹_› (haudit _)
    · rfl

/-! ### A saved record -/

/-- A record was put in place. -/
def Progress.saved (g : Progress) (record : QuarantineRecord) : Progress where
  halfDone := g.halfDone.filter (· ≠ record.id)
  unaudited := if record.state = .pending then g.unaudited else record.id :: g.unaudited
  lawful := g.lawful

theorem SameView.written (h : SameView w w') : SameView (w.written id data) (w'.written id data) := by
  refine ⟨fun f hf => ?_, h.audit⟩
  by_cases hjson : f = .json id
  · rw [hjson, written_json, written_json]
  · rw [written_lookup hjson hf, written_lookup hjson hf, h.items f hf]

/-- The rename of a record into its place. -/
theorem note_rename (hdata : host.records.toVecPretty record = .ok data)
    (hfull : w.items.lookup (.jsonTmp record.id) = some data)
    (hlife : Lifecycle (host.stateAt w record.id) (some record.state)) :
    host.note g ⟨.renameItem (.jsonTmp record.id) (.json record.id), w, w.written record.id data⟩ =
      g.saved record := by
  have hafter : host.stateAt (w.written record.id data) record.id = some record.state := by
    rw [Host.stateAt, recordAt_of_written written_json hdata]
    rfl
  have hgone : (w.written record.id data).items.lookup (.jsonTmp record.id) = none := by
    rw [Disk.written, Disk.setItem_lookup, if_neg (by simp), Disk.eraseItem_lookup, if_pos rfl]
  have htook : (⟨.renameItem (.jsonTmp record.id) (.json record.id), w, w.written record.id data⟩ :
      Step storeSystem).took (.jsonTmp record.id) := ⟨by simp [hfull], hgone⟩
  apply note_eq
  · exact if_pos htook
  · change (if _ ∧ _ then record.id :: g.unaudited else g.unaudited) = _
    by_cases hstate : record.state = .pending
    · rw [if_neg (by simp [hafter, hstate]), if_pos hstate]
    · rw [if_pos ⟨htook, by simpa [hafter] using hstate⟩, if_neg hstate]
  -- only this record changes
  · intro id
    by_cases hne : id = record.id
    · rw [hne]
      exact hafter ▸ hlife
    · change Lifecycle _ ((host.recordAt (w.written record.id data) id).map _)
      rw [written_recordAt hne]
      exact .same _

/-- `save` leaves what was there until the record is in its place. -/
theorem save_meetsWith (hlife : Lifecycle (host.stateAt w record.id) (some record.state)) :
    (host.save record).MeetsWith never host.note
      (fun g' w' => g' = g ∧ SameView w w' ∨ ∃ data, host.records.toVecPretty record = .ok data ∧
        g' = g.saved record ∧ SameView (w.written record.id data) w')
      (fun _ g' w' => g' = g ∧ SameView w w' ∧ ¬ record.Writable)
      (fun _ g' w' => ∃ data, host.records.toVecPretty record = .ok data ∧
        g' = g.saved record ∧ SameView (w.written record.id data) w') g w := by
  unfold Host.save
  refine Prog.meetsWith_bind.mpr (Prog.meetsWith_ofExcept.mpr ⟨fun data hdata => ?_, fun e he => ?_⟩)
  · rw [mapError_eq_ok] at hdata
    -- the temporary file is written quietly
    refine Prog.meetsWith_bind.mpr ((quiet_sure (c := .truncateItem (.jsonTmp record.id)) trivial
      fun _ h => by cases h).mono (fun _ _ h => .inl h) (fun _ _ _ h => h.elim) fun _ g₁ w₁ h₁ => ?_)
    obtain ⟨rfl, hw₁, happly⟩ := h₁
    cases happly
    refine Prog.meetsWith_bind.mpr ((quiet_sure (c := .appendItem (.jsonTmp record.id) data) trivial
      fun _ h => by cases h).mono (fun _ _ h => .inl ⟨h.1, hw₁.trans h.2⟩) (fun _ _ _ h => h.elim) fun _ g₂ w₂ h₂ => ?_)
    obtain ⟨rfl, hw₂, happly⟩ := h₂
    have hfull : w₂.items.lookup (.jsonTmp record.id) = some data := by
      cases happly
      exact appendItem_lookup (Disk.createdItem_lookup _ _)
    have hview := hw₁.trans hw₂
    refine Prog.meetsWith_bind.mpr ((quiet_sure (c := .syncItem _) trivial
      fun _ h => by cases h).mono (fun _ _ h => .inl ⟨h.1, hview.trans h.2⟩) (fun _ _ _ h => h.elim)
      fun _ g₃ w₃ h₃ => ?_)
    obtain ⟨rfl, -, happly⟩ := h₃
    cases happly
    -- then it is renamed
    have hrename : w₂.apply (.renameItem (.jsonTmp record.id) (.json record.id)) =
        (.ok (), w₂.written record.id data) := by
      change w₂.renameItem _ _ = _
      rw [Disk.renameItem, hfull]
      rfl
    have hrename' : storeSystem.apply (.renameItem (.jsonTmp record.id) (.json record.id)) w₂ =
        (.ok (), w₂.written record.id data) := hrename
    have hnote := note_rename (g := g₃) hdata hfull ((hview.stateAt record.id).symm ▸ hlife)
    refine Prog.meetsWith_bind.mpr (Prog.meetsWith_request (fun n => ?_) (fun h => by cases h) (fun e w' h => ?_)
      fun _ w' h => ?_)
    · by_cases hn : n = 0
      · have htorn : storeSystem.torn (.renameItem (.jsonTmp record.id) (.json record.id)) n w₂ = w₂ :=
          if_pos hn
        rw [htorn, note_stutter (c := .renameItem _ _) (fun _ h => by cases h)]
        exact .inl ⟨rfl, hview⟩
      · have htorn : storeSystem.torn (.renameItem (.jsonTmp record.id) (.json record.id)) n w₂ =
            w₂.written record.id data := (if_neg hn).trans (congrArg Prod.snd hrename)
        rw [htorn, hnote]
        exact .inr ⟨data, hdata, rfl, hview.written⟩
    · rw [hrename'] at h
      cases h
    · rw [hrename'] at h
      cases h
      rw [hnote]
      refine (quiet_sure (c := .syncItems) trivial fun _ h => by cases h).mono ?_
        (fun _ _ _ h => h.elim) ?_
      · intro g' w' h
        exact .inr ⟨data, hdata, h.1, hview.written.trans h.2⟩
      · intro _ g' w' h
        exact ⟨data, hdata, h.1, hview.written.trans h.2.1⟩
  · refine ⟨rfl, .refl w, fun hwritable => ?_⟩
    obtain ⟨data, hdata⟩ := (host.records.toVecPretty_writable record).mp hwritable
    rw [hdata] at he
    cases he

/-! ### An audited entry -/

/-- Records and stored files are the same, and the log grew. -/
structure Appended (w w' : Disk) : Prop where
  items : ∀ f : ItemFile, ¬ f.IsTmp → w'.items.lookup f = w.items.lookup f
  audit : ∃ data, w'.audit = w.audit ++ data

theorem SameView.appended (h : SameView w w') : Appended w w' where
  items := h.items
  audit := ⟨[], by rw [h.audit, List.append_nil]⟩

theorem Appended.trans (h : Appended w w₁) (h' : Appended w₁ w') : Appended w w' where
  items f hf := (h'.items f hf).trans (h.items f hf)
  audit := by
    obtain ⟨data, hdata⟩ := h.audit
    obtain ⟨data', hdata'⟩ := h'.audit
    exact ⟨data ++ data', by rw [hdata', hdata, List.append_assoc]⟩

theorem Appended.recordAt (h : Appended w w') (id : QuarantineId) :
    host.recordAt w' id = host.recordAt w id :=
  recordAt_congr (h.items _ (json_not_tmp id))

theorem Host.Logged.appended {entry : AuditEntry} (hl : host.Logged w entry)
    (h : ∃ data, w'.audit = w.audit ++ data) : host.Logged w' entry := by
  obtain ⟨before, line, after, haudit, hrest⟩ := hl
  obtain ⟨data, hdata⟩ := h
  refine ⟨before, line, after ++ data, ?_, hrest⟩
  rw [hdata, haudit]
  simp

/-- The audit of an entry was completed. -/
def Progress.audited (g : Progress) (host : Host) (w : Disk) (entry : AuditEntry) : Progress :=
  { g with unaudited := g.unaudited.filter fun id => !host.announced w entry id }

/-- The entry is on disk, under the number and after the line it came to. -/
def Host.LoggedAs (host : Host) (w : Disk) (entry : AuditEntry) : Prop :=
  ∃ seq prev, host.Logged w { entry with seq := seq, prev := prev }

/-- The entry is appended in one line, or the log is as it was. -/
theorem appendEntry_meetsWith {store : QuarantineStore} {entry : AuditEntry} (hend : Host.LineEnd w.audit) :
    (host.appendEntry store entry).MeetsWith never host.note
      (fun g' w' => Appended w w' ∧ (g' = g ∨ g' = g.audited host w entry ∧ host.LoggedAs w' entry))
      (fun _ g' w' => g' = g ∧ w' = w ∧ ¬ (host.CanLog ∧ entry.time.Rfc3339))
      (fun _ g' w' => Appended w w' ∧ g' = g.audited host w entry ∧ Host.LineEnd w'.audit ∧
        host.LoggedAs w' entry) g w := by
  unfold Host.appendEntry
  refine Prog.meetsWith_bind.mpr (Prog.meetsWith_ofExcept.mpr ⟨fun encoded hencoded => ?_, fun e he => ⟨rfl, rfl, ?_⟩⟩)
  · obtain ⟨bytes, head⟩ := encoded
    simp only [mapError_eq_ok, encode, except_bind_eq_ok, Except.ok.injEq, Prod.mk.injEq] at hencoded
    obtain ⟨line, hline, rfl, rfl⟩ := hencoded
    have hread := host.entries.fromSlice_toVec _ line hline
    -- the log with the whole line
    have hlogged {w' : Disk} (haudit : w'.audit = w.audit ++ (line ++ [newline])) :
        host.LoggedAs w' entry := by
      refine ⟨_, _, w.audit, line, [], ?_, hend, host.entries.toVec_line _ line hline, hread⟩
      simp [haudit]
    have hnote (data : Bytes) : host.note g ⟨.appendAudit (line ++ [newline]), w,
        { w with audit := w.audit ++ data }⟩ = if data = line ++ [newline] then g.audited host w entry else g := by
      by_cases hdata : data = line ++ [newline]
      · rw [if_pos hdata, hdata]
        refine note_eq rfl ((if_pos rfl).trans ?_) fun _ => .same _
        rw [List.dropLast_concat, hread]
        rfl
      · rw [if_neg hdata]
        exact note_eq rfl (if_neg fun h => hdata (List.append_cancel_left h)) fun _ => .same _
    have happended (data : Bytes) : Appended w { w with audit := w.audit ++ data } :=
      ⟨fun _ _ => rfl, data, rfl⟩
    refine Prog.meetsWith_bind.mpr (Prog.meetsWith_request (fun n => ?_) (fun h => by cases h)
      (fun _ _ h => by cases h) fun _ w₁ h => ?_)
    · change Appended w { w with audit := w.audit ++ (line ++ [newline]).take n } ∧
        (host.note g ⟨.appendAudit (line ++ [newline]), w,
            { w with audit := w.audit ++ (line ++ [newline]).take n }⟩ = g ∨
          host.note g ⟨.appendAudit (line ++ [newline]), w,
            { w with audit := w.audit ++ (line ++ [newline]).take n }⟩ = g.audited host w entry ∧ _)
      rw [hnote]
      refine ⟨happended _, ?_⟩
      split
      · rename_i hall
        exact .inr ⟨rfl, hlogged (congrArg (w.audit ++ ·) hall)⟩
      · exact .inl rfl
    · obtain rfl : { w with audit := w.audit ++ (line ++ [newline]) } = w₁ := (Prod.mk.inj h).2
      rw [hnote, if_pos rfl]
      have hw₁ := happended (line ++ [newline])
      refine Prog.meetsWith_bind.mpr ((quiet_sure (c := .syncAudit) trivial
        fun _ h => by cases h).mono ?_ (fun _ _ _ h => h.elim) ?_)
      · intro g' w' h
        exact ⟨hw₁.trans h.2.appended, .inr ⟨h.1, hlogged h.2.audit⟩⟩
      · intro _ g' w' h
        refine ⟨hw₁.trans h.2.1.appended, h.1, ?_, hlogged h.2.1.audit⟩
        intro b hb
        have haudit : w'.audit = w.audit ++ (line ++ [newline]) := h.2.1.audit
        rw [haudit, ← List.append_assoc, List.getLast?_concat] at hb
        exact (Option.some.inj hb).symm
  · intro hcan
    obtain ⟨line, hline⟩ := hcan.1 { entry with seq := store.head.seq + 1, prev := store.head.hash } hcan.2
    rw [encode, hline] at he
    cases he

end AbyssalWarden

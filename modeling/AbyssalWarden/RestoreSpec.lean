import AbyssalWarden.RestoreFiles

/-! A restore call removes the stored file once the content is under its name, a deletion removes it at
once; the record follows. Whenever such a call ends the store is at rest. -/
namespace AbyssalWarden

variable {host : Host} {mayFail : StoreCall → Bool} {ids : List QuarantineId} {L : StoreLedger}
  {w w' w₁ : Disk} {id : QuarantineId} {record : QuarantineRecord} {tmp target : FileKey}

/-! ### The item afterwards -/

/-- A record that is not pending may be written over an item that is in use. -/
theorem Host.AtRest.written {data : Bytes} (h : host.AtRest ids L w) (hid : record.id ∈ ids)
    (hdata : host.records.toVecPretty record = .ok data) (hstate : record.state ≠ .pending)
    (hsame : (∀ d ∈ L, d.place ≠ .stored record.id) ∨ ∃ old, host.recordAt w record.id = some old ∧
      record.keyHex = old.keyHex ∧ record.original.sha256 = old.original.sha256) :
    host.AtRest ids L (w.written record.id data) where
  toConsistent := h.toConsistent.written hid hdata hsame
  resolved id' r hr hpending := by
    by_cases hne : id' = record.id
    · rw [hne, recordAt_of_written written_json hdata] at hr
      cases hr
      exact absurd hpending hstate
    · rw [written_recordAt hne] at hr
      exact h.resolved id' r hr hpending

theorem keeps_recordAt {r : Option QuarantineRecord} (c : StoreCall) (hc : c.Scratch) :
    Prog.Keeps storeSystem (fun w => host.recordAt w id = r) c :=
  keeps_of_apply (P := StoreCall.Scratch) (J := fun w => host.recordAt w id = r)
    (fun _ n hc => scratch_cut n hc) (fun _ _ hc hw => (recordAt_congr ((grown_of_scratch hc).items _ (json_not_tmp id))).trans hw) c hc

/-- The record of an item without deposits, or with the same key and hash, is saved. -/
theorem Host.AtRest.save_meets (h : host.AtRest ids L w) (hid : record.id ∈ ids)
    (hstate : record.state ≠ .pending)
    (hsame : (∀ d ∈ L, d.place ≠ .stored record.id) ∨ ∃ old, host.recordAt w record.id = some old ∧
      record.keyHex = old.keyHex ∧ record.original.sha256 = old.original.sha256) :
    (host.save record).Meets mayFail (host.AtRest ids L) (fun _ => host.AtRest ids L)
      (fun _ => host.AtRest ids L) w := by
  let Before (w' : Disk) : Prop :=
    host.AtRest ids L w' ∧ host.recordAt w' record.id = host.recordAt w record.id
  have hsaved : (host.save record).Meets mayFail (fun w' => Before w' ∨ host.AtRest ids L w')
      (fun _ => host.AtRest ids L) (fun _ => host.AtRest ids L) w :=
    AbyssalWarden.save_meets (fun c hc => (keeps_atRest c hc).and (keeps_recordAt c hc)) keeps_atRest
      (fun _ _ hw hdata => hw.1.written hid hdata hstate (hw.2 ▸ hsame)) (.inr fun _ hw => hw.1)
      (fun _ hw => hw) ⟨h, rfl⟩
  exact hsaved.mono (fun _ hw => hw.elim And.left fun hw => hw) (fun _ _ hw => hw) fun _ _ hw => hw

/-- The stored file of an item goes; its deposits are elsewhere. -/
theorem Host.AtRest.eraseData {L' : StoreLedger} (h : host.AtRest ids L w)
    (hmoved : ∀ d ∈ L', d ∈ L ∧ d.place ≠ .stored id ∨ ∃ b ∈ L, b.place = .stored id ∧
      (∀ id', d.place ≠ .stored id') ∧ host.Kept w d) :
    host.AtRest ids L' (w.eraseItem (.data id)) := by
  have hlookup {f : ItemFile} (hf : f ≠ .data id) :
      (w.eraseItem (.data id)).items.lookup f = w.items.lookup f := by
    rw [Disk.eraseItem_lookup, if_neg hf]
  have hjson (id' : QuarantineId) : host.recordAt (w.eraseItem (.data id)) id' = host.recordAt w id' :=
    recordAt_congr (hlookup (by simp))
  refine ⟨⟨fun d hd => ?_, fun id' hid' => ?_⟩, fun id' r hr hstate d hd hplace => ?_⟩
  · have hkept : host.Kept w d := (hmoved d hd).elim (fun hd => h.kept d hd.1) fun ⟨_, _, _, _, hd⟩ => hd
    unfold Host.Kept at hkept ⊢
    split
    · rename_i key hplace
      rw [hplace] at hkept
      exact hkept
    · rename_i id' hplace
      rw [hplace] at hkept
      -- no deposit is left in the file that goes
      have hne : id' ≠ id := by
        intro heq
        rcases hmoved d hd with ⟨-, hnot⟩ | ⟨_, _, _, hnot, _⟩
        · exact hnot (heq ▸ hplace)
        · exact hnot id' hplace
      exact Host.StoredAs.congr hkept (hlookup (by simp)) (hlookup (by simpa using hne))
    · trivial
  · rw [hlookup (by simp)] at hid'
    exact h.drawn id' hid'
  · rw [hjson] at hr
    rcases hmoved d hd with ⟨hd', -⟩ | ⟨_, _, _, hnot, _⟩
    · exact h.resolved id' r hr hstate d hd' hplace
    · exact hnot id' hplace

/-- The deposits of an item are at the target once its stored file is removed. -/
theorem Host.AtRest.giveBack (h : host.AtRest ids L w) (hcontent : ∀ d ∈ L, d.place = .stored id →
      w.contentAt target = some d.content) :
    host.AtRest ids (L.giveBack id target) (w.eraseItem (.data id)) := by
  apply h.eraseData
  intro d hd
  rcases Ledger.mem_move.mp hd with hd | ⟨b, hb, hplace, rfl⟩
  · exact .inl hd
  · exact .inr ⟨b, hb, hplace, fun _ => nofun, hcontent b hb hplace⟩

theorem Host.AtRest.discard (h : host.AtRest ids L w) :
    host.AtRest ids (L.discard id) (w.eraseItem (.data id)) := by
  apply h.eraseData
  intro d hd
  rcases Ledger.mem_move.mp hd with hd | ⟨b, hb, hplace, rfl⟩
  · exact .inl hd
  · exact .inr ⟨b, hb, hplace, fun _ => nofun, trivial⟩

/-! ### The whole call -/

/-- What a restore call asks for, if its item and target can be told. -/
def restoreRequest (host : Host) (w : Disk) (id : QuarantineId) (destDir : Option NativePath) :
    Option StoreRequest :=
  (host.recordAt w id).bind fun record => match Host.restoreTarget id record destDir with
    | .ok (dir, name, _) => some (.restore id (dir.components ++ [name]))
    | .error _ => none

theorem moves_restoreRequest {destDir : Option NativePath} :
    Moves (restoreRequest host w id destDir) L L := by
  unfold restoreRequest
  cases host.recordAt w id with
  | none => rfl
  | some record =>
    change Moves (match Host.restoreTarget id record destDir with
      | .ok (dir, name, _) => some (.restore id (dir.components ++ [name]))
      | .error _ => none) L L
    cases Host.restoreTarget id record destDir with
    | error e => rfl
    | ok parts => exact .notRestored id _ L

theorem createFile_grown (w : Disk) (tmp : FileKey) (node : FileNode) :
    Grown w (w.createFile tmp node).2 := by
  cases hnode : w.outside tmp with
  | some other =>
    rw [Disk.createFile, hnode]
    exact .refl w
  | none =>
    refine ⟨fun k hk => ?_, fun f _ => Disk.apply_items (c := .createFile tmp node) not_false⟩
    exact Disk.apply_contentAt (c := .createFile tmp node) (ne_of_free (.refl w) hnode hk)

theorem createFile_eq_ok {node : FileNode} (h : w.createFile tmp node = (.ok (), w')) :
    w.contentAt tmp = none ∧ w'.contentAt tmp = some node.content ∧ SameButFile tmp w w' := by
  unfold Disk.createFile at h
  cases hnode : w.outside tmp with
  | some other => simp [hnode] at h
  | none =>
    simp only [hnode, Prod.mk.injEq, true_and] at h
    subst h
    refine ⟨by rw [Disk.contentAt, hnode]; rfl, ?_, fun k hk => ?_, fun f => rfl⟩
    · rw [Disk.setFile_contentAt, if_pos rfl]
      rfl
    · rw [Disk.setFile_contentAt, if_neg hk]

/-- Whether a restore call is stopped, fails or returns, the store is at rest, and the item is where it was
or at the target. -/
theorem restoreInner_meets {destDir : Option NativePath} {d : Draws} (h : host.AtRest ids L w) :
    (host.restoreInner id destDir d).Meets StoreCall.mayFail
      (fun w' => ∃ L', Moves (restoreRequest host w id destDir) L L' ∧ host.AtRest ids L' w')
      (fun _ w' => ∃ L', Moves (restoreRequest host w id destDir) L L' ∧ host.AtRest ids L' w')
      (fun _ w' => ∃ L', Moves (restoreRequest host w id destDir) L L' ∧ host.AtRest ids L' w') w := by
  have hgrown (w' : Disk) (hw' : Grown w w') :
      ∃ L', Moves (restoreRequest host w id destDir) L L' ∧ host.AtRest ids L' w' :=
    ⟨L, moves_restoreRequest, h.grown hw'⟩
  have hsame := hgrown w (.refl w)
  unfold Host.restoreInner
  refine Prog.meets_bind.mpr ((get_meets id w).mono (fun w' hw' => hw' ▸ hsame)
    (fun _ w' hw' => hw' ▸ hsame) fun record w' hget => ?_)
  obtain ⟨rfl, hrecord, hrid⟩ := hget
  refine Prog.meets_bind.mpr (Prog.meets_ofExcept.mpr ⟨fun _ _ => ?_, fun _ _ => hsame⟩)
  refine Prog.meets_bind.mpr (Prog.meets_ofExcept.mpr ⟨fun parts hparts => ?_, fun _ _ => hsame⟩)
  obtain ⟨targetDir, name, path⟩ := parts
  refine Prog.meets_bind.mpr (Prog.meets_ofExcept.mpr ⟨fun _ _ => ?_, fun _ _ => hsame⟩)
  have hrequest : restoreRequest host w' id destDir =
      some (.restore id (targetDir.components ++ [name])) := by
    rw [restoreRequest, hrecord, Option.bind_some, hparts]
  cases hkey : Host.recordKey record with
  | none => exact hsame
  | some key =>
    dsimp only
    generalize targetDir.components ++ [name] = target at hrequest ⊢
    generalize targetDir.components ++ [Host.restoreTmp id] = tmp
    -- the content is written beside the target
    refine Prog.meets_bind.mpr (Prog.meets_request (fun n => ?_) (fun _ _ _ => hsame)
      (fun _ _ => hgrown _ (createFile_grown w' tmp _)) fun _ hok => ?_)
    · apply hgrown
      change Grown w' (if n = 0 then w' else (w'.createFile tmp _).2)
      split
      · exact .refl w'
      · exact createFile_grown w' tmp _
    obtain ⟨hnone, hempty, hw₁⟩ := createFile_eq_ok (Prod.ext hok rfl)
    have hcleanup : (StoreCall.removeFile tmp).ignored.Calls (StoreCall.OfFile tmp) :=
      Prog.Calls.ignore removeFile_ofFile
    refine Prog.meets_bind.mpr (((writeRestored_calls.orCleanup hcleanup).meets_and
      (keeps_sameButFile w') hw₁ ((writeRestored_returns hempty).orCleanup _)).mono
      (fun _ hw => hgrown _ (hw.grown hnone)) (fun _ _ hw => hgrown _ (hw.grown hnone))
      fun _ w₂ hwritten => ?_)
    obtain ⟨hw₂, file, plain, hfile, hplain, hcontent, -⟩ := hwritten
    rw [hw₁.items] at hfile
    refine Prog.meets_bind.mpr ((commitRestored_meets (hw₂.grown hnone) hnone hcontent).mono
      hgrown (fun _ => hgrown) fun _ w₃ hcommitted => ?_)
    obtain ⟨hw₃, htarget⟩ := hcommitted
    refine Prog.meets_bind.mpr (Prog.meets_keeping (StoreCall.ReadOnly.keeps (c := .syncDir _) trivial w₃)
      rfl (fun w' hw' => hw' ▸ hgrown w₃ hw₃) (fun _ _ w' hw' => hw' ▸ hgrown w₃ hw₃) (fun _ h => by cases h) ?_)
    intro _ w₄ _ hw₄
    subst hw₄
    -- and the stored file is removed
    have hback : host.AtRest ids (L.giveBack id target) (w₄.eraseItem (.data id)) := by
      apply (h.grown hw₃).giveBack
      intro b hb hplace
      have hkept := h.kept b hb
      rw [Host.Kept, hplace] at hkept
      obtain ⟨record', key', file', hrecord', hkey', hfile', hplain', -⟩ := hkept
      rw [hrecord] at hrecord'
      cases hrecord'
      rw [hkey] at hkey'
      cases hkey'
      rw [hfile] at hfile'
      cases hfile'
      rw [htarget, ← hplain, hplain']
    have hmoves : Moves (restoreRequest host w' id destDir) L (L.giveBack id target) :=
      hrequest ▸ .restored id target L
    have hgone (w' : Disk) (hw' : host.AtRest ids (L.giveBack id target) w') :
        ∃ L', Moves (restoreRequest host _ id destDir) L L' ∧ host.AtRest ids L' w' :=
      ⟨_, hmoves, hw'⟩
    have hremove : w₄.removeItem (.data id) = (.ok (), w₄.eraseItem (.data id)) := by
      rw [Disk.removeItem, hw₃.items _ (data_not_tmp id), hfile]
    refine Prog.meets_bind.mpr (Prog.meets_request (fun n => ?_) (fun _ _ _ => hgrown w₄ hw₃)
      (fun e he => ?_) fun _ hok => ?_)
    · change ∃ L', _ ∧ host.AtRest ids L' (if n = 0 then w₄ else (w₄.removeItem (.data id)).2)
      rw [hremove]
      split
      · exact hgrown w₄ hw₃
      · exact hgone _ hback
    · change (w₄.removeItem (.data id)).1 = .error e at he
      rw [hremove] at he
      cases he
    · change Prog.Meets _ _ _ _ _ (w₄.removeItem (.data id)).2
      rw [hremove]
      have hfree : ∀ b ∈ L.giveBack id target, b.place ≠ .stored id :=
        fun b hb => Ledger.place_ne_of_mem_move hb fun h => by cases h
      subst hrid
      refine Prog.meets_bind.mpr (Prog.Meets.mono (Host.AtRest.save_meets hback ?_ ?_ (.inl hfree)) hgone
        (fun _ => hgone) fun _ => hgone)
      · exact recordAt_drawn h.toConsistent hrecord
      · simp

theorem deleteInner_meets {d : Draws} (h : host.AtRest ids L w) :
    (host.deleteInner id d).Meets StoreCall.mayFail
      (fun w' => ∃ L', Moves (some (.delete id)) L L' ∧ host.AtRest ids L' w')
      (fun _ w' => ∃ L', Moves (some (.delete id)) L L' ∧ host.AtRest ids L' w')
      (fun _ w' => ∃ L', Moves (some (.delete id)) L L' ∧ host.AtRest ids L' w') w := by
  have hkeep (w' : Disk) (hw' : host.AtRest ids L w') :
      ∃ L', Moves (some (.delete id)) L L' ∧ host.AtRest ids L' w' := ⟨L, .notDeleted id L, hw'⟩
  have hgone (w' : Disk) (hw' : host.AtRest ids (L.discard id) w') :
      ∃ L', Moves (some (.delete id)) L L' ∧ host.AtRest ids L' w' := ⟨_, .deleted id L, hw'⟩
  unfold Host.deleteInner
  refine Prog.meets_bind.mpr ((get_meets id w).mono (fun w' hw' => hw' ▸ hkeep w h)
    (fun _ w' hw' => hw' ▸ hkeep w h) fun record w' hget => ?_)
  obtain ⟨rfl, hrecord, hrid⟩ := hget
  have hin : record.id ∈ ids := hrid ▸ recordAt_drawn h.toConsistent hrecord
  refine Prog.meets_bind.mpr (Prog.meets_ofExcept.mpr ⟨fun _ _ => ?_, fun _ _ => hkeep _ h⟩)
  -- the record is saved over the item, which no deposit is in or which is as it was
  have hsave (notes : List String) (w₁ : Disk) (L' : StoreLedger) (hw₁ : host.AtRest ids L' w₁)
      (hsame : (∀ b ∈ L', b.place ≠ .stored record.id) ∨ host.recordAt w₁ record.id = some record) :
      (StoreCall.syncItems.orErr (.io "sync" host.root) >>= fun _ =>
        host.save { record with
          state := .deleted
          updatedAt := d.later.1
          notes := record.notes ++ notes }).Meets StoreCall.mayFail
        (host.AtRest ids L') (fun _ => host.AtRest ids L') (fun _ => host.AtRest ids L') w₁ := by
    refine Prog.meets_bind.mpr (Prog.meets_keeping (StoreCall.ReadOnly.keeps (c := .syncItems) trivial w₁)
      rfl (fun w' hw' => hw' ▸ hw₁) (fun _ _ w' hw' => hw' ▸ hw₁) nofun fun _ w₂ _ hw₂ => ?_)
    subst hw₂
    apply Host.AtRest.save_meets hw₁
    · exact hin
    · simp
    · exact hsame.imp (fun hfree => hfree) fun hrecord => ⟨record, hrecord, rfl, rfl⟩
  have herased : host.AtRest ids (L.discard id) (w'.eraseItem (.data id)) := h.discard
  refine Prog.meets_ask_bind (fun n => ?_) (fun _ e n => ?_) fun r w₁ hremoved => ?_
  · change ∃ L', _ ∧ host.AtRest ids L' (if n = 0 then w' else (w'.removeItem (.data id)).2)
    split
    · exact hkeep _ h
    · unfold Disk.removeItem
      split
      · exact hkeep _ h
      · exact hgone _ herased
  · have hnotes : host.recordAt w' record.id = some record := hrid ▸ hrecord
    cases e with
    | noent =>
      exact (hsave _ w' L h (.inr hnotes)).mono hkeep (fun _ => hkeep) fun _ => hkeep
    | _ => exact hkeep _ h
  · have hnotes : host.recordAt w' record.id = some record := hrid ▸ hrecord
    change w'.removeItem (.data id) = (r, w₁) at hremoved
    unfold Disk.removeItem at hremoved
    cases hfile : w'.items.lookup (.data id) with
    | none =>
      rw [hfile] at hremoved
      cases hremoved
      exact (hsave _ w' L h (.inr hnotes)).mono hkeep (fun _ => hkeep) fun _ => hkeep
    | some file =>
      rw [hfile] at hremoved
      cases hremoved
      have hfree : ∀ b ∈ L.discard id, b.place ≠ .stored record.id :=
        fun b hb => hrid ▸ Ledger.place_ne_of_mem_move hb nofun
      exact (hsave _ _ _ herased (.inl hfree)).mono hgone (fun _ => hgone) fun _ => hgone

/-- The result of a call is audited without a change to the items. -/
theorem audited_meets {α : Type} {store : QuarantineStore} {inner : StoreProg α} {now : Now}
    {action : String} {detail : α → Option String} {r : Option StoreRequest}
    (h : inner.Meets StoreCall.mayFail (fun w' => ∃ L', Moves r L L' ∧ host.AtRest ids L' w')
      (fun _ w' => ∃ L', Moves r L L' ∧ host.AtRest ids L' w')
      (fun _ w' => ∃ L', Moves r L L' ∧ host.AtRest ids L' w') w) :
    (host.audited store inner now action id detail).Meets StoreCall.mayFail
      (fun w' => ∃ L', Moves r L L' ∧ host.AtRest ids L' w') (fun _ _ => False)
      (fun _ w' => ∃ L', Moves r L L' ∧ host.AtRest ids L' w') w := by
  have hlog (entry : AuditEntry) (w₁ : Disk) (hw₁ : ∃ L', Moves r L L' ∧ host.AtRest ids L' w₁) :
      (host.appendEntry store entry).Meets StoreCall.mayFail
        (fun w' => ∃ L', Moves r L L' ∧ host.AtRest ids L' w')
        (fun _ w' => ∃ L', Moves r L L' ∧ host.AtRest ids L' w')
        (fun _ w' => ∃ L', Moves r L L' ∧ host.AtRest ids L' w') w₁ := by
    obtain ⟨L', hL', hw₁⟩ := hw₁
    exact ((appendEntry_calls store entry).meets keeps_atRest hw₁).mono (fun _ hw => ⟨L', hL', hw⟩)
      (fun _ _ hw => ⟨L', hL', hw⟩) fun _ _ hw => ⟨L', hL', hw⟩
  unfold Host.audited
  refine Prog.meets_bind.mpr (Prog.meets_attempt.mpr (h.mono (fun _ hw => hw) ?_ ?_))
  · intro e w₁ hw₁
    exact Prog.meets_bind.mpr (Prog.meets_attempt.mpr ((hlog _ w₁ hw₁).mono (fun _ hw => hw)
      (fun _ _ hw => hw) fun _ _ hw => hw))
  · intro a w₁ hw₁
    exact Prog.meets_bind.mpr (Prog.meets_attempt.mpr ((hlog _ w₁ hw₁).mono (fun _ hw => hw)
      (fun _ _ hw => hw) fun _ _ hw => hw))

end AbyssalWarden

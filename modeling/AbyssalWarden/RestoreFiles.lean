import AbyssalWarden.QuarantineSpec

/-! What a restore call does outside the store: it writes the decoded content beside its target and puts
it under a free name. -/
namespace AbyssalWarden

variable {host : Host} {mayFail : StoreCall → Bool} {ids : List QuarantineId} {L : StoreLedger}
  {w w' w₁ : Disk} {id : QuarantineId} {record : QuarantineRecord} {key : Bytes} {tmp target : FileKey}
  {content : Bytes}

/-! ### Writing one file outside the store -/

theorem Grown.sameButFile (h : Grown w w₁) (hnone : w.contentAt tmp = none)
    (hw : SameButFile tmp w₁ w') : Grown w w' where
  content k hk := by
    have hne : k ≠ tmp := by
      intro heq
      exact hk (heq ▸ hnone)
    rw [hw.content k hne, h.content k hk]
  items f hf := (hw.items f).trans (h.items f hf)

theorem SameButFile.grown (h : SameButFile tmp w w') (hnone : w.contentAt tmp = none) : Grown w w' :=
  (Grown.refl w).sameButFile hnone h

theorem mapFile_contentAt {f : FileNode → FileNode} (hf : ∀ node, (f node).content = node.content)
    (k k' : FileKey) : (w.mapFile k f).contentAt k' = w.contentAt k' := by
  rw [Disk.mapFile, Disk.setFile_contentAt]
  split
  · rename_i heq
    have hcomp : FileNode.content ∘ f = FileNode.content := funext hf
    rw [heq, Disk.contentAt, Option.map_map, hcomp]
  · rfl

theorem appendFile_contentAt (w : Disk) (k : FileKey) (data : Bytes) :
    (w.appendFile k data).contentAt k = (w.contentAt k).map (· ++ data) := by
  rw [Disk.appendFile, Disk.mapFile, Disk.setFile_contentAt, if_pos rfl, Disk.contentAt]
  cases w.outside k <;> rfl

theorem StoreCall.ReadOnly.ofFile {c : StoreCall} (h : c.ReadOnly) : c.OfFile target := by
  constructor
  · intro f hf
    cases c <;> first | exact h.elim | exact hf.elim
  · intro k hk
    exact (h.scratch.files k hk).elim

theorem decodePiece_calls {path : NativePath} (acc : Bytes × ℕ) (piece : Bytes) :
    (Host.decodePiece key (some target) path acc piece).Calls (StoreCall.OfFile target) := by
  unfold Host.decodePiece
  refine Prog.Calls.bind ?_ fun _ => trivial
  exact Prog.Calls.request ⟨fun _ hf => hf.elim, fun _ hk => hk⟩

theorem decodeTo_calls : (host.decodeTo id key (some target)).Calls (StoreCall.OfFile target) := by
  refine (Prog.Calls.request (StoreCall.ReadOnly.ofFile (c := .readItem _) trivial)).bind fun _ => ?_
  refine (Prog.Calls.ofExcept _).bind fun _ => (Prog.Calls.ofExcept _).bind fun _ => ?_
  exact (Prog.Calls.forEach decodePiece_calls _ _).bind fun _ => trivial

/-- The loop of `decode_file` over the pieces of some bytes, with output. -/
theorem decodePieces_written {path : NativePath} (pieces : List Bytes)
    (hempty : w.contentAt target = some []) :
    (Prog.forEach (Host.decodePiece key (some target) path) ([], 0) pieces).Returns mayFail
      (fun acc w' => w'.contentAt target = some acc.1 ∧
        acc = (xorInPlace pieces.flatten key 0, pieces.flatten.length)) w := by
  let Inv (acc : Bytes × ℕ) (rest : List Bytes) (w' : Disk) : Prop :=
    w'.contentAt target = some acc.1 ∧ acc.2 = acc.1.length ∧
      acc.1 ++ xorInPlace rest.flatten key acc.2 = xorInPlace pieces.flatten key 0
  have h : (Prog.forEach (Host.decodePiece key (some target) path) ([], 0) pieces).Returns mayFail
      (fun acc w' => Inv acc [] w') w := by
    apply Prog.returns_forEach
    · intro acc piece rest w' hinv
      obtain ⟨hcontent, hlen, hacc⟩ := hinv
      unfold Host.decodePiece
      refine Prog.Returns.bind (Prog.returns_request fun _ _ happly => ?_)
      cases happly
      refine ⟨?_, ?_, ?_⟩
      · rw [appendFile_contentAt, hcontent]
        rfl
      · simp [hlen, xorInPlace_length]
      · rw [List.flatten_cons, xorInPlace_append] at hacc
        rw [← hacc, List.append_assoc]
    · exact ⟨hempty, rfl, rfl⟩
  refine h.mono fun acc w' hinv => ?_
  obtain ⟨hcontent, hlen, hacc⟩ := hinv
  have hnil : xorInPlace ([] : List Bytes).flatten key acc.2 = [] := rfl
  rw [hnil, List.append_nil] at hacc
  refine ⟨hcontent, Prod.ext hacc ?_⟩
  rw [hlen, hacc, xorInPlace_length]

/-- Decoding into an empty file writes the decoded content. -/
theorem decodeFile_written {f : ItemFile} (hempty : w.contentAt target = some []) :
    (host.decodeFile id f key (some target)).Returns mayFail (fun r w' => ∃ file plain,
      w.items.lookup f = some file ∧ decoded key file = some plain ∧ w'.contentAt target = some plain ∧
        r = (host.sha256 plain, plain.length)) w := by
  unfold Host.decodeFile
  refine Prog.Returns.bind (Prog.returns_request fun file _ hread => ?_)
  obtain ⟨hlookup, rfl⟩ := readItem_eq_ok hread
  refine Prog.Returns.bind (Prog.returns_ofExcept fun _ _ => ?_)
  refine Prog.Returns.bind (Prog.returns_ofExcept fun _ hmagic => ?_)
  rw [refuseIf_eq_ok, not_not] at hmagic
  refine Prog.Returns.bind ((decodePieces_written _ hempty).mono fun acc w' hacc => ?_)
  obtain ⟨hcontent, rfl⟩ := hacc
  rw [host.flatten_pieces] at hcontent ⊢
  refine ⟨file, _, hlookup, if_pos hmagic, hcontent, ?_⟩
  simp only [xorInPlace_length]

theorem writeRestored_calls {path : NativePath} :
    (host.writeRestored id record key target path).Calls (StoreCall.OfFile target) := by
  unfold Host.writeRestored
  refine decodeTo_calls.bind fun _ => (Prog.Calls.ofExcept _).bind fun _ => ?_
  refine (Prog.Calls.request ⟨fun _ hf => hf.elim, fun _ hk => hk⟩).bind fun _ => ?_
  have hsync : ((StoreCall.syncFile target).orErr (.io "finalise" path)).Calls
      (StoreCall.OfFile target) :=
    Prog.Calls.request (StoreCall.ReadOnly.ofFile trivial)
  split
  · exact (Prog.Calls.request ⟨fun _ hf => hf.elim, fun _ hk => hk⟩).bind fun _ => hsync
  · exact hsync

/-- The temporary file ends up with the decoded content. -/
theorem writeRestored_returns {path : NativePath} (hempty : w.contentAt target = some []) :
    (host.writeRestored id record key target path).Returns mayFail (fun _ w' => ∃ file plain,
      w.items.lookup (.data id) = some file ∧ decoded key file = some plain ∧
        w'.contentAt target = some plain ∧ host.sha256 plain = record.original.sha256) w := by
  unfold Host.writeRestored
  refine Prog.Returns.bind ((decodeFile_written hempty).mono fun sha w₁ hwritten => ?_)
  obtain ⟨file, plain, hfile, hplain, hcontent, rfl⟩ := hwritten
  refine Prog.Returns.bind (Prog.returns_ofExcept fun _ hsha => ?_)
  have hsame : host.sha256 plain = record.original.sha256 := not_not.mp (refuseIf_eq_ok.mp hsha)
  refine Prog.Returns.bind (Prog.returns_request fun _ _ hchmod => ?_)
  cases hchmod
  -- the owner and the mode are set, the content stays
  have hsync {w₂ : Disk} (hw₂ : w₂.contentAt target = some plain) :
      ((StoreCall.syncFile target).orErr (.io "finalise" path)).Returns mayFail (fun _ w' =>
        ∃ file plain, w.items.lookup (.data id) = some file ∧ decoded key file = some plain ∧
          w'.contentAt target = some plain ∧ host.sha256 plain = record.original.sha256) w₂ := by
    refine Prog.returns_request fun _ _ happly => ?_
    cases happly
    exact ⟨file, plain, hfile, hplain, hw₂, hsame⟩
  split
  · refine Prog.Returns.bind (Prog.returns_request fun _ _ hchown => ?_)
    cases hchown
    apply hsync
    rw [mapFile_contentAt (by simp), mapFile_contentAt (by simp), hcontent]
  · apply hsync
    rw [mapFile_contentAt (by simp), hcontent]

/-! ### Giving it its name -/

theorem ne_of_free {k : FileKey} (h : Grown w w₁) (hfree : w₁.outside target = none)
    (hk : w.contentAt k ≠ none) : k ≠ target := by
  intro heq
  have hsame := h.content k hk
  rw [heq, Disk.contentAt, hfree] at hsame
  exact hk (heq ▸ hsame.symm)

/-- A rename to a free name, of a file that was not there before. -/
theorem renameNew_grown (h : Grown w w₁) (hnone : w.contentAt tmp = none) :
    Grown w (w₁.renameNew tmp target).2 := by
  constructor
  · intro k hk
    by_cases hfree : w₁.outside target = none
    · have htmp : k ≠ tmp := by
        intro heq
        exact hk (heq ▸ hnone)
      have hnot : ¬ (StoreCall.renameNew tmp target).WritesFile k :=
        not_or.mpr ⟨htmp, ne_of_free h hfree hk⟩
      exact (Disk.apply_contentAt hnot).trans (h.content k hk)
    · have hsame : (w₁.renameNew tmp target).2 = w₁ := by
        obtain ⟨other, hother⟩ := Option.ne_none_iff_exists'.mp hfree
        unfold Disk.renameNew
        cases hnode : w₁.outside tmp <;> simp [hother]
      rw [hsame]
      exact h.content k hk
  · intro f hf
    exact (Disk.apply_items (c := .renameNew tmp target) not_false).trans (h.items f hf)

theorem renameNew_eq_ok (h : w₁.renameNew tmp target = (.ok (), w')) :
    w₁.outside target = none ∧ w'.contentAt target = w₁.contentAt tmp := by
  unfold Disk.renameNew at h
  cases hnode : w₁.outside tmp with
  | none => simp [hnode] at h
  | some node =>
    cases hfree : w₁.outside target with
    | some other => simp [hnode, hfree] at h
    | none =>
      simp only [hnode, hfree, Prod.mk.injEq, true_and] at h
      refine ⟨rfl, ?_⟩
      rw [← h, Disk.setFile_contentAt, if_pos rfl, Disk.contentAt, hnode]

theorem renameNew_eq_error {e : Errno} (h : w₁.renameNew tmp target = (.error e, w')) : w' = w₁ := by
  unfold Disk.renameNew at h
  cases hnode : w₁.outside tmp <;> cases hfree : w₁.outside target <;>
    simp only [hnode, hfree, Prod.mk.injEq] at h <;> first | exact h.2.symm | exact nomatch h.1

theorem linkFile_eq_ok (h : w₁.linkFile tmp target = (.ok (), w')) :
    w₁.outside target = none ∧ w'.contentAt target = w₁.contentAt tmp := by
  unfold Disk.linkFile at h
  cases hnode : w₁.outside tmp with
  | none => simp [hnode] at h
  | some node =>
    cases hfree : w₁.outside target with
    | some other => simp [hnode, hfree] at h
    | none =>
      simp only [hnode, hfree, Prod.mk.injEq, true_and] at h
      refine ⟨rfl, ?_⟩
      rw [← h, Disk.relink_contentAt, Disk.setFile_contentAt, if_pos rfl, Disk.contentAt, hnode]

/-- The call only adds a file under a free name. -/
theorem linkFile_grown (h : Grown w w₁) : Grown w (w₁.linkFile tmp target).2 := by
  constructor
  · intro k hk
    by_cases hfree : w₁.outside target = none
    · have htarget := ne_of_free h hfree hk
      exact (Disk.apply_contentAt (c := .linkFile tmp target) htarget).trans (h.content k hk)
    · have hsame : (w₁.linkFile tmp target).2 = w₁ := by
        obtain ⟨other, hother⟩ := Option.ne_none_iff_exists'.mp hfree
        unfold Disk.linkFile
        cases hnode : w₁.outside tmp <;> simp [hother]
      rw [hsame]
      exact h.content k hk
  · intro f hf
    exact (Disk.apply_items (c := .linkFile tmp target) not_false).trans (h.items f hf)

theorem removeFile_ofFile : StoreCall.OfFile tmp (.removeFile tmp) :=
  ⟨fun _ hf => hf.elim, fun _ hk => hk⟩

/-- Removing the temporary file and returning an error loses nothing. -/
theorem cleanup_meets {post : Unit → Disk → Prop} {e : RemediationError} (h : Grown w w₁)
    (hnone : w.contentAt tmp = none) :
    ((StoreCall.removeFile tmp).ignored >>= fun _ => Prog.throw e : StoreProg Unit).Meets mayFail
      (Grown w) (fun _ => Grown w) post w₁ := by
  have hcalls : (StoreCall.removeFile tmp).ignored.Calls (StoreCall.OfFile tmp) :=
    Prog.Calls.ignore removeFile_ofFile
  have hgrown (w' : Disk) (hw' : SameButFile tmp w₁ w') : Grown w w' := h.sameButFile hnone hw'
  exact Prog.meets_bind.mpr ((hcalls.meets (keeps_sameButFile w₁) (.refl tmp w₁)).mono hgrown
    (fun _ => hgrown) fun _ => hgrown)

/-- The fallback: a link, and then the temporary name goes. -/
theorem linkRestored_meets {path : NativePath} (h : Grown w w₁) (hnone : w.contentAt tmp = none)
    (hcontent : w₁.contentAt tmp = some content) :
    ((do
      let linked ← (StoreCall.linkFile tmp target).result
      (StoreCall.removeFile tmp).ignored
      match linked with
      | .ok _ => pure ()
      | .error .exist => Prog.throw (.targetExists path)
      | .error e => Prog.throw (.io "restore" path e)) : StoreProg Unit).Meets mayFail
        (Grown w) (fun _ => Grown w) (fun _ w' => Grown w w' ∧ w'.contentAt target = some content) w₁ := by
  refine Prog.meets_ask_bind (fun n => ?_) (fun _ e n => ?_) fun r w₂ hlinked => ?_
  · change Grown w (if n = 0 then w₁ else (w₁.linkFile tmp target).2)
    split
    · exact h
    · exact linkFile_grown h
  · cases e <;> exact cleanup_meets h hnone
  · change w₁.linkFile tmp target = (r, w₂) at hlinked
    have hgrown : Grown w w₂ := by
      have hall : Grown w (w₁.linkFile tmp target).2 := linkFile_grown h
      rwa [hlinked] at hall
    cases r with
    -- the link was refused: the temporary file is removed, and nothing else changed
    | error e => cases e <;> exact cleanup_meets hgrown hnone
    | ok _ =>
      obtain ⟨hfree, hmoved⟩ := linkFile_eq_ok hlinked
      have hne : target ≠ tmp := by
        intro heq
        rw [← heq, Disk.contentAt, hfree] at hcontent
        cases hcontent
      have hcalls : (StoreCall.removeFile tmp).ignored.Calls (StoreCall.OfFile tmp) :=
        Prog.Calls.ignore removeFile_ofFile
      refine Prog.meets_bind.mpr ((hcalls.meets (keeps_sameButFile w₂) (.refl tmp w₂)).mono
        (fun w' hw' => hgrown.sameButFile hnone hw') (fun _ w' hw' => hgrown.sameButFile hnone hw')
        fun _ w' hw' => ?_)
      refine ⟨hgrown.sameButFile hnone hw', ?_⟩
      rw [hw'.content target hne, hmoved, hcontent]

/-- Wherever it stops nothing is lost, and when it returns the content is under its name. -/
theorem commitRestored_meets {path : NativePath} (h : Grown w w₁) (hnone : w.contentAt tmp = none)
    (hcontent : w₁.contentAt tmp = some content) :
    (Host.commitRestored tmp target path).Meets mayFail (Grown w) (fun _ => Grown w)
      (fun _ w' => Grown w w' ∧ w'.contentAt target = some content) w₁ := by
  have hcleanup (e : RemediationError) :
      ((StoreCall.removeFile tmp).ignored >>= fun _ => Prog.throw e : StoreProg Unit).Meets mayFail
        (Grown w) (fun _ => Grown w) (fun _ w' => Grown w w' ∧ w'.contentAt target = some content) w₁ :=
    cleanup_meets h hnone
  unfold Host.commitRestored
  refine Prog.meets_ask_bind (fun n => ?_) (fun _ e _ => ?_) fun r w₂ hrenamed => ?_
  · change Grown w (if n = 0 then w₁ else (w₁.renameNew tmp target).2)
    split
    · exact h
    · exact renameNew_grown h hnone
  -- where the file system cannot rename without replacing, the name is linked
  · cases e with
    | exist => exact hcleanup _
    | inval => exact linkRestored_meets h hnone hcontent
    | _ => exact hcleanup _
  · change w₁.renameNew tmp target = (r, w₂) at hrenamed
    cases r with
    | ok _ =>
      obtain ⟨-, hmoved⟩ := renameNew_eq_ok hrenamed
      have hgrown : Grown w (w₁.renameNew tmp target).2 := renameNew_grown h hnone
      rw [hrenamed] at hgrown
      exact ⟨hgrown, hmoved.trans hcontent⟩
    | error e =>
      have hsame : w₂ = w₁ := renameNew_eq_error hrenamed
      subst hsame
      cases e with
      | exist => exact hcleanup _
      | inval => exact linkRestored_meets h hnone hcontent
      | _ => exact hcleanup _

end AbyssalWarden

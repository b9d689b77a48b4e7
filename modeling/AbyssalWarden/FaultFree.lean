import AbyssalWarden.RestoreSpec
import AbyssalWarden.SingleFault

/-! The parts of the store's calls succeed when nothing disturbs them. -/
namespace AbyssalWarden

variable {host : Host} {record : QuarantineRecord} {w w' : Disk} {id : QuarantineId}

/-! ### The copy -/

theorem total_refuse {α : Type} {bad : Prop} [Decidable bad] {e : RemediationError} {f : Unit → StoreProg α}
    {post : α → Disk → Prop} (hbad : ¬ bad) (h : (f ()).Total post w) : ((refuse bad e).bind f).Total post w :=
  Prog.total_ofExcept_bind (if_neg hbad) h

/-- The pieces of the content are written if they are not too many. -/
theorem encodePieces_total {f : ItemFile} {k : Bytes} {max : ℕ} {path : NativePath} (pieces : List Bytes)
    (hmax : pieces.flatten.length ≤ max) :
    (Prog.forEach (host.encodePiece f k max path) ([], 0) pieces).Total (fun _ _ => True) w := by
  refine (Prog.meets_forEach (I := fun acc rest _ => acc.2 + rest.flatten.length ≤ max) ?_ ?_).mono
    (fun _ h => h) (fun _ _ h => h) fun _ _ _ => trivial
  · intro acc piece rest w' hinv
    rw [List.flatten_cons, List.length_append] at hinv
    refine total_refuse (by omega) (Prog.total_request_bind rfl ?_)
    change acc.2 + piece.length + rest.flatten.length ≤ max
    omega
  · simpa using hmax

theorem decodeFile_total {f : ItemFile} {k content : Bytes} (hf : w.items.lookup f = some (encoded k content)) :
    (host.decodeFile id f k none).Total (fun r _ => r = (host.sha256 content, content.length)) w := by
  have hread : w.apply (.readItem f) = (.ok (encoded k content), w) := by
    rw [Disk.apply, hf]
    rfl
  have hmagic : (encoded k content).take dataMagic.length = dataMagic := by simp [encoded]
  refine Prog.total_request_bind hread (total_refuse (by simp [encoded]) (total_refuse (by simp [hmagic]) ?_))
  refine Prog.meets_bind.mpr ((decodePieces_meets _).mono (fun _ (_ : True) => trivial) (fun _ _ h => h) fun acc w' hacc => ?_)
  obtain ⟨rfl, rfl⟩ := hacc
  rw [host.flatten_pieces]
  change (_, _) = _
  simp [encoded, xorInPlace_xorInPlace, xorInPlace_length]

theorem writeEncoded_total {content : Bytes} (host : Host) (k : Bytes) {max : ℕ} (path : NativePath)
    (hnew : w.items.lookup (.dataTmp id) = none) (hmax : content.length ≤ max) :
    (host.writeEncoded id content k max path).Total (fun _ _ => True) w := by
  have hcreate : w.apply (.createItem (.dataTmp id)) = (.ok (), w.setItem (.dataTmp id) []) := by
    rw [Disk.apply, Disk.createItem, hnew]
  have hmagic : ((w.setItem (.dataTmp id) []).appendItem (.dataTmp id) dataMagic).items.lookup
      (.dataTmp id) = some dataMagic := by
    rw [appendItem_lookup (Disk.createdItem_lookup _ _), List.nil_append]
  have hlength : (host.pieces content).flatten.length ≤ max := by rwa [host.flatten_pieces]
  refine Prog.total_request_bind hcreate (Prog.total_request_bind rfl ?_)
  refine Prog.meets_bind.mpr (((encodePieces_total _ hlength).and (encodePieces_returns _ hmagic)).mono
    (fun _ _ => trivial) (fun _ _ h => h.1) fun acc w' hacc => ?_)
  obtain ⟨-, hfile, rfl⟩ := hacc
  refine Prog.total_request_bind rfl (Prog.meets_bind.mpr ((decodeFile_total hfile).mono (fun _ h => h)
    (fun _ _ h => h) fun checked w'' hchecked => ?_))
  rw [hchecked]
  exact total_refuse (by simp) trivial

/-! ### The restored file -/

/-- Decoding into an empty file finds the content. -/
theorem decodeTo_total {k file content : Bytes} {target : FileKey} (hempty : w.contentAt target = some [])
    (hfile : w.items.lookup (.data id) = some file) (hdecoded : decoded k file = some content) :
    (host.decodeTo id k (some target)).Total (fun r _ => r.1 = host.sha256 content) w := by
  have hread : w.apply (.readItem (.data id)) = (.ok file, w) := by
    rw [Disk.apply, hfile]
    rfl
  -- the file can be decoded, so it starts as an encoded file does
  have hmagic : file.take dataMagic.length = dataMagic := by
    by_contra hne
    rw [decoded, if_neg hne] at hdecoded
    cases hdecoded
  have hlength : ¬ file.length < dataMagic.length := by
    have hlen := congrArg List.length hmagic
    rw [List.length_take] at hlen
    omega
  have hcontent : xorInPlace (file.drop dataMagic.length) k 0 = content := by
    rw [decoded, if_pos hmagic] at hdecoded
    exact Option.some.inj hdecoded
  refine Prog.total_request_bind hread (total_refuse hlength (total_refuse (not_not.mpr hmagic) ?_))
  have hloop {path : NativePath} (pieces : List Bytes) (acc : Bytes × ℕ) :
      (Prog.forEach (Host.decodePiece k (some target) path) acc pieces).Total (fun _ _ => True) w :=
    Prog.meets_forEach (I := fun _ _ _ => True)
      (fun _ _ _ _ _ => Prog.total_request_bind (S := storeSystem) (c := StoreCall.appendFile _ _) rfl trivial) trivial
  refine Prog.meets_bind.mpr (((hloop _ _).and (decodePieces_written _ hempty)).mono (fun _ _ => trivial)
    (fun _ _ h => h.1) fun acc w' hacc => ?_)
  obtain ⟨-, -, rfl⟩ := hacc
  change host.sha256 (xorInPlace (host.pieces _).flatten k 0) = _
  rw [host.flatten_pieces, hcontent]

theorem writeRestored_total {k file content : Bytes} {target : FileKey} {path : NativePath}
    (hempty : w.contentAt target = some []) (hfile : w.items.lookup (.data id) = some file)
    (hdecoded : decoded k file = some content) (hsha : record.original.sha256 = host.sha256 content) :
    (host.writeRestored id record k target path).Total (fun _ w' => w'.contentAt target = some content) w := by
  have hwritten : (host.writeRestored id record k target path).Total (fun _ _ => True) w := by
    unfold Host.writeRestored
    refine Prog.meets_bind.mpr ((decodeTo_total hempty hfile hdecoded).mono (fun _ h => h) (fun _ _ h => h)
      fun r w₁ hr => total_refuse (by simp [hr, hsha]) (Prog.total_request_bind rfl ?_))
    have hsync (w₂ : Disk) : ((StoreCall.syncFile target).orErr (.io "finalise" path)).Total (fun _ _ => True) w₂ :=
      Prog.meets_request (fun _ => trivial) nofun nofun fun _ _ => trivial
    split
    · exact Prog.total_request_bind rfl (hsync _)
    · exact hsync _
  refine (hwritten.and (writeRestored_returns hempty)).mono (fun _ _ => trivial) (fun _ _ h => h.1) fun _ w' h => ?_
  obtain ⟨-, file', plain, hfile', hplain, hcontent, -⟩ := h
  obtain rfl : file = file' := Option.some.inj (hfile.symm.trans hfile')
  rw [hcontent, ← hplain, hdecoded]

/-! ### The journal -/

theorem save_total (hwritten : ∃ data, host.records.toVecPretty record = .ok data) :
    (host.save record).Total (fun _ _ => True) w := by
  obtain ⟨data, hdata⟩ := hwritten
  have hrename : ((w.setItem (.jsonTmp record.id) []).appendItem (.jsonTmp record.id) data).apply
      (.renameItem (.jsonTmp record.id) (.json record.id)) =
        (.ok (), ((w.setItem (.jsonTmp record.id) []).appendItem (.jsonTmp record.id) data).written record.id data) := by
    rw [Disk.apply, Disk.renameItem, appendItem_lookup (Disk.createdItem_lookup _ _)]
    rfl
  unfold Host.save
  rw [hdata]
  refine Prog.total_request_bind rfl (Prog.total_request_bind rfl (Prog.total_request_bind rfl ?_))
  exact Prog.total_request_bind hrename (Prog.meets_request (fun _ => trivial) (fun h => by cases h)
    (fun _ h => by cases h) fun _ _ => trivial)

/-! ### The audit log -/

/-- The call writes the audit log. -/
def StoreCall.Audits : StoreCall → Prop
  | .appendAudit _ | .syncAudit => True
  | _ => False

theorem keeps_files (w : Disk) (c : StoreCall) (hc : c.Audits) :
    Prog.Keeps storeSystem (fun w' => w'.outside = w.outside ∧ w'.items = w.items) c := by
  refine keeps_of_apply (P := StoreCall.Audits) ?_ ?_ c hc
  · intro c n hc
    cases c with
    | appendAudit data | syncAudit => trivial
    | _ => exact hc.elim
  · intro c w' hc hw'
    cases c with
    | appendAudit data | syncAudit => exact hw'
    | _ => exact hc.elim

theorem appendEntry_audits (store : QuarantineStore) (entry : AuditEntry) :
    (host.appendEntry store entry).Calls StoreCall.Audits := by
  refine (Prog.Calls.ofExcept _).bind fun _ => (Prog.Calls.request trivial).bind fun _ => ?_
  exact (Prog.Calls.request trivial).bind fun _ => trivial

/-- The log's lines can be written, for every time that can be. -/
def Host.CanLog (host : Host) : Prop := ∀ entry : AuditEntry, entry.time.Rfc3339 → ∃ line, host.entries.toVec entry = .ok line

theorem auditEvent_total {store : QuarantineStore} {now : Now} {action : String} {item : Option QuarantineId}
    {path : Option NativePath} {sha256 : Option Sha256Digest} {outcome : Except String (Option String)}
    (hlog : host.CanLog) :
    (host.auditEvent store now action item path sha256 outcome).Total
      (fun _ w' => w'.outside = w.outside ∧ w'.items = w.items) w := by
  unfold Host.auditEvent Host.appendEntry
  generalize hentry : host.auditEntry store now action item path sha256 outcome = entry
  have htime : entry.time.Rfc3339 := by
    rw [← hentry]
    exact now.2
  obtain ⟨line, hline⟩ := hlog { entry with seq := store.head.seq + 1, prev := store.head.hash } htime
  have hencode : (encode host.sha256 host.entries entry store.head).mapError RemediationError.audit =
      .ok (line ++ [newline], store.head.next host.sha256 line) := by
    rw [encode, hline]
    rfl
  refine Prog.total_ofExcept_bind hencode (Prog.total_request_bind rfl (Prog.total_request_bind rfl ?_))
  exact ⟨rfl, rfl⟩

end AbyssalWarden

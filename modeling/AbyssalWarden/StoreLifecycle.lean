import AbyssalWarden.CallTrace
import AbyssalWarden.RecoveryDecision

/-! The life of an item: its record, its stored file and its entries in the audit log. A run notes, call by
call, whether an operation is half done and whether a record is not yet audited. -/
namespace AbyssalWarden

/-- How a record may change, from none on. -/
inductive Lifecycle : Option ItemState → Option ItemState → Prop
  | same (state) : Lifecycle state state
  | begun : Lifecycle none (some .pending)
  | quarantined : Lifecycle (some .pending) (some .quarantined)
  | rolledBack : Lifecycle (some .pending) (some .rolledBack)
  | failed : Lifecycle (some .pending) (some .failed)
  | restored : Lifecycle (some .quarantined) (some .restored)
  | deleted : Lifecycle (some .quarantined) (some .deleted)

/-- The file is there before the call and gone after it. -/
def Step.took (st : Step storeSystem) (f : ItemFile) : Prop :=
  st.before.items.lookup f ≠ none ∧ st.after.items.lookup f = none

instance (st : Step storeSystem) (f : ItemFile) : Decidable (st.took f) :=
  inferInstanceAs (Decidable (_ ∧ _))

/-- What is noted of the steps of a run. -/
structure Progress where
  /-- The items whose stored file was removed while they were quarantined, and whose record was not written since. -/
  halfDone : List QuarantineId
  /-- The items that were given a final state, and that no completed line of the log announced since. -/
  unaudited : List QuarantineId
  /-- Records only changed as they may. -/
  lawful : Prop

namespace Progress

def start : Progress := ⟨[], [], True⟩

end Progress

variable (host : Host)

namespace Host

def stateAt (w : Disk) (id : QuarantineId) : Option ItemState :=
  (host.recordAt w id).map QuarantineRecord.state

/-- The entry names the item and tells of its change to its final state. -/
def Announces (record : QuarantineRecord) (id : QuarantineId) (entry : AuditEntry) : Prop :=
  match record.state with
  | .pending => False
  | .quarantined => entry.item = some id.text ∧ entry.outcome = "ok" ∧
      (entry.action = "quarantine" ∨ entry.action = "recover")
  | .restored => entry.item = some id.text ∧ entry.outcome = "ok" ∧ entry.action = "restore"
  | .deleted => entry.item = some id.text ∧ entry.outcome = "ok" ∧ entry.action = "delete"
  | .rolledBack => entry.item = some id.text ∧ entry.outcome = "ok" ∧ entry.action = "recover"
  | .failed => entry.item = some id.text ∧ entry.outcome = "error" ∧ entry.action = "recover"

instance (record : QuarantineRecord) (id : QuarantineId) (entry : AuditEntry) :
    Decidable (Announces record id entry) := by
  unfold Announces
  cases record.state <;> infer_instance

/-- The entry announces the state that the item is in. -/
def announced (w : Disk) (entry : AuditEntry) (id : QuarantineId) : Bool :=
  (host.recordAt w id).any fun record => Announces record id entry

def noteHalfDone (g : List QuarantineId) (st : Step storeSystem) : List QuarantineId :=
  match st.call with
  | .removeItem (.data id) =>
    if st.took (.data id) ∧ host.stateAt st.before id = some .quarantined then id :: g else g
  | .renameItem (.jsonTmp id) (.json id') => if st.took (.jsonTmp id) then g.filter (· ≠ id') else g
  | _ => g

def noteUnaudited (g : List QuarantineId) (st : Step storeSystem) : List QuarantineId :=
  match st.call with
  | .renameItem (.jsonTmp id) (.json id') =>
    if st.took (.jsonTmp id) ∧ host.stateAt st.after id' ≠ some .pending then id' :: g else g
  | .appendAudit line =>
    if st.after.audit = st.before.audit ++ line then
      match host.entries.fromSlice line.dropLast with
      | .ok entry => g.filter fun id => !host.announced st.after entry id
      | .error _ => g
    else g
  | _ => g

def note (g : Progress) (st : Step storeSystem) : Progress where
  halfDone := host.noteHalfDone g.halfDone st
  unaudited := host.noteUnaudited g.unaudited st
  lawful := g.lawful ∧ ∀ id, Lifecycle (host.stateAt st.before id) (host.stateAt st.after id)

/-! ### What should hold of an item -/

/-- The stored file is as the record says. -/
def DataOk (w : Disk) (id : QuarantineId) : Prop :=
  ∀ record, host.recordAt w id = some record →
    (record.state = .quarantined → host.copyAt w record (.data id) = some record.original.sha256) ∧
      (record.state ∈ [ItemState.restored, .deleted, .rolledBack] → w.items.lookup (.data id) = none)

/-- The log ends where a line ends. -/
def LineEnd (log : Bytes) : Prop := ∀ b, log.getLast? = some b → b = newline

/-- The entry is a line of the log. -/
def Logged (w : Disk) (entry : AuditEntry) : Prop :=
  ∃ before line after, w.audit = before ++ line ++ newline :: after ∧ LineEnd before ∧
    newline ∉ line ∧ host.entries.fromSlice line = .ok entry

/-- The item's final state was audited. -/
def LogOk (w : Disk) (id : QuarantineId) : Prop :=
  ∀ record, host.recordAt w id = some record → record.state ≠ .pending →
    ∃ entry, host.Logged w entry ∧ Announces record id entry

end Host

variable {host} {w w' w₁ : Disk} {id : QuarantineId} {g : Progress} {c : StoreCall}

/-! ### Calls that do not show -/

/-- The call writes nothing but temporary files and files outside the store. -/
def StoreCall.Quiet : StoreCall → Prop
  | .createItem f | .truncateItem f | .appendItem f _ | .removeItem f => f.IsTmp
  | .renameItem source target => source.IsTmp ∧ target.IsTmp
  | .appendAudit _ => False
  | _ => True

theorem StoreCall.Quiet.items (hc : c.Quiet) : ∀ f, c.WritesItem f → f.IsTmp := by
  intro f hf
  cases c with
  | createItem g | truncateItem g | appendItem g data | removeItem g =>
    cases hf
    exact hc
  | renameItem source target =>
    rcases hf with rfl | rfl
    · exact hc.1
    · exact hc.2
  | _ => exact hf.elim

theorem StoreCall.Quiet.audit (hc : c.Quiet) : ∀ line, c ≠ .appendAudit line := by
  rintro line rfl
  exact hc

/-- Records, stored files and the log are the same. -/
structure SameView (w w' : Disk) : Prop where
  items : ∀ f : ItemFile, ¬ f.IsTmp → w'.items.lookup f = w.items.lookup f
  audit : w'.audit = w.audit

theorem SameView.refl (w : Disk) : SameView w w := ⟨fun _ _ => rfl, rfl⟩

theorem SameView.trans (h : SameView w w₁) (h' : SameView w₁ w') : SameView w w' where
  items f hf := (h'.items f hf).trans (h.items f hf)
  audit := h'.audit.trans h.audit

theorem SameView.recordAt (h : SameView w w') (id : QuarantineId) :
    host.recordAt w' id = host.recordAt w id :=
  recordAt_congr (h.items _ (json_not_tmp id))

theorem SameView.stateAt (h : SameView w w') (id : QuarantineId) :
    host.stateAt w' id = host.stateAt w id := by
  rw [Host.stateAt, h.recordAt, Host.stateAt]

theorem apply_audit (h : ∀ line, c ≠ .appendAudit line) : (w.apply c).2.audit = w.audit := by
  cases c with
  | appendAudit line => exact absurd rfl (h line)
  | removeFile k => simp only [Disk.apply, Disk.removeFile]; split <;> rfl
  | createFile k node => simp only [Disk.apply, Disk.createFile]; split <;> rfl
  | renameNew source target => simp only [Disk.apply, Disk.renameNew]; split <;> rfl
  | linkFile source target => simp only [Disk.apply, Disk.linkFile]; split <;> rfl
  | createItem f => simp only [Disk.apply, Disk.createItem]; split <;> rfl
  | appendItem f data => simp only [Disk.apply, Disk.appendItem]; split <;> rfl
  | renameItem source target => simp only [Disk.apply, Disk.renameItem]; split <;> rfl
  | removeItem f => simp only [Disk.apply, Disk.removeItem]; split <;> rfl
  | _ => rfl

theorem sameView_apply (hc : c.Quiet) : SameView w (w.apply c).2 where
  items f hf := Disk.apply_items fun h => hf (hc.items f h)
  audit := apply_audit hc.audit

theorem quiet_cut (n : ℕ) (hc : c.Quiet) : (c.cut n).Quiet := by
  cases c <;> exact hc

theorem keeps_sameView (w : Disk) (c : StoreCall) (hc : c.Quiet) :
    Prog.Keeps storeSystem (SameView w) c :=
  keeps_of_apply (P := StoreCall.Quiet) (fun _ n hc => quiet_cut n hc)
    (fun _ _ hc hw => hw.trans (sameView_apply hc)) c hc

theorem sameView_leads (hc : c.Quiet) (h : storeSystem.Leads c w w') : SameView w w' := by
  have hkeeps := keeps_sameView w c hc
  rcases h with rfl | ⟨n, rfl⟩ | ⟨n, rfl⟩
  · exact hkeeps.apply w (.refl w)
  · exact hkeeps.torn n w (.refl w)
  · exact hkeeps.failed n w (.refl w)

theorem note_eq {st : Step storeSystem} {halfDone unaudited : List QuarantineId}
    (h₁ : host.noteHalfDone g.halfDone st = halfDone) (h₂ : host.noteUnaudited g.unaudited st = unaudited)
    (h₃ : ∀ id, Lifecycle (host.stateAt st.before id) (host.stateAt st.after id)) :
    host.note g st = ⟨halfDone, unaudited, g.lawful⟩ := by
  have hlawful : (g.lawful ∧ ∀ id, Lifecycle (host.stateAt st.before id) (host.stateAt st.after id)) =
      g.lawful := propext (and_iff_left h₃)
  rw [Host.note, h₁, h₂, hlawful]

/-- A quiet call is not noted. -/
theorem note_quiet (hc : c.Quiet) (h : storeSystem.Leads c w w') : host.note g ⟨c, w, w'⟩ = g := by
  apply note_eq
  · cases c with
    | removeItem f =>
      cases f with
      | data id => exact (hc.items (.data id) rfl).elim
      | _ => rfl
    | renameItem source target =>
      cases target with
      | json id => exact (hc.items (.json id) (.inr rfl)).elim
      | _ => cases source <;> rfl
    | _ => rfl
  · cases c with
    | appendAudit line => exact absurd rfl (hc.audit line)
    | renameItem source target =>
      cases target with
      | json id => exact (hc.items (.json id) (.inr rfl)).elim
      | _ => cases source <;> rfl
    | _ => rfl
  · intro id
    rw [(sameView_leads hc h).stateAt]
    exact .same _

end AbyssalWarden

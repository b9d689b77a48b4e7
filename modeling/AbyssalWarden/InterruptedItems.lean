import AbyssalWarden.LifecycleRun

/-! A record only disagrees with the stored file or with the audit log because of a process that was stopped in the
middle of an operation: after the file was removed and before that was recorded, or after the record was put in place
and before that was audited. -/
namespace AbyssalWarden

variable {host : Host} {s : StoreState} {evs : List StoreEvent} {ev : StoreEvent} {id : QuarantineId}
  {g : List QuarantineId} {st : Step storeSystem}

/-- The step puts a record of the item in place. -/
def Step.records (st : Step storeSystem) (id : QuarantineId) : Prop :=
  ∃ source, st.call = .renameItem (.jsonTmp source) (.json id) ∧ st.took (.jsonTmp source)

namespace Host

variable (host : Host)

end Host

variable {P : StoreState → StoreEvent → Prop}

end AbyssalWarden

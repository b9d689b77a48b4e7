import AbyssalWarden.Allowlist
import AbyssalWarden.SavedRecords

/-! What the allow-list holds after any calls. The number of its entries is limited when it is written, and its
size only when it is read. -/
namespace AbyssalWarden

variable {host : Host} {codec : AllowlistCodec} {mayFail : RootCall → Bool} {r r' : StoreRoot}
  {L L' : List AllowEntry} {op : AllowOp} {store : QuarantineStore}

/-! ### What the calls are for -/

/-- The hashes that are allowed once a call has taken effect. -/
def AllowOp.effect (op : AllowOp) (S : Set Sha256Digest) : Set Sha256Digest :=
  match op with
  | .allow sha256 _ _ _ _ _ => insert sha256 S
  | .disallow sha256 _ => S \ {sha256}

/-- The hashes that were allowed and not later disallowed. A call that was cut off may have taken effect or not. -/
inductive Allowed : List (AllowOp × CallEnd) → Set Sha256Digest → Prop
  | start : Allowed [] ∅
  | ok {calls S} (op : AllowOp) : Allowed calls S → Allowed (calls ++ [(op, .ok)]) (op.effect S)
  | refused {calls S} (op : AllowOp) : Allowed calls S → Allowed (calls ++ [(op, .refused)]) S
  | without {calls S} (op : AllowOp) : Allowed calls S → Allowed (calls ++ [(op, .interrupted)]) S
  | effective {calls S} (op : AllowOp) : Allowed calls S → Allowed (calls ++ [(op, .interrupted)]) (op.effect S)

/-- The hashes of some entries. -/
def hashes (L : List AllowEntry) : Set Sha256Digest := {sha256 | ∃ e ∈ L, e.sha256 = sha256}

/-- What a call makes of the entries. -/
def AllowOp.applyTo (op : AllowOp) (L : List AllowEntry) : List AllowEntry :=
  match op with
  | .allow sha256 reason item detectionName now _ =>
    if L.any (·.sha256 = sha256) then L
    else L ++ [⟨sha256, now.1, reason, item.map QuarantineId.text, detectionName⟩]
  | .disallow sha256 _ => L.filter (·.sha256 ≠ sha256)

theorem hashes_applyTo : hashes (op.applyTo L) = op.effect (hashes L) := by
  ext sha256
  cases op with
  | allow h reason item detectionName now audited =>
    simp only [AllowOp.applyTo, AllowOp.effect, hashes, Set.mem_insert_iff, Set.mem_ofPred_eq]
    -- an entry with the hash is there already, or one is added
    split
    · rename_i hany
      obtain ⟨e, he, hsame⟩ := List.any_eq_true.mp hany
      constructor
      · exact fun hmem => .inr hmem
      · intro hmem
        cases hmem with
        | inl heq => exact ⟨e, he, (of_decide_eq_true hsame).trans heq.symm⟩
        | inr hmem => exact hmem
    · simp only [List.mem_append, List.mem_singleton, or_and_right, exists_or, exists_eq_left]
      rw [or_comm, eq_comm]
  | disallow h audited =>
    simp only [AllowOp.applyTo, AllowOp.effect, hashes, Set.mem_sdiff, Set.mem_singleton_iff, Set.mem_ofPred_eq,
      List.mem_filter, decide_eq_true_eq]
    constructor
    · rintro ⟨e, ⟨he, hne⟩, rfl⟩
      exact ⟨⟨e, he, rfl⟩, hne⟩
    · rintro ⟨⟨e, he, rfl⟩, hne⟩
      exact ⟨e, ⟨he, hne⟩, rfl⟩

theorem nodup_applyTo (h : (L.map AllowEntry.sha256).Nodup) : ((op.applyTo L).map AllowEntry.sha256).Nodup := by
  cases op with
  | allow sha256 reason item detectionName now audited =>
    simp only [AllowOp.applyTo]
    split
    · exact h
    · rename_i hany
      rw [List.map_append, List.nodup_append]
      refine ⟨h, List.nodup_singleton _, fun a ha b hb heq => hany ?_⟩
      obtain ⟨e, he, rfl⟩ := List.mem_map.mp ha
      have hb' : b = sha256 := by simpa using hb
      exact List.any_eq_true.mpr ⟨e, he, decide_eq_true (heq.trans hb')⟩
  | disallow sha256 audited => exact h.sublist (List.filter_sublist.map _)

/-- The other entries stay as they are. -/
theorem others_applyTo : (op.applyTo L).filter (·.sha256 ≠ op.sha256) = L.filter (·.sha256 ≠ op.sha256) := by
  cases op with
  | allow sha256 reason item detectionName now audited =>
    simp only [AllowOp.applyTo, AllowOp.sha256]
    split
    · rfl
    · simp
  | disallow sha256 audited =>
    simp only [AllowOp.applyTo, AllowOp.sha256]
    rw [List.filter_filter]
    refine List.filter_congr fun e _ => ?_
    by_cases he : e.sha256 = sha256 <;> simp [he]

/-! ### The file -/

/-- The entries are in the file, or there is neither. -/
def Listed (codec : AllowlistCodec) (list : Option Bytes) (L : List AllowEntry) : Prop :=
  list = none ∧ L = [] ∨ ∃ data, list = some data ∧ codec.toVecPretty ⟨1, L⟩ = .ok data

/-- The list is not larger than what is read. -/
def ListReadable (list : Option Bytes) : Prop := ∀ data, list = some data → data.length ≤ maxAllowlistBytes

theorem parseAllowlist_eq_ok {data : Bytes} (h : codec.toVecPretty ⟨1, L⟩ = .ok data) :
    host.parseAllowlist codec data = .ok ⟨1, L⟩ := by
  simp only [Host.parseAllowlist, codec.fromSlice_toVecPretty _ data h]
  rfl

/-- The check of what was written: only its size counts. -/
theorem checkAllowlist_eq {data : Bytes} (h : codec.toVecPretty ⟨1, L⟩ = .ok data) :
    host.checkAllowlist codec data = if data.length > maxAllowlistBytes then
      .error (.storeInsecure host.allowlistPath "the allow-list is too large") else .ok ⟨1, L⟩ := by
  rw [Host.checkAllowlist, refuseIf]
  split
  · rfl
  · exact parseAllowlist_eq_ok h

/-- The call leaves the list alone. -/
def RootCall.SparesList : RootCall → Prop
  | .renameTmp => False
  | _ => True

theorem keeps_list (list : Option Bytes) (c : RootCall) (hc : c.SparesList) :
    Prog.Keeps rootSystem (fun r => r.list = list) c := by
  cases c with
  | renameTmp => exact hc.elim
  | appendTmp data => exact ⟨fun _ _ h => h, fun _ _ h => h, fun _ h => h⟩
  | store c => exact ⟨fun _ _ h => h, fun _ _ h => h, fun _ h => h⟩
  | statList | openList | readList | truncateTmp | syncTmp | syncRoot =>
    refine ⟨fun n r h => ?_, fun _ _ h => h, fun _ h => h⟩
    change (if n = 0 then r else _).list = _
    split <;> exact h

theorem inRoot_calls {ε α : Type} (p : Prog storeSystem ε α) : p.inRoot.Calls RootCall.SparesList := by
  refine (p.calls_true.within diskPart).mono fun c hc => ?_
  obtain ⟨c', rfl, -⟩ := hc
  trivial

theorem readAllowlistFile_calls : (host.readAllowlistFile codec).Calls RootCall.SparesList := by
  refine (Prog.Calls.request trivial).bind fun present => ?_
  split
  · exact (Prog.Calls.request trivial).bind fun _ => Prog.Calls.ofExcept _
  · trivial

/-- What is read is what is listed, if it is not too large. -/
theorem readAllowlistFile_meets (host : Host) (mayFail : RootCall → Bool) (h : Listed codec r.list L) :
    (host.readAllowlistFile codec).Meets mayFail (fun r' => r'.list = r.list) (fun _ r' => r'.list = r.list)
      (fun file r' => r'.list = r.list ∧ file = ⟨1, L⟩ ∧ ListReadable r.list) r := by
  refine readAllowlistFile_calls.meets_and (keeps_list _) rfl ?_
  refine Prog.Returns.bind (Prog.returns_request fun present r₁ hopen => ?_)
  obtain ⟨hpresent, rfl⟩ := Prod.mk.inj hopen
  obtain rfl : r.list.isSome = present := Except.ok.inj hpresent
  cases h with
  | inl hnone =>
    rw [if_neg (by simp [hnone.1])]
    refine ⟨by rw [hnone.2], fun data hdata => ?_⟩
    rw [hnone.1] at hdata
    cases hdata
  | inr hsome =>
    obtain ⟨data, hdata, hwritten⟩ := hsome
    rw [if_pos (by simp [hdata])]
    refine Prog.Returns.bind (Prog.returns_request fun data' r₂ hread => Prog.returns_ofExcept fun file hfile => ?_)
    have hsame : r.apply .readList = (.ok data, r) := by
      rw [StoreRoot.apply, hdata]
      rfl
    obtain rfl : data = data' := Except.ok.inj (congrArg Prod.fst (hsame.symm.trans hread))
    rw [checkAllowlist_eq hwritten] at hfile
    split at hfile
    · cases hfile
    · rename_i hsize
      refine ⟨(Except.ok.inj hfile).symm, fun data' hdata' => ?_⟩
      rw [← Option.some.inj (hdata.symm.trans hdata')]
      exact not_lt.mp hsize

theorem readAllowlistFile_total (h : Listed codec r.list L) (hsize : ListReadable r.list) :
    (host.readAllowlistFile codec).Total (fun file r' => file = ⟨1, L⟩ ∧ r' = r) r := by
  refine Prog.total_request_bind (S := rootSystem) (c := .openList) rfl ?_
  cases h with
  | inl hnone =>
    rw [if_neg (by simp [hnone.1]), hnone.2]
    exact ⟨rfl, rfl⟩
  | inr hsome =>
    obtain ⟨data, hdata, hwritten⟩ := hsome
    rw [if_pos (by simp [hdata])]
    have hread : r.apply .readList = (.ok data, r) := by
      rw [StoreRoot.apply, hdata]
      rfl
    refine Prog.total_request_bind hread ?_
    rw [checkAllowlist_eq hwritten, if_neg (not_lt.mpr (hsize data hdata))]
    exact ⟨rfl, rfl⟩

theorem allowlist_total (host : Host) (h : Listed codec r.list L) (hsize : ListReadable r.list) :
    (host.allowlist codec).Total (fun entries r' => entries = L ∧ r' = r) r := by
  refine Prog.meets_bind.mpr ((readAllowlistFile_total h hsize).mono (fun _ h => h) (fun _ _ h => h) ?_)
  rintro file r' ⟨rfl, rfl⟩
  exact ⟨rfl, rfl⟩

theorem readAllowlist_total (host : Host) (h : Listed codec r.list L) (hsize : ListReadable r.list) :
    (host.readAllowlist codec).Total (fun entries r' => entries = L ∧ r' = r) r := by
  refine Prog.total_request_bind (S := rootSystem) (c := .statList) rfl ?_
  cases h with
  | inl hnone =>
    rw [if_neg (by simp [hnone.1]), hnone.2]
    exact ⟨rfl, rfl⟩
  | inr hsome =>
    obtain ⟨data, hdata, hwritten⟩ := hsome
    rw [if_pos (by simp [hdata])]
    have hread : r.apply .readList = (.ok data, r) := by
      rw [StoreRoot.apply, hdata]
      rfl
    refine Prog.total_request_bind (S := rootSystem) (c := .openList) rfl (Prog.total_request_bind hread ?_)
    rw [checkAllowlist_eq hwritten, if_neg (not_lt.mpr (hsize data hdata))]
    exact ⟨rfl, rfl⟩

/-! ### Writing -/

/-- The list is replaced as a whole, or not at all. -/
theorem writeAllowlistFile_meets {file : AllowlistFile} :
    (host.writeAllowlistFile codec file).Meets mayFail
      (fun r' => r'.list = r.list ∨ ∃ data, r'.list = some data ∧ codec.toVecPretty file = .ok data)
      (fun e r' => (∃ op source, e = .io op host.allowlistPath source) ∧
        (r'.list = r.list ∨ ∃ data, r'.list = some data ∧ codec.toVecPretty file = .ok data))
      (fun _ r' => ∃ data, r'.list = some data ∧ codec.toVecPretty file = .ok data) r := by
  unfold Host.writeAllowlistFile
  refine Prog.meets_bind.mpr (Prog.meets_ofExcept.mpr ⟨fun data hdata => ?_, fun e he => ?_⟩)
  · rw [mapError_eq_ok] at hdata
    -- until the rename only the temporary file is written
    have hkeep {c : RootCall} (hc : c.SparesList) := keeps_list r.list c hc
    refine Prog.meets_bind.mpr (Prog.meets_keeping (hkeep (c := .truncateTmp) trivial) rfl (fun _ h => .inl h)
      (fun _ _ _ h => ⟨⟨_, _, rfl⟩, .inl h⟩) nofun fun _ r₁ happly hr₁ => ?_)
    have hempty : r₁.listTmp = some [] := by
      cases happly
      rfl
    refine Prog.meets_bind.mpr (Prog.meets_keeping (hkeep (c := .appendTmp data) trivial) hr₁ (fun _ h => .inl h)
      (fun _ _ _ h => ⟨⟨_, _, rfl⟩, .inl h⟩) nofun fun _ r₂ happly hr₂ => ?_)
    have hfull : r₂.listTmp = some data := by
      cases happly
      change r₁.listTmp.map (· ++ data) = _
      rw [hempty]
      rfl
    refine Prog.meets_bind.mpr (Prog.meets_keeping (hkeep (c := .syncTmp) trivial) hr₂ (fun _ h => .inl h)
      (fun _ _ _ h => ⟨⟨_, _, rfl⟩, .inl h⟩) nofun fun _ r₃ happly hr₃ => ?_)
    cases happly
    have hrename : rootSystem.apply .renameTmp r₂ = (.ok (), { r₂ with list := some data, listTmp := none }) := by
      change r₂.renameTmp = _
      rw [StoreRoot.renameTmp, hfull]
    refine Prog.meets_bind.mpr (Prog.meets_request (fun n => ?_) (fun _ _ _ => ⟨⟨_, _, rfl⟩, .inl hr₃⟩) (fun e h => ?_)
      fun _ h => ?_)
    · change (if n = 0 then r₂ else (rootSystem.apply .renameTmp r₂).2).list = _ ∨ ∃ data,
        (if n = 0 then r₂ else (rootSystem.apply .renameTmp r₂).2).list = _ ∧ _
      rw [hrename]
      -- a stop in the rename: before it took effect, or after it
      split
      · exact .inl hr₃
      · exact .inr ⟨data, rfl, hdata⟩
    · rw [hrename] at h
      cases h
    · rw [hrename]
      have hsync := keeps_list (some data) .syncRoot trivial
      exact Prog.meets_keeping hsync rfl (fun _ h => .inr ⟨data, h, hdata⟩)
        (fun _ _ _ h => ⟨⟨_, _, rfl⟩, .inr ⟨data, h, hdata⟩⟩) nofun fun _ _ _ h => ⟨data, h, hdata⟩
  · cases hfail : codec.toVecPretty file with
    | ok data =>
      rw [hfail] at he
      cases he
    | error reason =>
      rw [hfail] at he
      cases he
      exact ⟨⟨_, _, rfl⟩, .inl rfl⟩

/-! ### A call -/

/-- What a program of the store does in its directory. -/
theorem inRoot_meets {ε α : Type} {p : Prog storeSystem ε α} {stop : Disk → Prop} {err : ε → Disk → Prop}
    {post : α → Disk → Prop} (h : p.Meets (fun c => mayFail (.store c)) stop err post r.disk) :
    p.inRoot.Meets mayFail (fun r => stop r.disk) (fun e r => err e r.disk) (fun a r => post a r.disk) r := by
  refine (Prog.Meets.within diskPart (fun _ hmay => hmay) h).mono (fun _ h => h) ?_
    fun _ _ h => h
  rintro e r' ⟨e', rfl, he⟩
  exact he

/-- The error of an audit is not a refusal. -/
theorem appendEntry_cutOff {mayFail : StoreCall → Bool} {entry : AuditEntry} {w : Disk} :
    (host.appendEntry store entry).Meets mayFail (fun _ => True)
      (fun e _ => ∀ path reason, e ≠ .storeInsecure path reason) (fun _ _ => True) w := by
  unfold Host.appendEntry
  refine Prog.meets_bind.mpr (Prog.meets_ofExcept.mpr ⟨fun _ _ => ?_, fun e he => ?_⟩)
  · refine Prog.meets_bind.mpr (Prog.meets_request (fun _ => trivial) (fun _ _ _ => nofun) (fun _ _ => nofun) fun _ _ => ?_)
    refine Prog.meets_bind.mpr (Prog.meets_request (fun _ => trivial) (fun _ _ _ => nofun) (fun _ _ => nofun) fun _ _ => ?_)
    trivial
  · cases hencode : encode host.sha256 host.entries entry store.head with
    | ok line =>
      rw [hencode] at he
      cases he
    | error reason =>
      rw [hencode] at he
      cases he
      exact nofun

/-- The entries are in the file, and not too many. -/
structure Held (codec : AllowlistCodec) (list : Option Bytes) (L : List AllowEntry) : Prop where
  listed : Listed codec list L
  length_le : L.length ≤ maxAllowEntries

theorem inRoot_total {ε α : Type} {p : Prog storeSystem ε α} {post : α → Disk → Prop} (h : p.Total post r.disk) :
    p.inRoot.Total (fun a r => post a r.disk) r := by
  refine (Prog.Meets.within diskPart (fun _ hmay => hmay) h).mono (fun _ h => h) ?_ fun _ _ h => h
  rintro e r' ⟨e', -, he⟩
  exact he

/-- The audit leaves the list alone. -/
theorem audit_meets {entry : AuditEntry} {list : Option Bytes} (hlist : r.list = list) :
    (host.appendEntry store entry).inRoot.Meets mayFail (fun r' => r'.list = list)
      (fun e r' => r'.list = list ∧ ∀ path reason, e ≠ .storeInsecure path reason) (fun _ r' => r'.list = list) r := by
  have hkeeps : (host.appendEntry store entry).inRoot.Meets mayFail (fun r' => r'.list = list)
      (fun _ r' => r'.list = list) (fun _ r' => r'.list = list) r :=
    (inRoot_calls (host.appendEntry store entry)).meets (keeps_list list) hlist
  exact (hkeeps.and (inRoot_meets appendEntry_cutOff)).mono (fun _ h => h.1) (fun _ _ h => ⟨h.1, h.2⟩) fun _ _ h => h.1

/-- The list is written and the call audited. -/
theorem writeAudited_meets {entry : AuditEntry} (hlength : L'.length ≤ maxAllowEntries) :
    ((host.writeAllowlistFile codec ⟨1, L'⟩).bind fun _ => (host.appendEntry store entry).inRoot).Meets mayFail
      (fun r' => r'.list = r.list ∨ Held codec r'.list L')
      (fun e r' => (r'.list = r.list ∨ Held codec r'.list L') ∧ ∀ path reason, e ≠ .storeInsecure path reason)
      (fun _ r' => ∃ data, r'.list = some data ∧ codec.toVecPretty ⟨1, L'⟩ = .ok data) r := by
  have hheld (r' : StoreRoot) (h : ∃ data, r'.list = some data ∧ codec.toVecPretty ⟨1, L'⟩ = .ok data) :
      Held codec r'.list L' := ⟨.inr h, hlength⟩
  refine Prog.meets_bind.mpr (writeAllowlistFile_meets.mono (fun _ h => h.imp_right (hheld _)) ?_ fun _ r₁ hwritten => ?_)
  · rintro e r' ⟨⟨op, source, rfl⟩, hlist⟩
    exact ⟨hlist.imp_right (hheld _), nofun⟩
  · have hheld₁ := hheld r₁ hwritten
    refine (audit_meets (rfl : r₁.list = r₁.list)).mono (fun _ h => ?_) (fun _ _ h => ?_) fun _ _ h => ?_
    · exact .inr (h ▸ hheld₁)
    · exact ⟨.inr (h.1 ▸ hheld₁), h.2⟩
    · exact h ▸ hwritten

/-- The list is as it was, or was written again. -/
def Replaced (codec : AllowlistCodec) (list list' : Option Bytes) (L L' : List AllowEntry) : Prop :=
  L' = L ∧ list' = list ∨ L' ≠ L ∧ ∃ data, list' = some data ∧ codec.toVecPretty ⟨1, L'⟩ = .ok data

theorem Replaced.listed {list list' : Option Bytes} (h : Replaced codec list list' L L') (hL : Listed codec list L) :
    Listed codec list' L' := by
  cases h with
  | inl hsame =>
    rw [hsame.1, hsame.2]
    exact hL
  | inr hwritten => exact .inr hwritten.2

/-- A call applies its change, if it returns Ok; if it refuses nothing is changed. -/
theorem allowOp_meets (host : Host) (mayFail : RootCall → Bool) (store : QuarantineStore) (op : AllowOp)
    (h : Held codec r.list L) : (host.allowOp codec store op).Meets mayFail
    (fun r' => r'.list = r.list ∨ Held codec r'.list (op.applyTo L))
    (fun e r' => r'.list = r.list ∨ Held codec r'.list (op.applyTo L) ∧ ∀ path reason, e ≠ .storeInsecure path reason)
    (fun _ r' => Replaced codec r.list r'.list L (op.applyTo L) ∧ (op.applyTo L).length ≤ maxAllowEntries ∧
      ListReadable r.list) r := by
  have hread := readAllowlistFile_meets host mayFail h.listed
  -- each call reads the list, and writes it only where it changes
  cases op with
  | allow sha256 reason item detectionName now audited =>
    refine Prog.meets_bind.mpr (hread.mono (fun _ h => .inl h) (fun _ _ h => .inl h) ?_)
    rintro file r₁ ⟨hlist, rfl, hreadable⟩
    dsimp only [AllowOp.applyTo]
    -- an entry that is there already is only audited
    split
    · refine (audit_meets hlist).mono (fun _ h => .inl h) (fun _ _ h => .inl h.1) fun _ r' h' => ?_
      exact ⟨.inl ⟨rfl, h'⟩, h.length_le, hreadable⟩
    · refine Prog.meets_bind.mpr (Prog.meets_ofExcept.mpr ⟨fun _ hroom => ?_, fun _ _ => .inl hlist⟩)
      rw [refuseIf_eq_ok] at hroom
      have hlength : (L ++ [(⟨sha256, now.1, reason, item.map QuarantineId.text, detectionName⟩ : AllowEntry)]).length ≤
          maxAllowEntries := by
        rw [List.length_append, List.length_singleton]
        omega
      refine (writeAudited_meets (r := r₁) hlength).mono ?_ ?_ ?_
      · rw [hlist]
        exact fun _ h => h
      · rw [hlist]
        exact fun _ _ h => h.1.imp_right fun held => ⟨held, h.2⟩
      · exact fun _ _ h => ⟨.inr ⟨by simp, h⟩, hlength, hreadable⟩
  | disallow sha256 audited =>
    refine Prog.meets_bind.mpr (Prog.meets_bind.mpr (hread.mono (fun _ h => .inl h) (fun _ _ h => .inl h) ?_))
    rintro file r₁ ⟨hlist, rfl, hreadable⟩
    dsimp only [AllowOp.applyTo]
    split
    · rename_i hchanged
      change Prog.Meets (S := rootSystem) mayFail _ ((host.writeAllowlistFile codec _).bind fun _ => Prog.bind _ _) _ _ _
      rw [← Prog.bind_assoc]
      have hlength : (L.filter (·.sha256 ≠ sha256)).length ≤ maxAllowEntries :=
        (List.length_filter_le _ _).trans h.length_le
      refine Prog.meets_bind.mpr ((writeAudited_meets (r := r₁) hlength).mono ?_ ?_ ?_)
      · rw [hlist]
        exact fun _ h => h
      · rw [hlist]
        exact fun _ _ h => h.1.imp_right fun held => ⟨held, h.2⟩
      · exact fun _ _ h => ⟨.inr ⟨fun heq => hchanged (congrArg List.length heq), h⟩, hlength, hreadable⟩
    · rename_i hsame
      -- nothing was listed under the hash
      have hfilter : L.filter (·.sha256 ≠ sha256) = L :=
        List.filter_eq_self.mpr (List.length_filter_eq_length_iff.mp (not_not.mp hsame))
      rw [hfilter]
      exact ⟨.inl ⟨rfl, hlist⟩, h.length_le, hreadable⟩

/-! ### Runs -/

/-- The entries are in the file, and they are those of the calls. -/
structure ListKept (codec : AllowlistCodec) (calls : List (AllowOp × CallEnd)) (list : Option Bytes) (L : List AllowEntry) :
    Prop extends Held codec list L where
  nodup : (L.map AllowEntry.sha256).Nodup
  allowed : Allowed calls (hashes L)

variable {calls : List (AllowOp × CallEnd)} {faults : List (Fault Errno)} {s : AllowSession}

theorem ListKept.applied {list : Option Bytes} {ended : CallEnd} (h : ListKept codec calls r.list L)
    (hheld : Held codec list (op.applyTo L)) (hended : ended ≠ .refused) :
    ListKept codec (calls ++ [(op, ended)]) list (op.applyTo L) where
  toHeld := hheld
  nodup := nodup_applyTo h.nodup
  allowed := by
    rw [hashes_applyTo]
    cases ended with
    | ok => exact .ok op h.allowed
    | refused => exact absurd rfl hended
    | interrupted => exact .effective op h.allowed

theorem ListKept.unchanged {list : Option Bytes} {ended : CallEnd} (h : ListKept codec calls r.list L) (hlist : list = r.list)
    (hended : ended ≠ .ok) : ListKept codec (calls ++ [(op, ended)]) list L where
  toHeld := hlist ▸ h.toHeld
  nodup := h.nodup
  allowed := by
    cases ended with
    | ok => exact absurd rfl hended
    | refused => exact .refused op h.allowed
    | interrupted => exact .without op h.allowed

/-- One call keeps the list, and applies its change if it returns Ok. -/
theorem allowCall_kept (host : Host) (mayFail : RootCall → Bool) (store : QuarantineStore) (op : AllowOp)
    (faults : List (Fault Errno)) (h : ListKept codec calls r.list L) :
    ∃ L', ListKept codec (calls ++ [(op, (host.allowCall codec mayFail r store op faults).2)])
        (host.allowCall codec mayFail r store op faults).1.root.list L' ∧
      ((host.allowCall codec mayFail r store op faults).2 = .ok → L' = op.applyTo L ∧ ListReadable r.list ∧
        Replaced codec r.list (host.allowCall codec mayFail r store op faults).1.root.list L L') := by
  have hends := Prog.run_ends (allowOp_meets host mayFail store op h.toHeld) faults
  unfold Host.allowCall
  generalize (host.allowOp codec store op).run mayFail faults r = ended at hends ⊢
  obtain ⟨outcome, r'⟩ := ended
  cases outcome with
  | ok store' =>
    obtain ⟨hreplaced, hlength, hreadable⟩ := hends
    exact ⟨_, h.applied ⟨hreplaced.listed h.listed, hlength⟩ (by simp), fun _ => ⟨rfl, hreadable, hreplaced⟩⟩
  -- stopped before the new list was in place, or after
  | stopped =>
    cases hends with
    | inl hsame => exact ⟨L, h.unchanged hsame (by simp), by simp⟩
    | inr hheld => exact ⟨_, h.applied hheld (by simp), by simp⟩
  | error e =>
    have hnot : callEnd (α := Unit) (.error e) ≠ .ok := by
      cases e <;> simp [callEnd]
    cases hends with
    | inl hsame => exact ⟨L, h.unchanged hsame hnot, fun hok => absurd hok hnot⟩
    -- the list was changed, so the error is not a refusal
    | inr hheld =>
      obtain ⟨hheld, hcutOff⟩ := hheld
      have hinterrupted : callEnd (α := Unit) (.error e) ≠ .refused := by
        cases e with
        | storeInsecure path reason => exact absurd rfl (hcutOff path reason)
        | _ => simp [callEnd]
      exact ⟨_, h.applied hheld hinterrupted, fun hok => absurd hok hnot⟩

theorem allowRun_kept (host : Host) (codec : AllowlistCodec) (mayFail : RootCall → Bool) (hs : s.Fresh) (evs : List AllowEvent) :
    ∃ L, ListKept codec (host.allowRun codec mayFail s evs).2 (host.allowRun codec mayFail s evs).1.root.list L := by
  have hstep (t : AllowSession × List (AllowOp × CallEnd)) (ev : AllowEvent) (h : ∃ L, ListKept codec t.2 t.1.root.list L) :
      ∃ L, ListKept codec (host.allowStep codec mayFail t ev).2 (host.allowStep codec mayFail t ev).1.root.list L := by
    obtain ⟨L, hL⟩ := h
    cases ev with
    | reopened store disk => exact ⟨L, hL⟩
    | call op faults =>
      unfold Host.allowStep
      cases t.1.store with
      | none => exact ⟨L, hL⟩
      | some store =>
        obtain ⟨L', hL', -⟩ := allowCall_kept host mayFail store op faults hL
        exact ⟨L', hL'⟩
  have hrun (t : AllowSession × List (AllowOp × CallEnd)) (h : ∃ L, ListKept codec t.2 t.1.root.list L) :
      ∃ L, ListKept codec (evs.foldl (host.allowStep codec mayFail) t).2
        (evs.foldl (host.allowStep codec mayFail) t).1.root.list L := by
    induction evs generalizing t with
    | nil => exact h
    | cons ev evs ih => exact ih _ (hstep t ev h)
  refine hrun (s, []) ⟨[], ⟨.inl ⟨hs, rfl⟩, Nat.zero_le _⟩, List.nodup_nil, ?_⟩
  -- an empty list names no hash
  have hnone : hashes [] = ∅ := by
    ext sha256
    simp [hashes]
  rw [hnone]
  exact .start

/-- A run with one more call on an open store. -/
theorem allowRun_call (host : Host) (codec : AllowlistCodec) (mayFail : RootCall → Bool) (op : AllowOp)
    (faults : List (Fault Errno)) {evs : List AllowEvent} (hopen : (host.allowRun codec mayFail s evs).1.store = some store) :
    host.allowRun codec mayFail s (evs ++ [.call op faults]) =
      ((host.allowCall codec mayFail (host.allowRun codec mayFail s evs).1.root store op faults).1,
        (host.allowRun codec mayFail s evs).2 ++
          [(op, (host.allowCall codec mayFail (host.allowRun codec mayFail s evs).1.root store op faults).2)]) := by
  rw [Host.allowRun, List.foldl_append, List.foldl_cons, List.foldl_nil, ← Host.allowRun, Host.allowStep, hopen]

/-- After a call that returned Ok: both readers return the same list, without duplicates and not too long, of
exactly what was allowed and not later disallowed; and the entries that the call does not name are as before. -/
def Host.ListConsistent (host : Host) (codec : AllowlistCodec) (calls : List (AllowOp × CallEnd)) (op : AllowOp)
    (before after : StoreRoot) : Prop :=
  ∃ L : List AllowEntry, (host.allowlist codec).run (fun _ => true) [] after = (.ok L, after) ∧
    (host.readAllowlist codec).run (fun _ => true) [] after = (.ok L, after) ∧
    (L.map AllowEntry.sha256).Nodup ∧ L.length ≤ maxAllowEntries ∧ Allowed calls (hashes L) ∧
    ∃ L₀, (host.allowlist codec).run (fun _ => true) [] before = (.ok L₀, before) ∧
      L.filter (·.sha256 ≠ op.sha256) = L₀.filter (·.sha256 ≠ op.sha256)

theorem allowlist_run (h : Listed codec r.list L) (hsize : ListReadable r.list) :
    (host.allowlist codec).run mayFail [] r = (.ok L, r) := by
  obtain ⟨entries, r', hrun, rfl, rfl⟩ := (allowlist_total host h hsize).run mayFail
  exact hrun

/-- A list that is read is not too large. -/
theorem readable_of_allowlist {after : StoreRoot} (h : Listed codec r.list L)
    (hread : (host.allowlist codec).run mayFail [] r = (.ok L', after)) : ListReadable r.list := by
  have hreturns : (host.allowlist codec).Returns mayFail (fun _ _ => ListReadable r.list) r :=
    Prog.Returns.bind ((readAllowlistFile_meets _ _ h).mono (fun _ _ => trivial) (fun _ _ _ => trivial) fun _ _ h => h.2.2)
  exact hreturns.of_run hread

theorem Listed.unique {list : Option Bytes} (h : Listed codec list L) (h' : Listed codec list L') : L = L' := by
  cases h with
  | inl hnone =>
    cases h' with
    | inl hnone' => rw [hnone.2, hnone'.2]
    | inr hsome =>
      obtain ⟨data, hdata, -⟩ := hsome
      rw [hnone.1] at hdata
      cases hdata
  | inr hsome =>
    obtain ⟨data, hdata, hwritten⟩ := hsome
    cases h' with
    | inl hnone =>
      rw [hnone.1] at hdata
      cases hdata
    | inr hsome' =>
      obtain ⟨data', hdata', hwritten'⟩ := hsome'
      obtain rfl : data = data' := Option.some.inj (hdata.symm.trans hdata')
      have hsame := (codec.fromSlice_toVecPretty _ _ hwritten).symm.trans (codec.fromSlice_toVecPretty _ _ hwritten')
      exact congrArg AllowlistFile.entries (Except.ok.inj hsame)

/-- If the call changes the entries, the list with the change is not larger than what is read. -/
def AllowOp.Fits (codec : AllowlistCodec) (op : AllowOp) (list : Option Bytes) : Prop :=
  ∀ L, Listed codec list L → op.applyTo L ≠ L → ∀ data, codec.toVecPretty ⟨1, op.applyTo L⟩ = .ok data →
    data.length ≤ maxAllowlistBytes

theorem readable_iff_fits {list list' : Option Bytes} (hL : Listed codec list L) (hlist : ListReadable list)
    (h : Replaced codec list list' L (op.applyTo L)) : ListReadable list' ↔ op.Fits codec list := by
  constructor
  · intro hreadable L' hL' hchanged data hdata
    obtain rfl := hL.unique hL'
    cases h with
    | inl hsame => exact absurd hsame.1 hchanged
    | inr hwritten =>
      obtain ⟨-, data', hlist', hdata'⟩ := hwritten
      rw [Except.ok.inj (hdata.symm.trans hdata')]
      exact hreadable data' hlist'
  · intro hfits
    cases h with
    | inl hsame => exact hsame.2 ▸ hlist
    | inr hwritten =>
      obtain ⟨hchanged, data, hlist', hdata⟩ := hwritten
      intro data' hdata'
      rw [← Option.some.inj (hlist'.symm.trans hdata')]
      exact hfits L hL hchanged data hdata

/-- In every run, after each call that returned Ok, the allow-list is as it should be if and only if the list with
the change that the call made is not larger than what is read. -/
theorem allowlist_consistent_iff (host : Host) (codec : AllowlistCodec) (mayFail : RootCall → Bool) (s : AllowSession)
    (hs : s.Fresh) (evs : List AllowEvent) (store : QuarantineStore)
    (hopen : (host.allowRun codec mayFail s evs).1.store = some store) (op : AllowOp) (faults : List (Fault Errno))
    (hok : (host.allowCall codec mayFail (host.allowRun codec mayFail s evs).1.root store op faults).2 = .ok) :
    host.ListConsistent codec (host.allowRun codec mayFail s (evs ++ [.call op faults])).2 op
        (host.allowRun codec mayFail s evs).1.root (host.allowRun codec mayFail s (evs ++ [.call op faults])).1.root ↔
      op.Fits codec (host.allowRun codec mayFail s evs).1.root.list := by
  obtain ⟨L₀, hL₀⟩ := allowRun_kept host codec mayFail hs evs
  obtain ⟨L, hL, hended⟩ := allowCall_kept host mayFail store op faults hL₀
  rw [allowRun_call _ _ _ _ _ hopen]
  dsimp only
  obtain ⟨rfl, hbefore, hreplaced⟩ := hended hok
  generalize (host.allowRun codec mayFail s evs).1.root = before at *
  generalize host.allowCall codec mayFail before store op faults = after at *
  rw [← readable_iff_fits hL₀.listed hbefore hreplaced]
  constructor
  · intro hconsistent
    obtain ⟨L, hread, -⟩ := hconsistent
    exact readable_of_allowlist hL.listed hread
  · intro hsize
    refine ⟨_, allowlist_run hL.listed hsize, ?_, hL.nodup, hL.length_le, hL.allowed, L₀,
      allowlist_run hL₀.listed hbefore, others_applyTo⟩
    obtain ⟨entries, r', hread, rfl, rfl⟩ := (readAllowlist_total host hL.listed hsize).run fun _ => true
    exact hread

/-! ### A call that nothing disturbs -/

theorem writeAllowlistFile_total {file : AllowlistFile} (hwritten : ∃ data, codec.toVecPretty file = .ok data) :
    (host.writeAllowlistFile codec file).Total (fun _ _ => True) r := by
  obtain ⟨data, hdata⟩ := hwritten
  unfold Host.writeAllowlistFile
  rw [hdata]
  have hrename : rootSystem.apply .renameTmp { r with listTmp := some data } =
      (.ok (), { r with list := some data, listTmp := none }) := rfl
  refine Prog.total_request_bind (S := rootSystem) (c := .truncateTmp) rfl ?_
  refine Prog.total_request_bind (S := rootSystem) (c := .appendTmp data) (rfl : rootSystem.apply (.appendTmp data) _ =
    (.ok (), { r with listTmp := some data })) ?_
  refine Prog.total_request_bind (S := rootSystem) (c := .syncTmp) rfl (Prog.total_request_bind hrename ?_)
  exact Prog.meets_request (fun _ => trivial) nofun nofun fun _ _ => trivial

/-- A hash that is not listed yet is allowed, if there is room for it. -/
theorem allow_total {sha256 : Sha256Digest} {reason : String} {item : Option QuarantineId} {detectionName : Option String}
    {now audited : Now} (hlog : host.CanLog) (h : Listed codec r.list L) (hsize : ListReadable r.list)
    (hnew : L.any (·.sha256 = sha256) = false) (hroom : L.length < maxAllowEntries)
    (hwritable : AllowlistFile.Writable ⟨1, L⟩) :
    (host.allow codec store sha256 reason item detectionName now audited).Total (fun _ _ => True) r := by
  refine Prog.meets_bind.mpr ((readAllowlistFile_total h hsize).mono (fun _ h => h) (fun _ _ h => h) ?_)
  rintro file r' ⟨rfl, rfl⟩
  dsimp only
  rw [if_neg (by simp [hnew])]
  refine Prog.total_ofExcept_bind (a := ()) (if_neg (not_le.mpr hroom)) ?_
  have hwritten := codec.toVecPretty_writable
    ⟨1, L ++ [⟨sha256, now.1, reason, item.map QuarantineId.text, detectionName⟩]⟩ fun e he => ?_
  · refine Prog.meets_bind.mpr ((writeAllowlistFile_total hwritten).mono (fun _ h => h) (fun _ _ h => h) fun _ r₁ _ => ?_)
    exact (inRoot_total (auditEvent_total hlog)).mono (fun _ _ => trivial) (fun _ _ h => h) fun _ _ _ => trivial
  · cases List.mem_append.mp he with
    | inl he => exact hwritable e he
    | inr he =>
      rw [List.mem_singleton.mp he]
      exact now.2

/-- Neither reader accepts a list that is too large. -/
theorem allowlist_tooLarge {data : Bytes} (hdata : r.list = some data) (hsize : maxAllowlistBytes < data.length) :
    (host.allowlist codec).run mayFail [] r =
        (.error (.storeInsecure host.allowlistPath "the allow-list is too large"), r) ∧
      (host.readAllowlist codec).run mayFail [] r =
        (.error (.storeInsecure host.allowlistPath "the allow-list is too large"), r) := by
  -- both readers come to the same check of the bytes
  have hcheck : host.checkAllowlist codec data =
      .error (.storeInsecure host.allowlistPath "the allow-list is too large") := by
    rw [Host.checkAllowlist, refuseIf, if_pos hsize]
    rfl
  have hpresent : r.list.isSome = true := by simp [hdata]
  have hread : rootSystem.apply .readList r = (.ok data, r) := by
    change r.apply .readList = _
    rw [StoreRoot.apply, hdata]
    rfl
  have hrest : ((RootCall.readList.orErr (.io "read" host.allowlistPath)).bind fun data =>
      Prog.ofExcept (host.checkAllowlist codec data)).run mayFail [] r =
        (.error (.storeInsecure host.allowlistPath "the allow-list is too large"), r) := by
    rw [Prog.run_nil_request_bind hread, hcheck]
    rfl
  have hfile : (host.readAllowlistFile codec).run mayFail [] r =
      (.error (.storeInsecure host.allowlistPath "the allow-list is too large"), r) := by
    unfold Host.readAllowlistFile
    change Prog.run mayFail (Prog.bind (S := rootSystem) _ _) [] r = _
    rw [Prog.run_nil_request_bind (S := rootSystem) rfl, if_pos hpresent]
    exact hrest
  constructor
  · change Prog.run mayFail (Prog.bind (S := rootSystem) _ _) [] r = _
    rw [Prog.run_nil_bind, hfile]
    rfl
  · unfold Host.readAllowlist
    change Prog.run mayFail (Prog.bind (S := rootSystem) _ _) [] r = _
    rw [Prog.run_nil_request_bind (S := rootSystem) rfl, if_pos hpresent]
    change Prog.run mayFail (Prog.bind (S := rootSystem) _ _) [] r = _
    rw [Prog.run_nil_request_bind (S := rootSystem) rfl]
    change Prog.run mayFail (Prog.bind (S := rootSystem) _ _) [] r = _
    rw [Prog.run_nil_request_bind hread, hcheck]
    rfl

/-! ### A codec -/

section Table

variable {α : Type} [DecidableEq α] [Encodable α] {table : List (α × Bytes)}

/-- What a table says, and a count of blanks for anything else. -/
def tableOrBlanks (table : List (α × Bytes)) (a : α) : Bytes :=
  match table.find? (·.1 = a) with
  | some p => p.2
  | none => List.replicate (Encodable.encode a) 0x20

def readTableOrBlanks (table : List (α × Bytes)) (data : Bytes) : Option α :=
  match table.find? (·.2 = data) with
  | some p => some p.1
  | none => Encodable.decode data.length

theorem tableOrBlanks_of_find {p : α × Bytes} {a : α} (h : table.find? (·.1 = a) = some p) : tableOrBlanks table a = p.2 := by
  simp only [tableOrBlanks, h]

theorem read_tableOrBlanks (hnodup : (table.map Prod.snd).Nodup) (hbrace : ∀ p ∈ table, p.2.head? = some 0x7B) (a : α) :
    readTableOrBlanks table (tableOrBlanks table a) = some a := by
  cases hfind : table.find? (·.1 = a) with
  | some p =>
    have ha : p.1 = a := by simpa using List.find?_some hfind
    rw [tableOrBlanks_of_find hfind, readTableOrBlanks, find_snd_of_find_fst hnodup hfind]
    exact congrArg some ha
  | none =>
    simp only [tableOrBlanks, hfind]
    have hback : table.find? (·.2 = List.replicate (Encodable.encode a) 0x20) = none := by
      rw [List.find?_eq_none]
      intro p hp heq
      have hhead := hbrace p hp
      rw [of_decide_eq_true heq, List.head?_replicate] at hhead
      split at hhead <;> simp at hhead
    rw [readTableOrBlanks, hback, List.length_replicate, Encodable.encodek]

end Table

deriving instance Encodable for AllowEntry

deriving instance Encodable for AllowlistFile

/-- A codec that knows the text of some lists. -/
def AllowlistCodec.ofTable (table : List (AllowlistFile × Bytes)) (hnodup : (table.map Prod.snd).Nodup)
    (hbrace : ∀ p ∈ table, p.2.head? = some 0x7B) : AllowlistCodec where
  toVecPretty file := .ok (tableOrBlanks table file)
  fromSlice data := (readTableOrBlanks table data).elim (.error "unknown list") .ok
  toVecPretty_writable _ _ := ⟨_, rfl⟩
  fromSlice_toVecPretty file data h := by
    obtain rfl : tableOrBlanks table file = data := Except.ok.inj h
    rw [read_tableOrBlanks hnodup hbrace]
    rfl

/-! ### A sample -/

def restoredReason : String := "restored from quarantine"

@[irreducible] def restoredBytes : Bytes := restoredReason.toUTF8.data.toList

/-- A reason as long as what is read. -/
@[irreducible] def longText : String := String.ofList (List.replicate maxAllowlistBytes 'a')

/-- The sample is allowed for a reason. -/
def allowSample (reason : String) : AllowOp :=
  .allow sampleSha256 reason none (some "Test.Sample") sampleNow sampleNow

def allowedSample (reason : String) : AllowEntry := ⟨sampleSha256, epoch, reason, none, some "Test.Sample"⟩

@[irreducible] def allowedJson (reason : Bytes) : Bytes :=
  ("\x7b\n  \"format_version\": 1,\n  \"entries\": [\n    \x7b\n      \"sha256\": " ++
  "\"9b8db510ef42b8ed54a3712636fda55a4f8cfcd5493e20b74ab00cd4f3979f2d\",\n" ++
  "      \"added_at\": \"1970-01-01T00:00:00Z\",\n      \"reason\": \"").toUTF8.data.toList ++ (reason ++
  ("\",\n      \"detection_name\": \"Test.Sample\"\n    \x7d\n  ]\n\x7d").toUTF8.data.toList)

def allowedTable : List (AllowlistFile × Bytes) :=
  [(⟨1, [allowedSample restoredReason]⟩, allowedJson restoredBytes),
    (⟨1, [allowedSample longText]⟩, allowedJson (List.replicate maxAllowlistBytes 0x61))]

theorem allowedTable_nodup : (allowedTable.map Prod.snd).Nodup := by
  have hne : allowedJson restoredBytes ≠ allowedJson (List.replicate maxAllowlistBytes 0x61) := by
    intro h
    have htake := congrArg (List.take 240) h
    revert htake
    decide +kernel
  simp [allowedTable, hne]

theorem allowedTable_brace : ∀ p ∈ allowedTable, p.2.head? = some 0x7B := by decide +kernel

def allowedCodec : AllowlistCodec := AllowlistCodec.ofTable allowedTable allowedTable_nodup allowedTable_brace

def allowSampleEntry (reason : String) : AuditEntry where
  seq := 1
  time := epoch
  actorUid := 0
  actorSid := none
  onBehalfOf := none
  action := "allow"
  item := none
  path := none
  sha256 := some sampleSha256
  outcome := "ok"
  detail := some reason
  prev := genesis

@[irreducible] def allowSampleLine (reason : Bytes) : Bytes :=
  ("\x7b\"seq\":1,\"time\":\"1970-01-01T00:00:00Z\",\"actor_uid\":0,\"action\":\"allow\"," ++
  "\"sha256\":\"9b8db510ef42b8ed54a3712636fda55a4f8cfcd5493e20b74ab00cd4f3979f2d\",\"outcome\":\"ok\"," ++
  "\"detail\":\"").toUTF8.data.toList ++ (reason ++
  ("\",\"prev\":\"0000000000000000000000000000000000000000000000000000000000000000\"\x7d").toUTF8.data.toList)

def allowLines : List (AuditEntry × Bytes) :=
  [(allowSampleEntry restoredReason, allowSampleLine restoredBytes),
    (allowSampleEntry longText, allowSampleLine (List.replicate maxAllowlistBytes 0x61))]

theorem allowLines_nodup : (allowLines.map Prod.snd).Nodup := by
  have hne : allowSampleLine restoredBytes ≠
      allowSampleLine (List.replicate maxAllowlistBytes 0x61) := by
    intro h
    have htake := congrArg (List.take 240) h
    revert htake
    decide +kernel
  simp [allowLines, hne]

theorem allowSampleLine_newline {reason : Bytes} (h : newline ∉ reason) : newline ∉ allowSampleLine reason := by
  unfold allowSampleLine
  rw [List.mem_append, List.mem_append, not_or, not_or]
  exact ⟨by decide, h, by decide⟩

theorem allowLines_newline : ∀ p ∈ allowLines, newline ∉ p.2 := by
  have hshort : newline ∉ restoredBytes := by decide +kernel
  have hlong : newline ∉ List.replicate maxAllowlistBytes (0x61 : UInt8) :=
    fun h => absurd (List.eq_of_mem_replicate h) (by decide)
  simp [allowLines, allowSampleLine_newline hshort, allowSampleLine_newline hlong]

def allowHost : Host :=
  rootHost sampleDigests sampleRecords
    (EntryCodec.ofTableOrBlanks allowLines allowLines_nodup allowLines_newline (by decide +kernel))

theorem allowHost_canLog : allowHost.CanLog :=
  EntryCodec.ofTableOrBlanks_writes allowLines_nodup allowLines_newline (by decide +kernel)

/-- A store that was just opened. -/
def allowSession : AllowSession := ⟨⟨none, none, sampleState.disk⟩, some newStore⟩

/-- The call on it returns Ok. -/
theorem allowSample_ok (reason : String) : (allowHost.allowCall allowedCodec (fun _ => true) allowSession.root newStore
    (allowSample reason) []).2 = .ok := by
  have hreadable : ListReadable allowSession.root.list := fun data hdata => nomatch hdata
  have hwritable : AllowlistFile.Writable ⟨1, []⟩ := fun e he => absurd he List.not_mem_nil
  have htotal : (allowHost.allowOp allowedCodec newStore (allowSample reason)).Total (fun _ _ => True)
      allowSession.root :=
    allow_total allowHost_canLog (.inl ⟨rfl, rfl⟩) hreadable rfl (by decide) hwritable
  obtain ⟨store, r, hrun, -⟩ := htotal.run fun _ => true
  rw [Host.allowCall, hrun]

theorem applyTo_allowSample (reason : String) : (allowSample reason).applyTo [] = [allowedSample reason] := rfl

/-- The sample is allowed, and both readers list it. -/
theorem allowed_sample_consistent : allowHost.ListConsistent allowedCodec
    (allowHost.allowRun allowedCodec (fun _ => true) allowSession [.call (allowSample restoredReason) []]).2
    (allowSample restoredReason) allowSession.root
    (allowHost.allowRun allowedCodec (fun _ => true) allowSession [.call (allowSample restoredReason) []]).1.root := by
  refine (allowlist_consistent_iff allowHost allowedCodec (fun _ => true) allowSession rfl [] newStore rfl
    (allowSample restoredReason) [] (allowSample_ok _)).mpr ?_
  intro L hL _ data hdata
  have hnone : Listed allowedCodec allowSession.root.list [] := .inl ⟨rfl, rfl⟩
  obtain rfl : [] = L := hnone.unique hL
  have hwritten : allowedCodec.toVecPretty ⟨1, [allowedSample restoredReason]⟩ = .ok (allowedJson restoredBytes) := by
    refine congrArg Except.ok (tableOrBlanks_of_find (p := (⟨1, [allowedSample restoredReason]⟩, allowedJson restoredBytes)) ?_)
    rw [allowedTable, List.find?_cons_of_pos (by simp)]
  rw [applyTo_allowSample, hwritten] at hdata
  rw [← Except.ok.inj hdata]
  decide +kernel

theorem longText_length : longText.length = maxAllowlistBytes := by
  unfold longText
  exact String.length_ofList.trans List.length_replicate

theorem restoredReason_length : restoredReason.length = 24 := by decide

theorem restoredReason_ne : restoredReason ≠ longText := by
  intro h
  have hlength : restoredReason.length = longText.length := congrArg String.length h
  rw [longText_length, restoredReason_length] at hlength
  exact absurd hlength (by decide)

/-- The list with the long reason, as it is written. -/
theorem allowedLong_written :
    allowedCodec.toVecPretty ⟨1, [allowedSample longText]⟩ = .ok (allowedJson (List.replicate maxAllowlistBytes 0x61)) := by
  refine congrArg Except.ok (tableOrBlanks_of_find
    (p := (⟨1, [allowedSample longText]⟩, allowedJson (List.replicate maxAllowlistBytes 0x61))) ?_)
  rw [allowedTable, List.find?_cons_of_neg (by simp [allowedSample, restoredReason_ne]), List.find?_cons_of_pos (by simp)]

theorem allowedJson_length : maxAllowlistBytes < (allowedJson (List.replicate maxAllowlistBytes 0x61)).length := by
  have hend : 0 < ("\",\n      \"detection_name\": \"Test.Sample\"\n    \x7d\n  ]\n\x7d").toUTF8.data.toList.length := by
    decide
  unfold allowedJson
  rw [List.length_append, List.length_append, List.length_replicate]
  omega

/-- If neither reader accepts what a call leaves, the entries are not as they should be after it. -/
theorem not_consistent_of_large {L' : List AllowEntry} {calls : List (AllowOp × CallEnd)} {data : Bytes}
    (h : ListKept codec calls r.list L)
    (hok : (host.allowCall codec mayFail r store op faults).2 = .ok) (hnew : op.applyTo L = L') (hne : L' ≠ L)
    (hdata : codec.toVecPretty ⟨1, L'⟩ = .ok data) (hlarge : maxAllowlistBytes < data.length) :
    ¬ host.ListConsistent codec (calls ++ [(op, (host.allowCall codec mayFail r store op faults).2)]) op r
      (host.allowCall codec mayFail r store op faults).1.root := by
  intro hconsistent
  obtain ⟨L₁, hL₁, hended⟩ := allowCall_kept host mayFail store op faults h
  obtain ⟨rfl, hbefore, hreplaced⟩ := hended hok
  obtain ⟨L₂, hread, -⟩ := hconsistent
  have hfits := (readable_iff_fits h.listed hbefore hreplaced).mp (readable_of_allowlist hL₁.listed hread)
  subst hnew
  exact absurd hlarge (not_lt.mpr (hfits L h.listed hne data hdata))

/-- The same for the first call of a run. -/
theorem not_consistent_of_first {L' : List AllowEntry} {data : Bytes} (hs : s.Fresh) (hopen : s.store = some store)
    (hok : (host.allowCall codec mayFail s.root store op faults).2 = .ok) (hnew : op.applyTo [] = L') (hne : L' ≠ [])
    (hdata : codec.toVecPretty ⟨1, L'⟩ = .ok data) (hlarge : maxAllowlistBytes < data.length) :
    ¬ host.ListConsistent codec (host.allowRun codec mayFail s [.call op faults]).2 op s.root
      (host.allowRun codec mayFail s [.call op faults]).1.root := by
  obtain ⟨L, hkept⟩ := allowRun_kept host codec mayFail hs []
  have hnone : s.root.list = none := hs
  obtain rfl : L = [] := hkept.listed.unique (.inl ⟨hnone, rfl⟩)
  have hrun : host.allowRun codec mayFail s ([] ++ [.call op faults]) = _ :=
    allowRun_call host codec mayFail op faults hopen
  rw [List.nil_append] at hrun
  rw [hrun]
  exact not_consistent_of_large hkept hok hnew hne hdata hlarge

/-- A reason that is too long is allowed, and then neither reader accepts the list. -/
theorem long_reason_unlistable :
    (allowHost.allowCall allowedCodec (fun _ => true) allowSession.root newStore (allowSample longText) []).2 = .ok ∧
      ¬ allowHost.ListConsistent allowedCodec
        (allowHost.allowRun allowedCodec (fun _ => true) allowSession [.call (allowSample longText) []]).2
        (allowSample longText) allowSession.root
        (allowHost.allowRun allowedCodec (fun _ => true) allowSession [.call (allowSample longText) []]).1.root :=
  ⟨allowSample_ok longText, not_consistent_of_first rfl rfl (allowSample_ok longText) (applyTo_allowSample longText)
    (List.cons_ne_nil _ _) allowedLong_written allowedJson_length⟩

end AbyssalWarden

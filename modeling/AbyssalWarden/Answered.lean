import AbyssalWarden.Server

/-! Which requests are answered. A response that is too long for a frame is not replaced by a shorter one: the
connection is closed. How long it gets is said by what the request lists. -/
namespace AbyssalWarden

open Json

/-! ### The length of a response -/

def idSize (id : UInt64) : ℕ := size (nat id.toNat)

theorem idSize_le (id : UInt64) : idSize id ≤ 80 := by
  have hlt := id.toNat_lt
  exact size_nat_le (by decide) (by omega : id.toNat < 10 ^ 20)

/-- The bytes of a response: those around the reply, the name of the variant, and its fields. -/
def responseSize (id : UInt64) (name : String) (fields : List (String × Json)) : ℕ :=
  38 + idSize id + strSize name + joinedSize (fields.map fieldSize)

theorem Reply.parts_ne_nil (r : Reply) : r.parts.2 ≠ [] := by
  cases r <;> exact List.cons_ne_nil _ _

theorem encode_response (id : UInt64) (r : Reply) :
    (Json.encode (Response.new id r).toJson).length = responseSize id r.parts.1 r.parts.2 := by
  have htype : strSize "type" = 6 := by decide
  have hversion : fieldSize ("version", nat 1) = 11 := rfl
  have hid : fieldSize ("id", nat id.toNat) = 5 + idSize id := by
    have hname : strSize "id" = 4 := by decide
    rw [fieldSize, hname, idSize]
  have hreply : fieldSize ("reply", r.toJson) = 18 + strSize r.parts.1 + joinedSize (r.parts.2.map fieldSize) := by
    have hname : strSize "reply" = 7 := by decide
    have hne : r.parts.2.map fieldSize ≠ [] := by simpa using r.parts_ne_nil
    rw [fieldSize, hname, Reply.toJson, size_obj, List.map_cons, joinedSize_cons _ hne, fieldSize, htype,
      size_str]
    omega
  have hall := size_obj [("version", nat 1), ("id", nat id.toNat), ("reply", r.toJson)]
  rw [List.map_cons, List.map_cons, List.map_cons, List.map_nil, hversion, hid, hreply] at hall
  change size (.obj [("version", nat 1), ("id", nat id.toNat), ("reply", r.toJson)]) = _
  rw [hall, responseSize, joinedSize]
  simp only [List.sum_cons, List.sum_nil, List.length_cons, List.length_nil]
  omega

/-- A reply whose times can be written, and which is short enough. -/
def ReplyFits (id : UInt64) (r : Reply) : Prop :=
  (∀ t ∈ r.times, t.Rfc3339) ∧ responseSize id r.parts.1 r.parts.2 ≤ maxResponse

/-- A rejection with a message that is short enough. -/
def ErrorFits (id : UInt64) (code : ErrorCode) (message : String) : Prop :=
  63 + idSize id + strSize code.text + strSize message ≤ maxResponse

def DoneFits (id : UInt64) (message : String) : Prop := 54 + idSize id + strSize message ≤ maxResponse

theorem errorFits_iff (id : UInt64) (r : Rejection) :
    ReplyFits id (.error r.code r.message) ↔ ErrorFits id r.code r.message := by
  have hname : strSize "error" = 7 := by decide
  have hcode : strSize "code" = 6 := by decide
  have hmessage : strSize "message" = 9 := by decide
  have hsize : responseSize id "error" [("code", .str r.code.text), ("message", .str r.message)] =
      63 + idSize id + strSize r.code.text + strSize r.message := by
    simp only [responseSize, List.map_cons, List.map_nil, fieldSize, size_str, joinedSize, List.sum_cons,
      List.sum_nil, List.length_cons, List.length_nil, hname, hcode, hmessage]
    omega
  rw [ReplyFits, Reply.parts, hsize]
  exact and_iff_right fun t ht => absurd ht List.not_mem_nil

theorem doneFits_iff (id : UInt64) (message : String) : ReplyFits id (.done message) ↔ DoneFits id message := by
  have hname : strSize "done" = 6 := by decide
  have hmessage : strSize "message" = 9 := by decide
  have hsize : responseSize id "done" [("message", .str message)] = 54 + idSize id + strSize message := by
    simp only [responseSize, List.map_cons, List.map_nil, fieldSize, size_str, joinedSize, List.sum_cons,
      List.sum_nil, List.length_cons, List.length_nil, hname, hmessage]
    omega
  rw [ReplyFits, Reply.parts, hsize]
  exact and_iff_right fun t ht => absurd ht List.not_mem_nil

theorem reportFits_iff (id : UInt64) (job : Uuid) (v : Json) :
    ReplyFits id (.report job v) ↔ 62 + idSize id + strSize job.text + size v ≤ maxResponse := by
  have hname : strSize "report" = 8 := by decide
  have hjob : strSize "job" = 5 := by decide
  have hsize : responseSize id "report" [("job", .str job.text), ("report", v)] =
      62 + idSize id + strSize job.text + size v := by
    simp only [responseSize, List.map_cons, List.map_nil, fieldSize, size_str, joinedSize,
      List.sum_cons, List.sum_nil, List.length_cons, List.length_nil, hname, hjob]
    omega
  rw [ReplyFits, Reply.parts, hsize]
  exact and_iff_right fun t ht => absurd ht List.not_mem_nil

/-- A response is written just when it fits and the client takes it. -/
theorem writeFrame_ok_iff (id : UInt64) (r : Reply) (fault : Option String) :
    (∃ frame, writeFrame (Response.new id r) maxResponse fault = .ok frame) ↔
      ReplyFits id r ∧ fault = none := by
  have hmax : maxResponse < 2 ^ 32 := by decide
  rw [writeFrame, Response.toVec, ReplyFits, ← encode_response]
  by_cases htimes : ∀ t ∈ r.times, t.Rfc3339
  · have hreply : ∀ t ∈ (Response.new id r).reply.times, t.Rfc3339 := htimes
    rw [if_pos hreply]
    simp only
    by_cases hlong : (Json.encode (Response.new id r).toJson).length > maxResponse
    · rw [if_pos hlong]
      simp only [reduceCtorEq, exists_false, false_iff]
      omega
    · rw [if_neg hlong, if_neg (by omega)]
      cases fault with
      | none => simpa [Nat.le_of_not_lt hlong] using htimes
      | some e => simp
  · have hreply : ¬ ∀ t ∈ (Response.new id r).reply.times, t.Rfc3339 := htimes
    rw [if_neg hreply]
    simp [htimes]

/-! ### What each operation lists -/

def jobSize (j : JobSummary) : ℕ := size (.obj j.fields)

def scheduleSize (s : ScheduleInfo) : ℕ := size (.obj s.fields)

def itemSize (i : QuarantineItem) : ℕ := size (.obj i.fields)

/-- The only text of a refused job that is not fixed is why its record could not be saved. -/
def SubmitFits (ctx : Ctx) (world : Surroundings) (id : UInt64) : Prop :=
  ∀ e, world.unsaved = some e → ctx.service.manager.shutdown = false →
    ctx.service.manager.queue.length < ctx.cfg.maxQueuedJobs → ErrorFits id .internal e

/-- A message, or the text of a failure. -/
def TextFits (id : UInt64) : Except Rejection Reply → Prop
  | .ok (.done message) => DoneFits id message
  | .ok _ => True
  | .error r => ErrorFits id r.code r.message

/-- What the operation lists is short enough for a frame, and its times can be written. -/
def Fits (lib : Serde) (ctx : Ctx) (peer : Peer) (world : Surroundings) (id : UInt64) : Op → Prop
  | .ping | .cancel _ => True
  | .scan _ _ _ _ | .systemCheck _ => SubmitFits ctx world id
  | .runSchedule name => (ctx.cfg.schedules.find? (·.name = name)).isSome → SubmitFits ctx world id
  -- the numbers are what a response writes around the parts that vary
  | .status =>
    let s := ctx.status peer.caller
    s.startedAt.Rfc3339 ∧ (∀ a ∈ s.lastAudit, a.checkedAt.Rfc3339) ∧
      46 + idSize id + joinedSize (s.fields.map fieldSize) ≤ maxResponse
  | .jobs =>
    let l := ctx.service.manager.list fun j => canAccessJob peer.caller j.owner
    (∀ j ∈ l, ∀ t ∈ j.times, t.Rfc3339) ∧ 53 + idSize id + joinedSize (l.map jobSize) ≤ maxResponse
  | .job job => ∀ j, ctx.service.manager.jobs[job]? = some j → canAccessJob peer.caller j.owner →
    (∀ t ∈ j.times, t.Rfc3339) ∧ 43 + idSize id + joinedSize (j.fields.map fieldSize) ≤ maxResponse
  | .report job => ∀ j, ctx.service.manager.jobs[job]? = some j → canAccessJob peer.caller j.owner →
    (∀ v, ctx.service.manager.report lib job world.reportUnread = .ok (some v) →
      62 + idSize id + strSize job.text + size v ≤ maxResponse) ∧
    (∀ e, ctx.service.manager.report lib job world.reportUnread = .error e →
      ErrorFits id .internal (sanitize e))
  | .schedules =>
    ∃ l, scheduleInfo ctx.cfg (ctx.service.scheduleState world.schedulesUnread) world.now = some l ∧
      (∀ s ∈ l, s.nextRun.Rfc3339 ∧ ∀ t ∈ s.lastRun, t.Rfc3339) ∧
      63 + idSize id + joinedSize (l.map scheduleSize) ≤ maxResponse
  | .quarantineList =>
    world.storeExists = true →
    (∀ e, world.opened = .error e → ErrorFits id .internal (sanitize e)) ∧
    (world.opened = .ok () →
      (∀ e, world.listed = .error e → ErrorFits id .internal (sanitize e)) ∧
      (∀ records, world.listed = .ok records →
        (∀ r ∈ records, r.createdAt.Rfc3339) ∧
        60 + idSize id + joinedSize (records.map fun r => itemSize r.item) ≤ maxResponse))
  | .quarantineRestore qid allow => TextFits id (Ctx.quarantineRestore world qid allow)
  | .quarantineDelete qid => TextFits id (Ctx.quarantineDelete world qid)
  | .verifyAudit => world.checked.checkedAt.Rfc3339 ∧
    45 + idSize id + joinedSize (world.checked.fields.map fieldSize) ≤ maxResponse

/-- The reply of an answer. -/
def replyOf : Except Rejection Reply → Reply
  | .ok reply => reply
  | .error r => .error r.code r.message

theorem respond_eq (id : UInt64) (answer : Except Rejection Reply) :
    Ctx.respond id answer = Response.new id (replyOf answer) := by
  cases answer <;> rfl

section Sizes

variable {lib : Serde} {ctx : Ctx} {peer : Peer} {world : Surroundings} {id : UInt64} {job : Uuid}

theorem code_size_le (code : ErrorCode) : strSize code.text ≤ 18 := by
  cases code <;> decide

theorem errorFits_short {code : ErrorCode} {message : String} (h : strSize message ≤ 1000) :
    ErrorFits id code message := by
  have hid := idSize_le id
  have hcode := code_size_le code
  have hmax : 1161 ≤ maxResponse := by decide
  rw [ErrorFits]
  omega

theorem uuid_size_le (job : Uuid) : strSize job.text ≤ 434 := by
  have hdigits : (hexDigits 32 job.toNat).length = 32 := by
    rw [hexDigits, List.length_map, List.length_reverse, List.length_range]
  have hlength : job.text.toList.length = 36 := by
    simp [Uuid.text, hdigits]
  have hle := strSize_le job.text
  omega

theorem jobStarted_fits (job : Uuid) : ReplyFits id (.jobStarted job) := by
  have hname : strSize "job_started" = 13 := by decide
  have hjob : strSize "job" = 5 := by decide
  have hid := idSize_le id
  have huuid := uuid_size_le job
  have hmax : 1161 ≤ maxResponse := by decide
  refine ⟨fun t ht => absurd ht List.not_mem_nil, ?_⟩
  simp only [Reply.parts, responseSize, List.map_cons, List.map_nil, fieldSize, size_str, joinedSize,
    List.sum_cons, List.sum_nil, List.length_cons, List.length_nil, hname, hjob]
  omega

theorem pong_fits : ReplyFits id (.pong serverVersion) := by
  have hname : strSize "pong" = 6 := by decide
  have hkey : strSize "server_version" = 16 := by decide
  have hversion : strSize serverVersion = 7 := by decide
  have hid := idSize_le id
  have hmax : 1161 ≤ maxResponse := by decide
  refine ⟨fun t ht => absurd ht List.not_mem_nil, ?_⟩
  simp only [Reply.parts, responseSize, List.map_cons, List.map_nil, fieldSize, size_str, joinedSize,
    List.sum_cons, List.sum_nil, List.length_cons, List.length_nil, hname, hkey, hversion]
  omega

theorem cancelling_fits (job : Uuid) : DoneFits id ("cancelling job " ++ job.text) := by
  have hdigits : (hexDigits 32 job.toNat).length = 32 := by
    rw [hexDigits, List.length_map, List.length_reverse, List.length_range]
  have hlength : ("cancelling job " ++ job.text).toList.length = 51 := by
    simp [Uuid.text, hdigits]
  have hle := strSize_le ("cancelling job " ++ job.text)
  have hid := idSize_le id
  have hmax : 1161 ≤ maxResponse := by decide
  rw [DoneFits]
  omega

/-- A reply with one field. -/
theorem responseSize_one (name key : String) (v : Json) {n k : ℕ} (hname : strSize name = n)
    (hkey : strSize key = k) : responseSize id name [(key, v)] = 39 + idSize id + n + k + size v := by
  simp only [responseSize, List.map_cons, List.map_nil, fieldSize, joinedSize, List.sum_cons, List.sum_nil,
    List.length_cons, List.length_nil, hname, hkey]
  omega

theorem list_fits {name key : String} {items : List Json} {n k : ℕ} (hname : strSize name = n)
    (hkey : strSize key = k) : responseSize id name [(key, .arr items)] =
      41 + idSize id + n + k + joinedSize (items.map size) := by
  rw [responseSize_one name key _ hname hkey, size_arr]
  omega

end Sizes

section Operations

variable {lib : Serde} {ctx : Ctx} {peer : Peer} {world : Surroundings} {id : UInt64}

/-- What was executed is answered with something that fits. -/
def Answers (id : UInt64) (executed : Executed) : Prop :=
  ∃ answer, executed = some answer ∧ ReplyFits id (replyOf answer)

theorem answers_some {answer : Except Rejection Reply} :
    Answers id (some answer) ↔ ReplyFits id (replyOf answer) := by
  constructor
  · rintro ⟨a, ha, hfits⟩
    obtain rfl := Option.some.inj ha
    exact hfits
  · intro h
    exact ⟨answer, rfl, h⟩

theorem answers_error {r : Rejection} : Answers id (some (.error r)) ↔ ErrorFits id r.code r.message := by
  rw [answers_some, replyOf, errorFits_iff]

theorem notFound_answers : Answers id (some (.error notFound)) := by
  rw [answers_error]
  exact errorFits_short (by decide)

/-- Why a submission is refused. -/
theorem refusal_fits {m : Manager} (owner : String) (schedule : Option String) (spec : JobSpec) :
    (∀ r, (m.submit ctx.cfg owner schedule spec world.id world.now world.unsaved).1 = .error r →
      ErrorFits id r.code r.message) ↔
    ∀ e, world.unsaved = some e → m.shutdown = false → m.queue.length < ctx.cfg.maxQueuedJobs →
      ErrorFits id .internal e := by
  rw [Manager.submit]
  by_cases hdown : m.shutdown
  · rw [if_pos hdown, hdown]
    simp only [Bool.true_eq_false, false_implies, implies_true, Except.error.injEq, forall_eq', iff_true]
    exact errorFits_short (by decide)
  · rw [if_neg hdown]
    have hup : m.shutdown = false := by simpa using hdown
    by_cases hfull : m.queue.length ≥ ctx.cfg.maxQueuedJobs
    · rw [if_pos hfull]
      have hnot : ¬ m.queue.length < ctx.cfg.maxQueuedJobs := Nat.not_lt.mpr hfull
      simp only [hnot, false_implies, implies_true, Except.error.injEq, forall_eq', iff_true]
      exact errorFits_short (by decide)
    · rw [if_neg hfull]
      have hlt : m.queue.length < ctx.cfg.maxQueuedJobs := Nat.lt_of_not_ge hfull
      simp only [JobStore.saveJob]
      cases hfault : world.unsaved with
      | none => simp only [reduceCtorEq, false_implies, implies_true]
      | some e => simp only [Option.some.injEq, Except.error.injEq, hup, hlt, true_implies, forall_eq']

theorem submit_fits {spec : JobSpec} :
    Answers id (ctx.submit peer world spec).1 ↔ SubmitFits ctx world id := by
  rw [SubmitFits, ← refusal_fits peer.caller.principal none spec, Ctx.submit]
  generalize ctx.service.manager.submit ctx.cfg peer.caller.principal none spec world.id world.now
    world.unsaved = submitted
  obtain ⟨result, m⟩ := submitted
  cases result with
  | error r =>
    simp only [Except.error.injEq, forall_eq']
    exact answers_error
  | ok job =>
    simp only [reduceCtorEq, false_implies, implies_true, iff_true]
    exact answers_some.mpr (jobStarted_fits job)

theorem runSchedule_fits {name : String} : Answers id (ctx.runSchedule world name).1 ↔
    ((ctx.cfg.schedules.find? (·.name = name)).isSome → SubmitFits ctx world id) := by
  rw [Ctx.runSchedule]
  cases hfind : ctx.cfg.schedules.find? (·.name = name) with
  | none =>
    simp only [Option.isSome_none, Bool.false_eq_true, false_implies, iff_true]
    exact answers_error.mpr (errorFits_short (by decide))
  | some s =>
    simp only [Option.isSome_some, true_implies]
    rw [SubmitFits, ← refusal_fits ctx.service.principal (some s.name) s.spec,
      Service.start]
    generalize ctx.service.manager.submit ctx.cfg ctx.service.principal (some s.name) s.spec world.id world.now
      world.unsaved = submitted
    obtain ⟨result, m⟩ := submitted
    cases result with
    | error r =>
      simp only [Except.error.injEq, forall_eq']
      exact answers_error
    | ok job =>
      simp only [reduceCtorEq, false_implies, implies_true, iff_true]
      exact answers_some.mpr (jobStarted_fits job)

theorem cancel_fits {job : Uuid} : Answers id (ctx.cancel world job).1 := by
  rw [Ctx.cancel, Manager.cancel]
  by_cases hrunning : ctx.service.manager.cancels.contains job
  · rw [if_pos hrunning]
    exact answers_some.mpr ((doneFits_iff id _).mpr (cancelling_fits job))
  · rw [if_neg hrunning]
    by_cases hqueued : ctx.service.manager.queue.contains job
    · rw [if_pos hqueued]
      exact answers_some.mpr ((doneFits_iff id _).mpr (cancelling_fits job))
    · rw [if_neg hqueued]
      exact answers_error.mpr (errorFits_short (by decide))

theorem list_reply_fits {r : Reply} {name key : String} {items : List Json} {n k : ℕ}
    (hparts : r.parts = (name, [(key, .arr items)])) (hname : strSize name = n) (hkey : strSize key = k) :
    ReplyFits id r ↔ (∀ t ∈ r.times, t.Rfc3339) ∧
      41 + n + k + idSize id + joinedSize (items.map size) ≤ maxResponse := by
  rw [ReplyFits, hparts, list_fits hname hkey]
  have hsum : 41 + idSize id + n + k = 41 + n + k + idSize id := by omega
  rw [hsum]

theorem record_reply_fits {r : Reply} {name : String} {fields : List (String × Json)} {n : ℕ}
    (hparts : r.parts = (name, fields)) (hname : strSize name = n) :
    ReplyFits id r ↔ (∀ t ∈ r.times, t.Rfc3339) ∧
      38 + n + idSize id + joinedSize (fields.map fieldSize) ≤ maxResponse := by
  rw [ReplyFits, hparts, responseSize, hname]
  have hsum : 38 + idSize id + n = 38 + n + idSize id := by omega
  rw [hsum]

theorem jobs_fits : Answers id (ctx.execute lib peer world .jobs).1 ↔ Fits lib ctx peer world id .jobs := by
  have hname : strSize "jobs" = 6 := by decide
  rw [Ctx.execute, answers_some, replyOf, list_reply_fits rfl hname hname, Fits, List.map_map]
  simp only [Reply.times, List.mem_flatMap, forall_exists_index, and_imp]
  constructor
  · rintro ⟨htimes, hsize⟩
    exact ⟨fun j hj t ht => htimes t j hj ht, hsize⟩
  · rintro ⟨htimes, hsize⟩
    exact ⟨fun t j hj ht => htimes j hj t ht, hsize⟩

theorem status_fits : Answers id (ctx.execute lib peer world .status).1 ↔
    Fits lib ctx peer world id .status := by
  have hname : strSize "status" = 8 := by decide
  have hparts : (Reply.status (ctx.status peer.caller)).parts = ("status", (ctx.status peer.caller).fields) :=
    rfl
  rw [Ctx.execute, answers_some, replyOf, record_reply_fits hparts hname, Fits, Reply.times]
  generalize ctx.status peer.caller = s
  cases s.lastAudit <;> simp [and_assoc]

theorem job_fits {job : Uuid} : Answers id (ctx.execute lib peer world (.job job)).1 ↔
    Fits lib ctx peer world id (.job job) := by
  have hname : strSize "job" = 5 := by decide
  rw [Ctx.execute, Fits]
  cases ctx.service.manager.jobs[job]? with
  | none => simpa using notFound_answers
  | some j =>
    by_cases hsee : canAccessJob peer.caller j.owner = true
    · simp only [hsee, if_true, Option.some.injEq, forall_eq', true_implies]
      have hparts : (Reply.job j).parts = ("job", j.fields) := rfl
      rw [answers_some, replyOf, record_reply_fits hparts hname, Reply.times]
    · simp only [hsee, Bool.false_eq_true, if_false, Option.some.injEq, forall_eq', false_implies, iff_true]
      exact notFound_answers

theorem report_fits {job : Uuid} : Answers id (ctx.execute lib peer world (.report job)).1 ↔
    Fits lib ctx peer world id (.report job) := by
  rw [Ctx.execute, Fits]
  cases ctx.service.manager.jobs[job]? with
  | none => simpa using notFound_answers
  | some j =>
    by_cases hsee : canAccessJob peer.caller j.owner = true
    · simp only [hsee, if_true, Option.some.injEq, forall_eq', true_implies]
      cases ctx.service.manager.report lib job world.reportUnread with
      | error e =>
        simp only [reduceCtorEq, false_implies, implies_true, true_and, Except.error.injEq, forall_eq']
        exact answers_error
      | ok found =>
        cases found with
        | none =>
          simp only [Except.ok.injEq, reduceCtorEq, false_implies, implies_true, and_self, iff_true]
          exact answers_error.mpr (errorFits_short (by decide))
        | some v =>
          simp only [Except.ok.injEq, Option.some.injEq, forall_eq', reduceCtorEq, false_implies,
            implies_true, and_true]
          exact answers_some.trans (reportFits_iff id job v)
    · simp only [hsee, Bool.false_eq_true, if_false, Option.some.injEq, forall_eq', false_implies, iff_true]
      exact notFound_answers

theorem schedules_fits : Answers id (ctx.execute lib peer world .schedules).1 ↔
    Fits lib ctx peer world id .schedules := by
  have hname : strSize "schedules" = 11 := by decide
  rw [Ctx.execute, Fits]
  cases scheduleInfo ctx.cfg (ctx.service.scheduleState world.schedulesUnread) world.now with
  | none => simp [Answers]
  | some l =>
    have hparts : (Reply.schedules l).parts =
        ("schedules", [("schedules", .arr (l.map fun s => .obj s.fields))]) := rfl
    rw [Option.map_some, answers_some, replyOf, list_reply_fits hparts hname hname, Reply.times, List.map_map]
    simp only [Option.some.injEq, exists_eq_left', List.mem_flatMap, List.mem_cons, Option.mem_toList,
      forall_exists_index, and_imp]
    constructor
    · rintro ⟨htimes, hsize⟩
      exact ⟨fun s hs => ⟨htimes _ s hs (.inl rfl), fun t ht => htimes t s hs (.inr ht)⟩, hsize⟩
    · rintro ⟨htimes, hsize⟩
      refine ⟨fun t s hs ht => ?_, hsize⟩
      rcases ht with rfl | ht
      · exact (htimes s hs).1
      · exact (htimes s hs).2 t ht

theorem quarantine_reply_fits {records : List QuarantineRecord} :
    ReplyFits id (.quarantine (records.map QuarantineRecord.item)) ↔
      (∀ r ∈ records, r.createdAt.Rfc3339) ∧
        60 + idSize id + joinedSize (records.map fun r => itemSize r.item) ≤ maxResponse := by
  have hname : strSize "quarantine" = 12 := by decide
  have hkey : strSize "items" = 7 := by decide
  have hparts : (Reply.quarantine (records.map QuarantineRecord.item)).parts =
      ("quarantine", [("items", .arr ((records.map QuarantineRecord.item).map fun i => .obj i.fields))]) := rfl
  rw [list_reply_fits hparts hname hkey, Reply.times, List.map_map, List.map_map, List.map_map,
    List.forall_mem_map]
  rfl

theorem quarantineList_fits : Answers id (ctx.execute lib peer world .quarantineList).1 ↔
    Fits lib ctx peer world id .quarantineList := by
  rw [Ctx.execute, Fits, Ctx.quarantineList]
  cases world.storeExists with
  | false =>
    simp only [Bool.false_eq_true, if_false, false_implies, iff_true]
    have hempty : ReplyFits id (.quarantine ([].map QuarantineRecord.item)) := by
      have hid := idSize_le id
      have hmax : 1161 ≤ maxResponse := by decide
      rw [quarantine_reply_fits]
      refine ⟨fun r hr => absurd hr List.not_mem_nil, ?_⟩
      simp only [List.map_nil, joinedSize, List.sum_nil, List.length_nil]
      omega
    exact answers_some.mpr hempty
  | true =>
    simp only [if_true, true_implies]
    cases world.opened with
    | error e =>
      simp only [Except.error.injEq, forall_eq', reduceCtorEq, false_implies, and_true]
      exact answers_error
    | ok u =>
      simp only [reduceCtorEq, false_implies, implies_true, true_and, true_implies]
      cases world.listed with
      | error e =>
        simp only [Except.error.injEq, forall_eq', reduceCtorEq, false_implies, implies_true, and_true]
        exact answers_error
      | ok records =>
        simp only [reduceCtorEq, false_implies, implies_true, true_and, Except.ok.injEq, forall_eq']
        exact answers_some.trans quarantine_reply_fits

/-- An answer of text. -/
theorem text_fits {answer : Except Rejection Reply} (h : ∀ r, answer = .ok r → ∃ m, r = .done m) :
    Answers id (some answer) ↔ TextFits id answer := by
  cases answer with
  | error r => exact answers_error
  | ok r =>
    obtain ⟨m, rfl⟩ := h r rfl
    exact answers_some.trans (doneFits_iff id m)

theorem quarantineRestore_done {qid : String} {allow : Bool} (r : Reply)
    (h : Ctx.quarantineRestore world qid allow = .ok r) : ∃ m, r = .done m := by
  simp only [Ctx.quarantineRestore, except_bind_eq_ok] at h
  obtain ⟨_, _, qid', _, target, _, h⟩ := h
  split at h
  · simp only [except_bind_eq_ok] at h
    obtain ⟨_, _, _, _, h⟩ := h
    exact ⟨_, (Except.ok.inj h).symm⟩
  · exact ⟨_, (Except.ok.inj h).symm⟩

theorem quarantineDelete_done {qid : String} (r : Reply) (h : Ctx.quarantineDelete world qid = .ok r) :
    ∃ m, r = .done m := by
  simp only [Ctx.quarantineDelete, except_bind_eq_ok] at h
  obtain ⟨_, _, qid', _, _, _, h⟩ := h
  exact ⟨_, (Except.ok.inj h).symm⟩

theorem verifyAudit_fits : Answers id (ctx.execute lib peer world .verifyAudit).1 ↔
    Fits lib ctx peer world id .verifyAudit := by
  have hname : strSize "audit" = 7 := by decide
  have hparts : (Reply.audit world.checked).parts = ("audit", world.checked.fields) := rfl
  rw [Ctx.execute, answers_some, replyOf, record_reply_fits hparts hname, Fits, Reply.times]
  simp

/-- An operation is answered just when what it lists fits. -/
theorem fits_iff (op : Op) : Answers id (ctx.execute lib peer world op).1 ↔ Fits lib ctx peer world id op := by
  cases op with
  | ping => exact iff_of_true (answers_some.mpr pong_fits) trivial
  | status => exact status_fits
  | scan paths heuristics noArchives quarantine => exact submit_fits
  | systemCheck heuristics => exact submit_fits
  | jobs => exact jobs_fits
  | job job => exact job_fits
  | report job => exact report_fits
  | cancel job =>
    refine iff_of_true ?_ trivial
    rw [Ctx.execute]
    split
    · split
      · exact cancel_fits
      · exact notFound_answers
    · exact notFound_answers
  | schedules => exact schedules_fits
  | runSchedule name => exact runSchedule_fits
  | quarantineList => exact quarantineList_fits
  | quarantineRestore qid allow => exact text_fits quarantineRestore_done
  | quarantineDelete qid => exact text_fits quarantineDelete_done
  | verifyAudit => exact verifyAudit_fits

end Operations

/-! ### A whole connection -/

section Connection

variable {lib : Serde} {n : ℕ} {peer : Option Peer} {turns : List Turn}

/-- The request is answered before anything else happens: one response that carries its identifier is written,
and not a second one. -/
def AnsweredNext (req : Request) (after : List WireEvent) : Prop :=
  ∃ r frame rest, after = .sent r frame :: rest ∧ r.id = req.id ∧ ∀ r' frame', rest.head? ≠ some (.sent r' frame')

/-- What follows a request in `converse`. -/
def answer (lib : Serde) (n : ℕ) (turn : Turn) (req : Request) (rest : List Turn) : Option Peer → List WireEvent
  | none => [.closed]
  | some p =>
    match (turn.ctx.dispatch lib p turn.world req).1 with
    | none => [.closed]
    | some r =>
      match writeFrame r maxResponse turn.fault with
      | .error _ => [.closed]
      | .ok frame => .sent r frame :: converse lib n (some p) rest

theorem converse_ok {turn : Turn} {req : Request} (h : turn.frame = .ok req) :
    converse lib (n + 1) peer (turn :: turns) =
      .received turn req (peer.or turn.identified) :: answer lib n turn req turns (peer.or turn.identified) := by
  rw [converse, h]
  simp only
  cases peer.or turn.identified <;> rfl

/-- Nothing is received on a connection whose frame was no request. -/
theorem converse_error {turn : Turn} {e : FrameError} (h : turn.frame = .error e) (t : Turn) (req : Request)
    (p : Option Peer) : .received t req p ∉ converse lib (n + 1) peer (turn :: turns) := by
  rw [converse, h]
  cases e with
  | closed => simp
  | io e => simp
  | _ =>
    simp only
    split <;> simp

/-- Nothing is written before the next frame is read. -/
theorem converse_quiet (r : Response) (frame : Bytes) :
    (converse lib n peer turns).head? ≠ some (.sent r frame) := by
  cases n with
  | zero => simp [converse]
  | succ n =>
    cases turns with
    | nil => simp [converse]
    | cons turn rest =>
      rw [converse]
      split <;> simp

/-- A further request is received after the answer to this one. -/
theorem answer_received {turn t : Turn} {req q : Request} {p p' : Option Peer} {before after : List WireEvent}
    (h : answer lib n turn req turns p' = before ++ .received t q p :: after) :
    ∃ p'' before', converse lib n p'' turns = before' ++ .received t q p :: after := by
  have hend : [.closed] ≠ before ++ .received t q p :: after := by
    intro heq
    have hmem : WireEvent.received t q p ∈ [.closed] := by
      rw [heq]
      exact List.mem_append_right _ (List.mem_cons_self ..)
    simp at hmem
  unfold answer at h
  split at h
  · exact absurd h hend
  · rename_i peer
    split at h
    · exact absurd h hend
    · split at h
      · exact absurd h hend
      · cases before with
        | nil => cases (List.cons.inj h).1
        | cons e before => exact ⟨some peer, before, (List.cons.inj h).2⟩

theorem dispatch_eq {ctx : Ctx} {world : Surroundings} {req : Request} {p : Peer}
    (hvalid : req.validate lib.debug = .ok ()) (hauth : authorize p.caller req.op = .ok ()) :
    ctx.dispatch lib p world req =
      ((ctx.execute lib p world req.op).1.map (Ctx.respond req.id), (ctx.execute lib p world req.op).2) := by
  rw [Ctx.dispatch, hvalid]
  simp only [Except.bind, hauth]

/-- One round: the request is dispatched, and answered when it fits. -/
theorem round_answered {turn : Turn} {req : Request} {p : Peer} (hvalid : req.validate lib.debug = .ok ())
    (hauth : authorize p.caller req.op = .ok ()) : AnsweredNext req (answer lib n turn req turns (some p)) ↔
      Fits lib turn.ctx p turn.world req.id req.op ∧ turn.fault = none := by
  rw [answer, dispatch_eq hvalid hauth, ← fits_iff]
  have hclosed : ¬ AnsweredNext req [.closed] := by
    rintro ⟨r, frame, rest, heq, -⟩
    cases heq
  cases (turn.ctx.execute lib p turn.world req.op).1 with
  | none => simpa [Answers] using hclosed
  | some answer =>
    rw [Option.map_some, answers_some, respond_eq, ← writeFrame_ok_iff]
    simp only
    cases writeFrame (Response.new req.id (replyOf answer)) maxResponse turn.fault with
    | error e => simpa using hclosed
    | ok frame =>
      simp only [Except.ok.injEq, exists_eq', iff_true]
      exact ⟨_, frame, _, rfl, rfl, fun r' frame' => converse_quiet r' frame'⟩

/-- What follows a request on a connection is what follows it in its round. -/
theorem received_answer {turn : Turn} {req : Request} {p : Option Peer} {before after : List WireEvent}
    (h : converse lib n peer turns = before ++ .received turn req p :: after) :
    ∃ n turns, after = answer lib n turn req turns p := by
  have hin : .received turn req p ∈ before ++ .received turn req p :: after :=
    List.mem_append_right _ (List.mem_cons_self ..)
  induction n generalizing peer turns before with
  | zero => simp [converse, ← h] at hin
  | succ n ih =>
    cases turns with
    | nil => simp [converse, ← h] at hin
    | cons first rest =>
      -- a frame that cannot be read ends the conversation
      cases hframe : first.frame with
      | error e => exact absurd (h ▸ hin) (converse_error hframe _ _ _)
      | ok q =>
        rw [converse_ok hframe] at h
        cases before with
        | nil =>
          obtain ⟨hhead, hafter⟩ := List.cons.inj h
          injection hhead with hturn hreq hpeer
          subst hturn hreq
          rw [← hafter, hpeer]
          exact ⟨n, rest, rfl⟩
        | cons e before =>
          obtain ⟨p', before', hrest⟩ := answer_received (List.cons.inj h).2
          exact ih hrest (List.mem_append_right _ (List.mem_cons_self ..))

/-- Every valid request that a connection reads from an authorised peer is answered just when what it lists fits
into a frame and the client takes it. -/
theorem request_answered_iff {turn : Turn} {req : Request} {p : Peer} {before after : List WireEvent}
    (h : converse lib n peer turns = before ++ .received turn req (some p) :: after)
    (hvalid : req.validate lib.debug = .ok ()) (hauth : authorize p.caller req.op = .ok ()) :
    AnsweredNext req after ↔ Fits lib turn.ctx p turn.world req.id req.op ∧ turn.fault = none := by
  obtain ⟨n', turns', rfl⟩ := received_answer h
  exact round_answered hvalid hauth

end Connection

/-! ### Samples -/

/-- Strings are shown between quotes; no report is read. -/
def quotingSerde : Serde where
  debug s := "\"" ++ s ++ "\""
  fromSlice _ := .error "EOF while parsing a value"

def rootPeer : Peer := ⟨⟨"0", true⟩, 0, 0⟩

def noStore : Surroundings where
  id := 0
  now := onSep25 0
  later := onSep25 0
  unsaved := none
  schedulesUnread := false
  schedulesUnsaved := none
  reportUnread := none
  storeExists := false
  opened := .ok ()
  listed := .ok []
  restored := .error "no such item"
  found := .error "no such item"
  allowed := .ok ()
  deleted := .error "no such item"
  checked := ⟨onSep25 0, true, 0, true, 0, [], [], 0, 0, true, ""⟩

def serving (cfg : ServiceConfig) (svc : Service) : Ctx := ⟨cfg, svc, onSep25 0, true, none⟩

/-- A request of an administrator. -/
def rootTurn (ctx : Ctx) (op : Op) : Turn := ⟨.ok ⟨protocolVersion, 7, op⟩, some rootPeer, ctx, noStore, none⟩

/-- The hourly check is queued. -/
def queuedService : Service := Service.run hourlyConfig hourlyService [.runSchedule "hourly" 1 (onSep25 0) none]

theorem queued_jobs_fit : (queuedService.manager.list fun _ => true).length = 1 ∧
    Fits quotingSerde (serving hourlyConfig queuedService) rootPeer noStore 7 .jobs := by
  unfold Fits
  decide +kernel

/-- The list of the one job is short enough. -/
theorem jobs_answered : ∃ after,
    converse quotingSerde 1 none [rootTurn (serving hourlyConfig queuedService) .jobs] =
      .received (rootTurn (serving hourlyConfig queuedService) .jobs) ⟨protocolVersion, 7, .jobs⟩
        (some rootPeer) :: after ∧
    AnsweredNext ⟨protocolVersion, 7, .jobs⟩ after := by
  have hround : converse quotingSerde 1 none [rootTurn (serving hourlyConfig queuedService) .jobs] =
      [] ++ .received (rootTurn (serving hourlyConfig queuedService) .jobs) ⟨protocolVersion, 7, .jobs⟩
        (some rootPeer) :: answer quotingSerde 0 (rootTurn (serving hourlyConfig queuedService) .jobs)
          ⟨protocolVersion, 7, .jobs⟩ [] (some rootPeer) := converse_ok rfl
  exact ⟨_, hround, (request_answered_iff hround rfl rfl).mpr ⟨queued_jobs_fit.2, rfl⟩⟩

/-- A path of `n + 1` bytes. -/
def longPath (n : ℕ) : String := String.ofList ('/' :: List.replicate n 'a')

theorem longPath_plain (n : ℕ) : (!isAbsolute (longPath n) || (longPath n).toList.contains '\x00') = false := by
  have hchars : (longPath n).toList = '/' :: List.replicate n 'a' := String.toList_ofList
  have hnul : ('/' :: List.replicate n 'a').contains '\x00' = false := by
    rw [List.contains_eq_any_beq, List.any_eq_false]
    intro c hc
    cases List.mem_cons.mp hc with
    | inl h =>
      subst h
      decide
    | inr h =>
      rw [List.eq_of_mem_replicate h]
      decide
  rw [isAbsolute, hchars, hnul]
  rfl

/-- A schedule with 64 long paths; its configuration is about 256000 bytes long. -/
def wideScan : Schedule where
  name := "wide"
  kind := .scan
  paths := List.replicate 64 (longPath 3999)
  everyHours := 24
  atUtc := none
  heuristics := false
  quarantine := false

def wideConfig : ServiceConfig := { dailyConfig with maxQueuedJobs := 300, schedules := [wideScan] }

theorem wideConfig_valid : wideConfig.validate = .ok () := by
  have hscan : wideScan.checkKind wideConfig = .ok () := by
    rw [Schedule.checkKind, wideScan]
    simp only [except_bind_eq_ok]
    refine ⟨(), refuseIf_eq_ok.mpr (by decide), refuseSome_eq_ok.mpr (List.find?_eq_none.mpr ?_)⟩
    intro p hp
    rw [List.eq_of_mem_replicate hp, longPath_plain]
    decide
  have hschedule : Schedule.check wideConfig [] wideScan = .ok ["wide"] := by
    rw [Schedule.check, hscan]
    rfl
  have heach : checkEach (Schedule.check wideConfig) [] wideConfig.schedules = .ok ["wide"] := by
    change checkEach (Schedule.check wideConfig) [] [wideScan] = _
    rw [checkEach, hschedule]
    rfl
  rw [ServiceConfig.validate, heach]
  rfl

/-- The wide scan is run `n` times, and no worker is free. -/
def wideEvents (n : ℕ) : List ServiceEvent :=
  (List.range n).map fun k => .runSchedule "wide" (BitVec.ofNat 128 k) (onSep25 0) none

def wideService (n : ℕ) : Service :=
  Service.run wideConfig (Service.new wideConfig "0" ⟨∅, ∅⟩ (onSep25 0) [] none) (wideEvents n)

theorem wideService_succ (n : ℕ) : wideService (n + 1) =
    (wideService n).runSchedule wideConfig "wide" (BitVec.ofNat 128 n) (onSep25 0) none := by
  rw [wideService, wideEvents, List.range_succ, List.map_append, Service.run, List.foldl_append]
  rfl

/-- `n` queued jobs, each with the paths of the wide scan. -/
structure HoldsWide (n : ℕ) (m : Manager) : Prop where
  running : m.shutdown = false
  waiting : m.queue.length = n
  stored : m.jobs.size = n
  fresh : ∀ id : Uuid, n ≤ id.toNat → id ∉ m.jobs
  wide : ∀ (id : Uuid) j, m.jobs[id]? = some j → j.paths = wideScan.paths

theorem HoldsWide.submit {n : ℕ} {m : Manager} (h : HoldsWide n m) (hn : n < 300) :
    HoldsWide (n + 1) (m.submit wideConfig "0" (some "wide") wideScan.spec (BitVec.ofNat 128 n) (onSep25 0) none).2 ∧
      ∃ id, (m.submit wideConfig "0" (some "wide") wideScan.spec (BitVec.ofNat 128 n) (onSep25 0) none).1 = .ok id := by
  have hid : (BitVec.ofNat 128 n).toNat = n := by
    rw [BitVec.toNat_ofNat]
    omega
  -- the queue holds as many jobs as are submitted
  have hroom : ¬ m.queue.length ≥ wideConfig.maxQueuedJobs := by
    have hmax : wideConfig.maxQueuedJobs = 300 := rfl
    have hlen := h.waiting
    omega
  have hnew := h.fresh _ (Nat.le_of_eq hid.symm)
  rw [Manager.submit, h.running, if_neg Bool.false_ne_true, if_neg hroom]
  simp only [JobStore.saveJob]
  refine ⟨⟨h.running, ?_, ?_, ?_, ?_⟩, _, rfl⟩
  · simp [Manager.enqueue, h.waiting]
  · have hcontains : m.jobs.contains (BitVec.ofNat 128 n) = false := by
      rw [← Bool.not_eq_true, ← Std.TreeMap.mem_iff_contains]
      exact hnew
    simp only [Manager.enqueue, Manager.queuedJob, Std.TreeMap.size_insert, hcontains, h.stored, Bool.false_eq_true,
      if_false]
  -- identifiers are given out in order
  · intro id hle hmem
    simp only [Manager.enqueue, Manager.queuedJob, Std.TreeMap.mem_insert, Std.LawfulEqOrd.compare_eq_iff_eq] at hmem
    cases hmem with
    | inl heq =>
      subst heq
      omega
    | inr hmem => exact h.fresh id (by omega) hmem
  · intro id j hj
    simp only [Manager.enqueue, Std.TreeMap.getElem?_insert] at hj
    split at hj
    · obtain rfl := Option.some.inj hj
      rfl
    · exact h.wide id j hj

theorem wideService_holds (n : ℕ) (hn : n ≤ 300) :
    HoldsWide n (wideService n).manager ∧ (wideService n).principal = "0" := by
  induction n with
  | zero =>
    have hempty : (wideService 0).manager.jobs = ∅ := rfl
    refine ⟨⟨rfl, rfl, rfl, fun id _ => ?_, fun id j hj => ?_⟩, rfl⟩
    · rw [hempty]
      exact Std.TreeMap.not_mem_emptyc
    · rw [hempty, Std.TreeMap.getElem?_emptyc] at hj
      cases hj
  | succ n ih =>
    obtain ⟨hwide, hprincipal⟩ := ih (by omega)
    obtain ⟨hstep, id, hok⟩ := hwide.submit (by omega)
    have hfind : wideConfig.schedules.find? (·.name = "wide") = some wideScan := rfl
    have hname : wideScan.name = "wide" := rfl
    rw [wideService_succ, Service.runSchedule, hfind]
    simp only [Service.start, hprincipal, hname]
    generalize Manager.submit wideConfig (wideService n).manager "0" (some "wide") wideScan.spec
      (BitVec.ofNat 128 n) (onSep25 0) none = answered at hstep hok
    obtain ⟨result, m⟩ := answered
    subst hok
    exact ⟨hstep, rfl⟩

theorem size_longPath (n : ℕ) : n + 1 ≤ size (.str (longPath n)) := by
  have hlen := length_le_strSize (longPath n)
  rw [longPath, String.toList_ofList, List.length_cons, List.length_replicate] at hlen
  rw [size_str, longPath]
  omega

/-- A job is as long as its paths. -/
theorem le_jobSize {j : JobSummary} {count : ℕ} {path : String} (h : j.paths = List.replicate count path) :
    count * size (.str path) ≤ jobSize j := by
  have hpaths : count * size (.str path) ≤ fieldSize ("paths", pathsJson j.paths) := by
    have hsum : (List.replicate count (size (.str path))).sum ≤ joinedSize ((j.paths.map Json.str).map size) := by
      rw [h, List.map_replicate, List.map_replicate]
      exact le_joinedSize
    rw [List.sum_replicate, smul_eq_mul] at hsum
    rw [fieldSize, pathsJson, size_arr]
    omega
  have hfield : fieldSize ("paths", pathsJson j.paths) ≤ (j.fields.map fieldSize).sum := by
    refine List.single_le_sum (fun _ _ => Nat.zero_le _) _ (List.mem_map_of_mem ?_)
    simp [JobSummary.fields]
  have hall : (j.fields.map fieldSize).sum ≤ joinedSize (j.fields.map fieldSize) := le_joinedSize
  rw [jobSize, size_obj]
  omega

/-- The list of 270 such jobs does not fit into a frame. -/
theorem wide_jobs_too_long (id : UInt64) :
    ¬ Fits quotingSerde (serving wideConfig (wideService 270)) rootPeer noStore id .jobs := by
  obtain ⟨hwide, -⟩ := wideService_holds 270 (by decide)
  rintro ⟨-, hfits⟩
  have hadmin : (fun j : JobSummary => canAccessJob rootPeer.caller j.owner) = fun _ => true := rfl
  have hlist : (serving wideConfig (wideService 270)).service.manager = (wideService 270).manager := rfl
  rw [hadmin, hlist] at hfits
  have hjobs : ((wideService 270).manager.list fun _ => true).length = 270 := by
    rw [Manager.list, List.length_take, List.length_insertionSort, List.filter_true, jobList, List.length_map,
      Std.TreeMap.length_toList, hwide.stored]
    rfl
  -- each job writes out its paths, and they are long
  have hpaths : ∀ n ∈ ((wideService 270).manager.list fun _ => true).map jobSize, 256000 ≤ n := by
    intro n hn
    obtain ⟨j, hj, rfl⟩ := List.mem_map.mp hn
    have hmem := List.mem_insertionSort _ |>.mp (List.mem_of_mem_take hj)
    rw [List.filter_true] at hmem
    obtain ⟨id, hid⟩ := mem_jobList.mp hmem
    have hjob := le_jobSize (hwide.wide id j hid)
    have hpath := size_longPath 3999
    omega
  have hsum := List.card_nsmul_le_sum _ 256000 hpaths
  rw [List.length_map, hjobs, smul_eq_mul] at hsum
  have hall : (((wideService 270).manager.list fun _ => true).map jobSize).sum ≤ _ := le_joinedSize
  have hmax : maxResponse = 67108864 := rfl
  omega

/-- After 270 runs of the wide scan, an administrator who asks for the jobs gets no answer. -/
theorem long_job_list_unanswered :
    wideConfig.validate = .ok () ∧
    Request.validate quotingSerde.debug ⟨protocolVersion, 7, .jobs⟩ = .ok () ∧
    authorize rootPeer.caller .jobs = .ok () ∧
    ∃ after,
      converse quotingSerde maxRequestsPerConnection none [rootTurn (serving wideConfig (wideService 270)) .jobs] =
        .received (rootTurn (serving wideConfig (wideService 270)) .jobs) ⟨protocolVersion, 7, .jobs⟩
          (some rootPeer) :: after ∧
      ¬ AnsweredNext ⟨protocolVersion, 7, .jobs⟩ after := by
  refine ⟨wideConfig_valid, rfl, rfl, _, converse_ok rfl, fun hanswered => ?_⟩
  have hfits := (round_answered rfl rfl).mp hanswered
  exact wide_jobs_too_long 7 hfits.1

end AbyssalWarden

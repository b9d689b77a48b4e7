import AbyssalWarden.Archive

/-! The limits bound the work of an expansion. Every call adds to the log and spends from the
budget in the same way, whatever it calls in turn: `Effect` says how, and composes. -/
namespace AbyssalWarden

namespace ArchiveEvent

def size : ArchiveEvent → ℕ
  | .member _ _ size _ => size
  | _ => 0

def chain : ArchiveEvent → List ObservedPath
  | .member chain _ _ _ | .skipped chain _ | .error chain _ => chain

end ArchiveEvent

/-- The bytes of the members delivered. -/
def deliveredBytes (log : List (List ℕ × ArchiveEvent)) : ℕ := (log.map fun r => r.2.size).sum

/-- Where the members were delivered from. -/
def memberPlaces (log : List (List ℕ × ArchiveEvent)) : List (List ℕ) :=
  (log.filter fun r => r.2.isMember).map Prod.fst

section Log

variable {log new : List (List ℕ × ArchiveEvent)} {r : List ℕ × ArchiveEvent}

@[simp]
theorem deliveredBytes_nil : deliveredBytes [] = 0 := rfl

@[simp]
theorem deliveredBytes_append : deliveredBytes (log ++ new) = deliveredBytes log + deliveredBytes new := by
  simp [deliveredBytes]

@[simp]
theorem memberPlaces_append : memberPlaces (log ++ new) = memberPlaces log ++ memberPlaces new := by
  simp [memberPlaces]

theorem mem_memberPlaces {p : List ℕ} :
    p ∈ memberPlaces log ↔ ∃ event, (p, event) ∈ log ∧ event.isMember := by
  simp [memberPlaces]

/-- Events that are no members deliver nothing. -/
theorem no_members (h : ∀ r ∈ new, ¬ r.2.isMember) : memberPlaces new = [] ∧ deliveredBytes new = 0 := by
  have hfilter : (new.filter fun r => r.2.isMember) = [] := by
    rw [List.filter_eq_nil_iff]
    exact h
  refine ⟨by rw [memberPlaces, hfilter, List.map_nil], ?_⟩
  rw [deliveredBytes, List.sum_eq_zero_iff]
  intro n hn
  obtain ⟨r, hr, rfl⟩ := List.mem_map.mp hn
  have hmember := h r hr
  cases hr : r.2 with
  | member chain digest size content => simp [hr, ArchiveEvent.isMember] at hmember
  | skipped chain reason => rfl
  | error chain message => rfl

end Log

namespace Expander

/-- The nesting levels an expansion may reach: the first one is expanded whatever the limit is. -/
def levels (x : Expander) : ℕ := max 1 x.limits.maxDepth

/-- What a call may do to the state it starts from. Its members are delivered from the places `rel`
says, seen from where the call stands; `fin` is what makes it finish. -/
structure Effect (x : Expander) (rel : List ℕ → Prop) (fin : Prop) (before after : Expansion)
    (outcome : Expanded) (new : List (List ℕ × ArchiveEvent)) : Prop where
  chain : after.chain = before.chain
  place : after.place = before.place
  log : after.log = before.log ++ new
  reported : after.budgetReported = true → before.budgetReported = true ∨ ∃ r ∈ new, ¬ r.2.isMember
  member : ∀ r ∈ new, r.2.isMember → ∃ p, r.1 = before.place ++ p ∧ rel p ∧
    (∀ i ∈ p, i < x.limits.maxEntries) ∧ r.2.chain.length = before.chain.length + p.length ∧
    r.2.chain.length ≤ x.levels ∧ r.2.size ≤ x.maxMemberSize
  nodup : (memberPlaces new).Nodup
  budget : deliveredBytes new + after.budgetLeft ≤ before.budgetLeft
  spent : after.decompressed ≤ before.decompressed + before.budgetLeft + archiveChunk
  account : outcome = .ok → after.budgetLeft = 0 ∨
    after.decompressed + after.budgetLeft ≤ before.decompressed + before.budgetLeft
  underflow : outcome ≠ .underflow
  finished : fin → outcome ≠ .unfinished

section Effect

variable {x : Expander} {rel rel' : List ℕ → Prop} {fin : Prop} {a b c run : Expansion}
  {outcome : Expanded} {new new' : List (List ℕ × ArchiveEvent)} {depth index : ℕ}

/-- A call that decompresses nothing once the budget is gone. -/
def Idle (before after : Expansion) : Prop :=
  before.budgetLeft = 0 → after.decompressed = before.decompressed

/-- Nothing but the count of the checks changes. -/
theorem Effect.refl (n : ℕ) (houtcome : outcome ≠ .underflow) (hfin : outcome ≠ .unfinished) :
    Effect x rel fin a { a with checks := n } outcome [] :=
  ⟨rfl, rfl, (List.append_nil _).symm, fun h => .inl h, nofun, List.nodup_nil,
    (Nat.zero_add _).le, by simp only [Nat.add_assoc, Nat.le_add_right],
    fun _ => .inr (Nat.le_refl _), houtcome, fun _ => hfin⟩

/-- The checks made before a call do not count. -/
theorem Effect.of_checks {n : ℕ} (h : Effect x rel fin { a with checks := n } b outcome new) :
    Effect x rel fin a b outcome new :=
  ⟨h.chain, h.place, h.log, h.reported, h.member, h.nodup, h.budget, h.spent, h.account, h.underflow,
    h.finished⟩

/-- Something is reported that is no member. -/
theorem Effect.report {event : ArchiveEvent} (h : event.isMember = false) :
    Effect x rel fin run (run.visit event) .ok [(run.place, event)] := by
  have hnone : memberPlaces [(run.place, event)] = [] ∧ deliveredBytes [(run.place, event)] = 0 :=
    no_members (by simpa using h)
  refine ⟨rfl, rfl, rfl, fun h => .inl h, ?_, by rw [hnone.1]; exact List.nodup_nil,
    by rw [hnone.2, Nat.zero_add]; exact Nat.le_refl _, by simp [Expansion.visit]; omega,
    fun _ => .inr (Nat.le_refl _), nofun, fun _ => nofun⟩
  intro r hr hmember
  rw [List.mem_singleton.mp hr, h] at hmember
  cases hmember

theorem Effect.mono (h : Effect x rel fin a b outcome new) (hrel : ∀ p, rel p → rel' p) :
    Effect x rel' fin a b outcome new := by
  refine { h with member := ?_ }
  intro r hr hmember
  obtain ⟨p, hp, hr, hrest⟩ := h.member r hr hmember
  exact ⟨p, hp, hrel p hr, hrest⟩

/-- One call after the other: the places they deliver from are different ones, and the second does
nothing when the first has spent the budget. -/
theorem Effect.trans (h : Effect x rel fin a b .ok new) (h' : Effect x rel' fin b c outcome new')
    (hidle : Idle b c) (hne : ∀ p, rel p → ¬ rel' p) :
    Effect x (fun p => rel p ∨ rel' p) fin a c outcome (new ++ new') := by
  have hbudget := h.budget
  have hbudget' := h'.budget
  have hspent' := h'.spent
  have haccount := h.account rfl
  refine ⟨h'.chain.trans h.chain, h'.place.trans h.place,
    by rw [h'.log, h.log, List.append_assoc], ?_, ?_, ?_, by rw [deliveredBytes_append]; omega, ?_, ?_,
    h'.underflow, h'.finished⟩
  · intro hc
    rcases h'.reported hc with hb | ⟨r, hr, hrep⟩
    · rcases h.reported hb with ha | ⟨r, hr, hrep⟩
      · exact .inl ha
      · exact .inr ⟨r, List.mem_append_left _ hr, hrep⟩
    · exact .inr ⟨r, List.mem_append_right _ hr, hrep⟩
  -- what was delivered is in the one part or in the other, from places that differ
  · intro r hr hmember
    rcases List.mem_append.mp hr with hr | hr
    · obtain ⟨p, hp, hrel, hrest⟩ := h.member r hr hmember
      exact ⟨p, hp, .inl hrel, hrest⟩
    · obtain ⟨p, hp, hrel, hrest⟩ := h'.member r hr hmember
      rw [h.place] at hp
      rw [h.chain] at hrest
      exact ⟨p, hp, .inr hrel, hrest⟩
  · rw [memberPlaces_append, List.nodup_append]
    refine ⟨h.nodup, h'.nodup, ?_⟩
    intro q hq q' hq' heq
    obtain ⟨event, hr, hmember⟩ := mem_memberPlaces.mp hq
    obtain ⟨event', hr', hmember'⟩ := mem_memberPlaces.mp hq'
    obtain ⟨p, hp, hrel, -⟩ := h.member _ hr hmember
    obtain ⟨p', hp', hrel', -⟩ := h'.member _ hr' hmember'
    have hpp : p = p' := by
      rw [h.place] at hp'
      exact List.append_cancel_left (hp.symm.trans (heq.trans hp'))
    exact hne p hrel (hpp ▸ hrel')
  -- the budget spent is what was delivered, except where all of it was given up
  · rcases haccount with hzero | hle
    · rw [hidle hzero]
      exact h.spent
    · omega
  · intro hok
    rcases h'.account hok with hzero' | hle'
    · exact .inl hzero'
    · rcases haccount with hzero | hle
      · exact .inl (by omega)
      · exact .inr (by omega)

/-- A call between `push` and `pop` of the name of the entry `index`. -/
theorem Effect.pushed {name : ObservedPath} (hindex : index < x.limits.maxEntries)
    (h : Effect x rel fin (run.push name index) b outcome new) :
    Effect x (fun p => ∃ q, p = index :: q ∧ rel q) fin run b.pop outcome new := by
  have hplace : b.pop.place = run.place := by
    rw [Expansion.pop, h.place]
    exact List.dropLast_concat
  have hchain : b.pop.chain = run.chain := by
    rw [Expansion.pop, h.chain]
    exact List.dropLast_concat
  refine ⟨hchain, hplace, h.log, h.reported, ?_, h.nodup, h.budget, h.spent, h.account, h.underflow,
    h.finished⟩
  intro r hr hmember
  obtain ⟨p, hp, hrel, hlt, hlen, hrest⟩ := h.member r hr hmember
  refine ⟨index :: p, ?_, ⟨p, rfl, hrel⟩, ?_, ?_, hrest⟩
  · rw [hp, Expansion.push, List.append_assoc, List.singleton_append]
  · intro i hi
    rcases List.mem_cons.mp hi with rfl | hi
    · exact hindex
    · exact hlt i hi
  · rw [hlen]
    simp [Expansion.push]
    omega

end Effect

section Member

variable {x : Expander} {start run after : Expansion} {m m' : MemberRead} {read : ReadResult}
  {reads : List ReadResult} {rel : List ℕ → Prop} {fin : Prop}

/-- In the loop of `member`: `run` has read `m.total` bytes since `start`, and has spent nothing. -/
structure Reading (x : Expander) (start run : Expansion) (m : MemberRead) : Prop where
  same : run = { start with checks := run.checks, decompressed := start.decompressed + m.total }
  within : m.total ≤ start.budgetLeft
  size : m.total ≤ x.maxMemberSize
  hashed : m.hashed.length = m.total
  keep : m.keep = decide (m.total ≤ x.limits.maxMemberContent)
  kept : m.keep → m.content = m.hashed

theorem Reading.new (x : Expander) (run : Expansion) : Reading x run run ⟨[], true, [], 0⟩ :=
  ⟨rfl, Nat.zero_le _, Nat.zero_le _, rfl, by simp, fun _ => rfl⟩

theorem Reading.check (h : Reading x start run m) : Reading x start (x.check run).2 m := by
  refine { h with same := ?_ }
  have hsame := h.same
  rw [Expander.check]
  generalize run.checks = n at hsame ⊢
  rw [hsame]

/-- What is left of a member when it is given up: it is reported, and what was read of it may be
taken from the budget. -/
theorem Effect.give_up (event : ArchiveEvent) (left read : ℕ) {checks : ℕ} {reported : Bool}
    (hevent : event.isMember = false) (hleft : left ≤ start.budgetLeft)
    (hspent : read ≤ start.budgetLeft + archiveChunk)
    (haccount : left = 0 ∨ read + left ≤ start.budgetLeft) :
    Effect x rel fin start
      ({ start with
          budgetLeft := left
          budgetReported := reported
          checks := checks
          decompressed := start.decompressed + read }.visit event) .ok [(start.place, event)] := by
  have hnone : memberPlaces [(start.place, event)] = [] ∧ deliveredBytes [(start.place, event)] = 0 :=
    no_members (by simpa using hevent)
  refine ⟨rfl, rfl, rfl, fun _ => .inr ⟨_, List.mem_singleton_self _, by simpa using hevent⟩, ?_,
    by rw [hnone.1]; exact List.nodup_nil, by rw [hnone.2, Nat.zero_add]; exact hleft,
    by simp only [Expansion.visit]; omega, ?_, nofun, fun _ => nofun⟩
  · intro r hr hmember
    rw [List.mem_singleton.mp hr, hevent] at hmember
    cases hmember
  · intro _
    simp only [Expansion.visit]
    omega

/-- A stop in the middle of a member leaves what it has read unpaid. -/
theorem Reading.stopped {s : ArchiveStop} (h : Reading x start run m) :
    Effect x rel fin start run (.stop s) [] := by
  have hwithin := h.within
  have hsame := h.same
  generalize run.checks = n at hsame
  subst hsame
  exact ⟨rfl, rfl, (List.append_nil _).symm, fun h => .inl h, nofun, List.nodup_nil,
    (Nat.zero_add _).le, by simp only; omega, nofun, nofun, fun _ => nofun⟩

theorem readBytes_cons {bytes : Bytes} (h : readBytes [read] = some bytes) :
    readBytes (read :: reads) = (readBytes reads).map (bytes ++ ·) := by
  cases read with
  | interrupted =>
    obtain rfl : [] = bytes := by simpa [readBytes] using h
    cases hr : readBytes reads with
    | none => simp [readBytes, hr]
    | some more => simp [readBytes, hr]
  | failed e => cases h
  | data got hne hfits =>
    obtain rfl : got = bytes := by simpa [readBytes] using h
    rfl

/-- One `read` of a member: it goes on with the bytes read, or the member is given up. -/
theorem readTurn_spec (rel : List ℕ → Prop) (fin : Prop) (read : ReadResult) (h : Reading x start run m) :
    (∃ m' bytes, (x.readTurn m run read).2 = .again m' ∧ Reading x start (x.readTurn m run read).1 m' ∧
      readBytes [read] = some bytes ∧ m'.hashed = m.hashed ++ bytes) ∨
    (∃ event, (x.readTurn m run read).2 = .returned .ok ∧ event.isMember = false ∧
      Effect x rel fin start (x.readTurn m run read).1 .ok [(start.place, event)]) := by
  have hwithin := h.within
  have hsame := h.same
  generalize run.checks = n at hsame
  subst hsame
  -- the turns of the loop in `member`
  cases read with
  | interrupted => exact .inl ⟨m, [], rfl, { h with }, rfl, (List.append_nil _).symm⟩
  | failed e =>
    refine .inr ⟨.error start.chain ("corrupt member: " ++ e), rfl, rfl, ?_⟩
    exact Effect.give_up _ (start.budgetLeft - m.total) m.total rfl (Nat.sub_le _ _) (by omega) (by omega)
  | data bytes hne hfits =>
    simp only [readTurn]
    split
    · refine .inr ⟨.skipped start.chain .archiveLimitReached, rfl, rfl, ?_⟩
      rw [Nat.add_assoc]
      exact Effect.give_up _ 0 (m.total + bytes.length) rfl (Nat.zero_le _) (by omega) (.inl rfl)
    · rename_i hover
      have hspend : m.total + bytes.length ≤ start.budgetLeft := Nat.le_of_not_lt hover
      -- beyond the budget the member is given up and the budget is used up
      split
      · simp only [Expansion.spend, if_pos hspend]
        refine .inr ⟨.skipped start.chain .exceedsMaxFileSize, trivial, rfl, ?_⟩
        rw [Nat.add_assoc]
        exact Effect.give_up _ _ (m.total + bytes.length) rfl (Nat.sub_le _ _) (by omega) (by omega)
      · rename_i hsize
        -- what holds of the member after any turn that goes on
        have hread : ∀ m' : MemberRead, m'.total = m.total + bytes.length →
            m'.hashed = m.hashed ++ bytes →
            m'.keep = decide (m.total + bytes.length ≤ x.limits.maxMemberContent) →
            (m'.keep → m'.content = m'.hashed) →
            Reading x start { start with checks := n, decompressed := start.decompressed + m.total + bytes.length } m' := by
          intro m' htotal hhashed hkeep hkept
          refine ⟨?_, by omega, by omega, ?_, by rw [hkeep, htotal], hkept⟩
          · rw [htotal, Nat.add_assoc]
          · rw [hhashed, htotal, List.length_append, h.hashed]
        refine .inl ?_
        split
        · rename_i hkeep
          split
          · rename_i hlimit
            exact ⟨_, bytes, rfl, hread _ rfl rfl (by simpa using hlimit) nofun, by simp [readBytes], rfl⟩
          · rename_i hlimit
            refine ⟨_, bytes, rfl, hread _ rfl rfl (by simpa using hlimit) ?_, by simp [readBytes], rfl⟩
            intro _
            rw [h.kept hkeep]
        · rename_i hkeep
          have hlimit : x.limits.maxMemberContent < m.total := by simpa [h.keep] using hkeep
          refine ⟨_, bytes, rfl, hread _ rfl rfl ?_ nofun, by simp [readBytes], rfl⟩
          simp
          omega

/-- The loop of `member`: to the end of the data, or out of it. -/
theorem readLoop_spec (rel : List ℕ → Prop) (fin : Prop) (reads : List ReadResult)
    (h : Reading x start run m) :
    (∃ m' bytes, (x.readLoop reads m run).2 = .finished m' ∧
      Reading x start (x.readLoop reads m run).1 m' ∧ readBytes reads = some bytes ∧
      m'.hashed = m.hashed ++ bytes) ∨
    (∃ event, (x.readLoop reads m run).2 = .returned .ok ∧ event.isMember = false ∧
      Effect x rel fin start (x.readLoop reads m run).1 .ok [(start.place, event)]) ∨
    (∃ s, (x.readLoop reads m run).2 = .returned (.stop s) ∧
      Effect x rel fin start (x.readLoop reads m run).1 (.stop s) []) := by
  -- along the reads; a check comes before each one, and one more at the end
  induction reads generalizing m run with
  | nil =>
    have hcheck := h.check
    rw [readLoop]
    cases hs : x.check run with
    | mk stopped run' =>
      rw [hs] at hcheck
      cases stopped with
      | none => exact .inl ⟨m, [], rfl, hcheck, rfl, (List.append_nil _).symm⟩
      | some s => exact .inr (.inr ⟨s, rfl, hcheck.stopped⟩)
  | cons read rest ih =>
    have hcheck := h.check
    rw [readLoop]
    cases hs : x.check run with
    | mk stopped run' =>
      rw [hs] at hcheck
      cases stopped with
      | some s => exact .inr (.inr ⟨s, rfl, hcheck.stopped⟩)
      | none =>
        have hturn := readTurn_spec rel fin read hcheck
        simp only
        cases ht : x.readTurn m run' read with
        | mk run₁ turn =>
          rw [ht] at hturn
          rcases hturn with ⟨m₁, bytes, hagain, hreading, hbytes, hhashed⟩ | ⟨event, hreturned, hevent, heffect⟩
          · simp only at hagain
            subst hagain
            rcases ih hreading with ⟨m', more, hfin, hread', hmore, hhashed'⟩ | hout
            · refine .inl ⟨m', bytes ++ more, hfin, hread', ?_, ?_⟩
              · rw [readBytes_cons hbytes, hmore, Option.map_some]
              · rw [hhashed', hhashed, List.append_assoc]
            · exact .inr hout
          · simp only at hreturned
            subst hreturned
            exact .inr (.inl ⟨event, rfl, hevent, heffect⟩)

end Member

section Expand

variable {x : Expander} {start run : Expansion} {m : MemberRead} {fin : Prop} {depth index : ℕ}
  {entry : ZipEntry} {entries : List ZipEntry}
  {nested : Bytes → ℕ → Expansion → Expansion × Expanded}

/-- What `nested` is relied on to do for the members at `depth`. -/
def Nests (x : Expander) (fin : Prop) (nested : Bytes → ℕ → Expansion → Expansion × Expanded)
    (depth : ℕ) : Prop :=
  ∀ data run, run.chain.length = depth → depth < x.limits.maxDepth →
    (∃ new, Effect x (· ≠ []) fin run (nested data (depth + 1) run).1 (nested data (depth + 1) run).2 new) ∧
    Idle run (nested data (depth + 1) run).1

/-- The member itself, paid for and handed over. -/
theorem Reading.delivered (h : Reading x start run m) (fin : Prop) (digest : Sha256Digest) (content : Option Bytes)
    (hdepth : start.chain.length ≤ x.levels) :
    ∃ paid, run.spend m.total = some paid ∧ paid.chain = start.chain ∧
      Effect x (· = []) fin start (paid.visit (.member paid.chain digest m.total content)) .ok
        [(start.place, .member start.chain digest m.total content)] := by
  have hwithin := h.within
  have hsame := h.same
  generalize run.checks = n at hsame
  subst hsame
  refine ⟨_, if_pos hwithin, rfl, rfl, rfl, rfl, fun h => .inl h, ?_, List.nodup_singleton _, ?_, ?_, ?_,
    nofun, fun _ => nofun⟩
  · intro r hr _
    rw [List.mem_singleton.mp hr]
    exact ⟨[], (List.append_nil _).symm, rfl, nofun, rfl, hdepth, h.size⟩
  · simp [deliveredBytes, ArchiveEvent.size, Expansion.visit]
    omega
  · simp only [Expansion.visit]
    omega
  · intro _
    simp only [Expansion.visit]
    omega

theorem deliver_effect (hnested : Nests x fin nested depth) (h : Reading x start run m)
    (hchain : start.chain.length = depth) (hdepth : depth ≤ x.levels) :
    ∃ new, Effect x (fun _ => True) fin start (x.deliver nested depth m run).1
      (x.deliver nested depth m run).2 new := by
  rw [deliver]
  obtain ⟨paid, hpaid, hpaidChain, heffect⟩ := h.delivered fin (x.sha256 m.hashed)
    (if m.keep then some m.content else none) (hchain ▸ hdepth)
  rw [hpaid]
  simp only
  have hne : ∀ p : List ℕ, p = [] → ¬ p ≠ [] := fun p hp hne => hne hp
  split
  · split
    · rename_i hlt
      obtain ⟨⟨new, hnew⟩, hidle⟩ := hnested m.content
        (paid.visit (.member paid.chain (x.sha256 m.hashed) m.total
          (if m.keep then some m.content else none)))
        (by rw [Expansion.visit, hpaidChain, hchain]) hlt
      exact ⟨_, (heffect.trans hnew hidle hne).mono fun _ _ => trivial⟩
    · exact ⟨_, (heffect.trans (Effect.report rfl) (fun _ => rfl) hne).mono fun _ _ => trivial⟩
  · exact ⟨_, heffect.mono fun _ _ => trivial⟩

theorem member_effect (hnested : Nests x fin nested depth) (entry : ZipEntry) (hchain : run.chain.length = depth)
    (hdepth : depth ≤ x.levels) :
    ∃ new, Effect x (fun _ => True) fin run (x.member nested depth entry run).1
      (x.member nested depth entry run).2 new := by
  rw [member]
  cases ho : entry.opened with
  | error e =>
    simp only
    split
    · exact ⟨_, Effect.report rfl⟩
    · exact ⟨_, Effect.report rfl⟩
    · exact ⟨_, Effect.report rfl⟩
  | ok reads =>
    simp only
    have hloop := readLoop_spec (fun _ => True) fin reads (Reading.new x run)
    cases hr : x.readLoop reads ⟨[], true, [], 0⟩ run with
    | mk after turn =>
      rw [hr] at hloop
      rcases hloop with ⟨m', bytes, hfin, hreading, -⟩ | ⟨event, hret, -, heffect⟩ | ⟨s, hret, heffect⟩
      · simp only at hfin
        subst hfin
        exact deliver_effect hnested hreading hchain hdepth
      · simp only at hret
        subst hret
        exact ⟨_, heffect⟩
      · simp only at hret
        subst hret
        exact ⟨_, heffect⟩

theorem expandEntry_effect (hnested : Nests x fin nested depth) (entry : ZipEntry) (hindex : index < x.limits.maxEntries)
    (hchain : run.chain.length + 1 = depth) (hdepth : depth ≤ x.levels) :
    ∃ new, Effect x (fun p => ∃ q, p = index :: q) fin run (x.expandEntry nested depth index entry run).1
      (x.expandEntry nested depth index entry run).2 new := by
  rw [expandEntry]
  -- what is on the chain for an entry is taken off after it
  have hpop : ∀ {name : ObservedPath} {after : Expansion} {outcome : Expanded}
      {new : List (List ℕ × ArchiveEvent)},
      Effect x (fun _ => True) fin (run.push name index) after outcome new →
        Effect x (fun p => ∃ q, p = index :: q) fin run after.pop outcome new := by
    intro name after outcome new heffect
    refine (heffect.pushed hindex).mono ?_
    rintro p ⟨q, hp, -⟩
    exact ⟨q, hp⟩
  cases entry.raw with
  | error e => exact ⟨_, Effect.report rfl⟩
  | ok raw =>
    simp only
    split
    · exact ⟨[], Effect.refl run.checks nofun nofun⟩
    · split
      · exact ⟨_, hpop (Effect.report rfl)⟩
      · split
        · exact ⟨_, hpop (Effect.report rfl)⟩
        · have hpush : (run.push raw.memberName index).chain.length = depth := by
            simpa [Expansion.push] using hchain
          obtain ⟨new, hnew⟩ := member_effect hnested entry hpush hdepth
          exact ⟨new, hpop hnew⟩

theorem expandEntries_idle : Idle run (x.expandEntries nested depth index entries run).1 := by
  intro hzero
  cases entries with
  | nil => rfl
  | cons entry rest =>
    rw [expandEntries, check]
    cases x.halted run.checks with
    | some s => rfl
    | none =>
      simp only [hzero, if_true]
      split <;> rfl

/-- Entries further on are at other places. -/
theorem expandEntries_effect (hnested : Nests x fin nested depth)
    (hindex : index + entries.length ≤ x.limits.maxEntries) (hchain : run.chain.length + 1 = depth)
    (hdepth : depth ≤ x.levels) :
    ∃ new, Effect x (fun p => ∃ i q, p = i :: q ∧ index ≤ i) fin run
      (x.expandEntries nested depth index entries run).1
      (x.expandEntries nested depth index entries run).2 new := by
  -- the places of the entries that follow have higher indices
  induction entries generalizing index run with
  | nil => exact ⟨[], Effect.refl run.checks nofun nofun⟩
  | cons entry rest ih =>
    rw [expandEntries, check]
    cases x.halted run.checks with
    | some s => exact ⟨[], Effect.refl _ nofun nofun⟩
    | none =>
      simp only
      split
      · split
        · exact ⟨[], Effect.refl _ nofun nofun⟩
        · rename_i hzero _
          refine ⟨_, Effect.give_up (.skipped run.chain .archiveLimitReached) run.budgetLeft 0 rfl
            (Nat.le_refl _) (Nat.zero_le _) (.inl hzero)⟩
      · rw [List.length_cons] at hindex
        have hchecked : { run with checks := run.checks + 1 }.chain.length + 1 = depth := hchain
        obtain ⟨new, hnew⟩ := expandEntry_effect hnested entry (by omega : index < _) hchecked hdepth
        cases he : x.expandEntry nested depth index entry { run with checks := run.checks + 1 } with
        | mk after outcome =>
          rw [he] at hnew
          have hstop : Effect x (fun p => ∃ i q, p = i :: q ∧ index ≤ i) fin run after outcome new := by
            refine hnew.of_checks.mono ?_
            rintro p ⟨q, hp⟩
            exact ⟨index, q, hp, Nat.le_refl _⟩
          cases outcome with
          | ok =>
            have hafter : after.chain.length + 1 = depth := by
              rw [hnew.chain]
              exact hchain
            have hrest : index + 1 + rest.length ≤ x.limits.maxEntries := by omega
            obtain ⟨more, hmore⟩ := ih hrest hafter
            refine ⟨new ++ more, (hnew.of_checks.trans hmore expandEntries_idle ?_).mono ?_⟩
            -- the places of this entry and of later ones differ in the index
            · rintro p ⟨q, rfl⟩ ⟨i, q', heq, hle⟩
              rw [List.cons.injEq] at heq
              omega
            · rintro p (⟨q, hp⟩ | ⟨i, q, hp, hle⟩)
              · exact ⟨index, q, hp, Nat.le_refl _⟩
              · exact ⟨i, q, hp, by omega⟩
          | stop s => exact ⟨new, hstop⟩
          | underflow => exact ⟨new, hstop⟩
          | unfinished => exact ⟨new, hstop⟩

end Expand

section File

variable {x : Expander} {depth : ℕ} {run : Expansion}

/-- The run lemma: with fuel for the levels that are left, an expansion at `depth` has its effect. -/
theorem expand_effect (fuel : ℕ) (data : Bytes) (strict : Bool) (hchain : run.chain.length + 1 = depth) (hdepth : depth ≤ x.levels) :
    (∃ new, Effect x (· ≠ []) (x.levels < depth + fuel) run
      (x.expand fuel data depth strict run).1 (x.expand fuel data depth strict run).2 new) ∧
    Idle run (x.expand fuel data depth strict run).1 := by
  -- one level of nesting for each unit of fuel
  induction fuel generalizing data depth strict run with
  | zero =>
    refine ⟨⟨[], ?_⟩, fun _ => rfl⟩
    rw [expand]
    have heffect : Effect x (· ≠ []) False run run .unfinished [] :=
      ⟨rfl, rfl, (List.append_nil _).symm, fun h => .inl h, nofun, List.nodup_nil,
        (Nat.zero_add _).le, by omega, nofun, nofun, nofun⟩
    exact { heffect with finished := fun h => absurd h (by omega) }
  | succ fuel ih =>
    rw [expand]
    cases x.openZip data with
    | error e =>
      simp only
      split
      · exact ⟨⟨_, Effect.report rfl⟩, fun _ => rfl⟩
      · exact ⟨⟨[], Effect.refl run.checks nofun nofun⟩, fun _ => rfl⟩
    | ok entries =>
      simp only
      -- archives inside are expanded one level deeper, with the fuel that is left
      have hnested : Nests x (x.levels < depth + (fuel + 1))
          (fun data depth => x.expand fuel data depth true) depth := by
        intro data run hrun hlt
        have hlevel : run.chain.length + 1 = depth + 1 := by rw [hrun]
        obtain ⟨⟨new, hnew⟩, hidle⟩ := ih data true hlevel (le_trans hlt (Nat.le_max_right _ _))
        exact ⟨⟨new, { hnew with finished := fun h => hnew.finished (by omega) }⟩, hidle⟩
      have hlength : 0 + (entries.take x.limits.maxEntries).length ≤ x.limits.maxEntries := by
        rw [List.length_take]
        omega
      have hrel : ∀ p : List ℕ, (∃ i q, p = i :: q ∧ 0 ≤ i) → p ≠ [] := by
        rintro p ⟨i, q, rfl, -⟩
        exact List.cons_ne_nil _ _
      split
      · have hreport : Effect x (fun _ => False) (x.levels < depth + (fuel + 1)) run
            (run.visit (.skipped run.chain .archiveLimitReached)) .ok _ := Effect.report rfl
        have hvisit : (run.visit (.skipped run.chain .archiveLimitReached)).chain.length + 1 = depth :=
          hchain
        obtain ⟨new, hnew⟩ := expandEntries_effect hnested hlength hvisit hdepth
        refine ⟨⟨_, (hreport.trans hnew expandEntries_idle (fun _ h => h.elim)).mono ?_⟩, ?_⟩
        · rintro p (h | h)
          · exact h.elim
          · exact hrel p h
        · intro hzero
          have hvisited : (run.visit (.skipped run.chain .archiveLimitReached)).budgetLeft = 0 := hzero
          exact expandEntries_idle hvisited
      · obtain ⟨new, hnew⟩ := expandEntries_effect hnested hlength hchain hdepth
        exact ⟨⟨new, hnew.mono hrel⟩, expandEntries_idle⟩

theorem expand_nests (x : Expander) (fuel depth : ℕ) :
    Nests x False (fun data depth => x.expand fuel data depth true) depth := by
  intro data run hrun hlt
  have hlevel : run.chain.length + 1 = depth + 1 := by rw [hrun]
  obtain ⟨⟨new, hnew⟩, hidle⟩ := expand_effect fuel data true hlevel (le_trans hlt (Nat.le_max_right _ _))
  exact ⟨⟨new, { hnew with finished := nofun }⟩, hidle⟩

end File

section Fuel

variable {x : Expander} {nested nested' : Bytes → ℕ → Expansion → Expansion × Expanded}
  {depth index : ℕ} {run : Expansion} {m : MemberRead} {entry : ZipEntry} {entries : List ZipEntry}

/-- Where `nested` finishes, `nested'` does the same. -/
def Extends (nested nested' : Bytes → ℕ → Expansion → Expansion × Expanded) : Prop :=
  ∀ data depth run, (nested data depth run).2 ≠ .unfinished →
    nested' data depth run = nested data depth run

theorem deliver_congr (h : Extends nested nested') (hfin : (x.deliver nested depth m run).2 ≠ .unfinished) :
    x.deliver nested' depth m run = x.deliver nested depth m run := by
  rw [deliver] at hfin ⊢
  rw [deliver]
  cases hs : run.spend m.total with
  | none => rfl
  | some paid =>
    simp only [hs] at hfin ⊢
    split
    · rename_i hzip
      rw [if_pos hzip] at hfin
      split
      · rename_i hlt
        rw [if_pos hlt] at hfin
        exact h _ _ _ hfin
      · rfl
    · rfl

theorem member_congr (h : Extends nested nested') (hfin : (x.member nested depth entry run).2 ≠ .unfinished) :
    x.member nested' depth entry run = x.member nested depth entry run := by
  rw [member] at hfin ⊢
  rw [member]
  cases ho : entry.opened with
  | error e => rfl
  | ok reads =>
    simp only [ho] at hfin ⊢
    cases hr : x.readLoop reads ⟨[], true, [], 0⟩ run with
    | mk after turn =>
      rw [hr] at hfin
      cases turn with
      | returned outcome => rfl
      | finished m => exact deliver_congr h hfin

theorem expandEntry_congr (h : Extends nested nested')
    (hfin : (x.expandEntry nested depth index entry run).2 ≠ .unfinished) :
    x.expandEntry nested' depth index entry run = x.expandEntry nested depth index entry run := by
  rw [expandEntry] at hfin ⊢
  rw [expandEntry]
  cases hraw : entry.raw with
  | error e => rfl
  | ok raw =>
    simp only [hraw] at hfin ⊢
    split
    · rfl
    · rename_i hdir
      rw [if_neg hdir] at hfin
      split
      · rfl
      · rename_i henc
        split
        · rfl
        · rename_i hlink
          rw [if_neg henc, if_neg hlink] at hfin
          rw [member_congr h hfin]

theorem expandEntries_congr (h : Extends nested nested')
    (hfin : (x.expandEntries nested depth index entries run).2 ≠ .unfinished) :
    x.expandEntries nested' depth index entries run = x.expandEntries nested depth index entries run := by
  induction entries generalizing index run with
  | nil => rfl
  | cons entry rest ih =>
    rw [expandEntries] at hfin ⊢
    rw [expandEntries]
    cases hc : x.check run with
    | mk stopped run =>
      rw [hc] at hfin
      cases stopped with
      | some s => rfl
      | none =>
        simp only at hfin ⊢
        split
        · rfl
        · rename_i hleft
          rw [if_neg hleft] at hfin
          cases he : x.expandEntry nested depth index entry run with
          | mk after outcome =>
            -- the entry was finished, or the whole would not be
            have hsame : x.expandEntry nested' depth index entry run = (after, outcome) := by
              rw [← he]
              apply expandEntry_congr h
              rw [he]
              intro hun
              simp only at hun
              subst hun
              rw [he] at hfin
              exact hfin rfl
            rw [he] at hfin
            rw [hsame]
            cases outcome with
            | ok => exact ih hfin
            | stop s => rfl
            | underflow => rfl
            | unfinished => rfl

/-- More fuel changes nothing for an expansion that has finished. -/
theorem expand_succ (fuel : ℕ) :
    Extends (fun data depth => x.expand fuel data depth true)
        (fun data depth => x.expand (fuel + 1) data depth true) ∧
      ∀ data depth strict run, (x.expand fuel data depth strict run).2 ≠ .unfinished →
        x.expand (fuel + 1) data depth strict run = x.expand fuel data depth strict run := by
  induction fuel with
  | zero => exact ⟨fun _ _ _ h => absurd rfl h, fun _ _ _ _ h => absurd rfl h⟩
  | succ fuel ih =>
    have hstep : ∀ data depth strict run, (x.expand (fuel + 1) data depth strict run).2 ≠ .unfinished →
        x.expand (fuel + 1 + 1) data depth strict run = x.expand (fuel + 1) data depth strict run := by
      intro data depth strict run hfin
      rw [expand] at hfin ⊢
      rw [expand]
      cases ho : x.openZip data with
      | error e => rfl
      | ok entries =>
        rw [ho] at hfin
        exact expandEntries_congr ih.1 hfin
    exact ⟨fun data depth run => hstep data depth true run, hstep⟩

theorem expand_fuel (fuel extra : ℕ) {data : Bytes} {strict : Bool}
    (hfin : (x.expand fuel data depth strict run).2 ≠ .unfinished) :
    x.expand (fuel + extra) data depth strict run = x.expand fuel data depth strict run := by
  induction extra with
  | zero => rfl
  | succ extra ih =>
    rw [← Nat.add_assoc, (expand_succ (fuel + extra)).2 _ _ _ _ (by rwa [ih]), ih]

end Fuel

section Bounds

variable {x : Expander} {log : List (List ℕ × ArchiveEvent)}

/-- The members delivered from the archive at a place. -/
def deliveredFrom (archive : List ℕ) (log : List (List ℕ × ArchiveEvent)) : List (List ℕ × ArchiveEvent) :=
  log.filter fun r => r.2.isMember && decide (r.1 ≠ [] ∧ r.1.dropLast = archive)

/-- Members at different places of one archive, each below a bound, are no more than the bound. -/
theorem deliveredFrom_length {n : ℕ} (hnodup : (memberPlaces log).Nodup)
    (hlt : ∀ p ∈ memberPlaces log, ∀ i ∈ p, i < n) (archive : List ℕ) :
    (deliveredFrom archive log).length ≤ n := by
  have hmem : ∀ r ∈ deliveredFrom archive log,
      r.1 ∈ memberPlaces log ∧ r.1 = archive ++ [r.1.getLastD 0] := by
    intro r hr
    rw [deliveredFrom, List.mem_filter] at hr
    have hcond : r.2.isMember = true ∧ r.1 ≠ [] ∧ r.1.dropLast = archive := by simpa using hr.2
    refine ⟨mem_memberPlaces.mpr ⟨r.2, hr.1, hcond.1⟩, ?_⟩
    rw [← hcond.2.2, List.getLastD_eq_getLast?, List.getLast?_eq_some_getLast hcond.2.1]
    exact (List.dropLast_append_getLast hcond.2.1).symm
  have hsub : ((deliveredFrom archive log).map Prod.fst).Sublist (memberPlaces log) := by
    rw [memberPlaces]
    apply List.Sublist.map
    have hfilter : deliveredFrom archive log = (log.filter fun r => r.2.isMember).filter
        fun r => decide (r.1 ≠ [] ∧ r.1.dropLast = archive) := by
      rw [deliveredFrom, List.filter_filter]
      congr 1
      funext r
      exact Bool.and_comm _ _
    rw [hfilter]
    exact List.filter_sublist
  have hplaces : ((deliveredFrom archive log).map Prod.fst).Nodup := hsub.nodup hnodup
  -- members of one archive are told apart by their index in it
  have hlast : ((deliveredFrom archive log).map fun r => r.1.getLastD 0).Nodup := by
    refine List.Nodup.map_on ?_ hplaces.of_map
    intro r hr r' hr' heq
    have hfst : r.1 = r'.1 := by rw [(hmem r hr).2, (hmem r' hr').2, heq]
    exact List.inj_on_of_nodup_map hplaces hr hr' hfst
  -- and the indices are below the bound
  have hrange : ((deliveredFrom archive log).map fun r => r.1.getLastD 0) ⊆ List.range n := by
    intro i hi
    obtain ⟨r, hr, rfl⟩ := List.mem_map.mp hi
    rw [List.mem_range]
    apply hlt r.1 (hmem r hr).1
    rw [(hmem r hr).2]
    simp
  have hlen := (hlast.subperm hrange).length_le
  rwa [List.length_map, List.length_range] at hlen

theorem validate_depth (hvalid : x.limits.validate = .ok ()) (henabled : x.limits.enabled = true) :
    1 ≤ x.limits.maxDepth := by
  rw [ArchiveLimits.validate, if_pos henabled] at hvalid
  by_contra hzero
  rw [if_pos (by omega)] at hvalid
  cases hvalid

/-- The work one expansion may do. -/
structure Bounded (x : Expander) (run : Expansion) : Prop where
  decompressed : run.decompressed ≤ x.limits.maxTotalBytes + archiveChunk
  delivered : deliveredBytes run.log ≤ x.limits.maxTotalBytes
  members : ∀ archive, (deliveredFrom archive run.log).length ≤ x.limits.maxEntries
  member : ∀ chain digest size content, ArchiveEvent.member chain digest size content ∈ run.events →
    1 ≤ chain.length ∧ chain.length ≤ x.limits.maxDepth ∧ size ≤ x.maxMemberSize
  chain : run.chain = []

/-- Whatever the ZIP library returns for whatever data, an archive that contains itself included. -/
theorem archive_work_bounded (x : Expander) (hvalid : x.limits.validate = .ok ())
    (henabled : x.limits.enabled = true) (fuel : ℕ) (data : Bytes) :
    Bounded x (x.expandFile fuel data).1 ∧ (x.expandFile fuel data).2 ≠ .underflow ∧
    (∀ depth index entry run, run.chain.length + 1 = depth → depth ≤ x.limits.maxDepth →
      index < x.limits.maxEntries →
      (x.expandEntry (fun data depth => x.expand fuel data depth true) depth index entry run).1.chain =
        run.chain) ∧
    (x.limits.maxDepth ≤ fuel → (x.expandFile fuel data).2 ≠ .unfinished ∧
      x.expandFile fuel data = x.expandFile x.limits.maxDepth data) := by
  have hdepth := validate_depth hvalid henabled
  have hlevels : x.levels = x.limits.maxDepth := max_eq_right hdepth
  rw [← hlevels]
  have hfirst : 1 ≤ x.levels := Nat.le_max_left _ _
  have hnew : x.new.chain.length + 1 = 1 := rfl
  obtain ⟨⟨new, heffect⟩, -⟩ := expand_effect fuel data (looksLikeZip data) hnew hfirst
  have hlog : (x.expandFile fuel data).1.log = new := heffect.log
  refine ⟨⟨heffect.spent.trans_eq (by simp [Expander.new]), ?_, ?_, ?_, heffect.chain⟩, heffect.underflow, ?_, ?_⟩
  · rw [hlog]
    exact le_trans (Nat.le_add_right _ _) heffect.budget
  -- places are different and their indices are within the limit
  · intro archive
    rw [hlog]
    refine deliveredFrom_length heffect.nodup ?_ archive
    intro p hp i hi
    obtain ⟨event, hr, hmember⟩ := mem_memberPlaces.mp hp
    obtain ⟨q, hq, -, hlt, -⟩ := heffect.member _ hr hmember
    have hpq : p = q := hq
    exact hlt i (hpq ▸ hi)
  · intro chain digest size content hevent
    obtain ⟨r, hr, heq⟩ := List.mem_map.mp hevent
    rw [hlog] at hr
    obtain ⟨q, -, hne, -, hlen, hmax, hsize⟩ := heffect.member r hr (by rw [heq]; rfl)
    rw [heq] at hlen hmax hsize
    have hpos := List.length_pos_iff.mpr hne
    exact ⟨by simp only [ArchiveEvent.chain] at hlen; omega, hlevels ▸ hmax, hsize⟩
  · intro depth index entry run hchain hle hindex
    obtain ⟨new, hentry⟩ := expandEntry_effect (expand_nests x fuel depth) entry hindex hchain hle
    exact hentry.chain
  -- a nesting that is bounded does not use more fuel than the limit
  · intro hfuel
    have hfin : (x.expandFile x.levels data).2 ≠ .unfinished := by
      obtain ⟨⟨more, hmore⟩, -⟩ := expand_effect x.levels data (looksLikeZip data) hnew hfirst
      exact hmore.finished (by omega)
    have hsame : x.expandFile fuel data = x.expandFile x.levels data := by
      have hextra := expand_fuel x.levels (fuel - x.levels) hfin
      rwa [Nat.add_sub_cancel' hfuel] at hextra
    exact ⟨by rw [hsame]; exact hfin, hsame⟩

end Bounds

theorem zeros_length : (List.replicate 32 (0 : UInt8)).length = 32 := rfl

/-- Every file with the signature is an archive that contains itself, twice. -/
def selfContaining : Expander where
  limits := smallLimits
  maxMemberSize := 50
  openZip := fun data =>
    if data = zipSignature then
      .ok [plainEntry "again.zip" zipSignature nofun (by decide),
        plainEntry "once more.zip" zipSignature nofun (by decide)]
    else .error ⟨.other, "invalid Zip archive"⟩
  sha256 := fun _ => ⟨List.replicate 32 0, rfl⟩
  halted := fun _ => none

theorem archive_work_bounded_sample :
    Bounded selfContaining (selfContaining.expandFile 3 zipSignature).1 ∧
      (selfContaining.expandFile 3 zipSignature).2 = .ok ∧
      deliveredBytes (selfContaining.expandFile 3 zipSignature).1.log = 56 :=
  ⟨(archive_work_bounded selfContaining rfl rfl 3 zipSignature).1, by decide +kernel, by decide +kernel⟩

end Expander

end AbyssalWarden

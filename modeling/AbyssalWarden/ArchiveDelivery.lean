import AbyssalWarden.ArchiveBounds

/-! What an archive holds, at every nesting level, and what of it an expansion that reports nothing
has delivered. -/
namespace AbyssalWarden

namespace Expander

/-- An entry inside the archive `data`, with its place and the names that lead to it: `shown` says
which entries count, `opens` which of them are looked into. -/
inductive Inside (x : Expander) (shown opens : RawEntry → ZipEntry → Prop) :
    Bytes → List ℕ → List ObservedPath → ZipEntry → Prop where
  | listed {data entries index entry raw} :
    x.openZip data = .ok entries → entries[index]? = some entry → entry.raw = .ok raw →
      shown raw entry → Inside x shown opens data [index] [raw.memberName] entry
  | nested {data entries index entry raw place chain inner} :
    x.openZip data = .ok entries → entries[index]? = some entry → entry.raw = .ok raw →
      opens raw entry → Inside x shown opens entry.content place chain inner →
      Inside x shown opens data (index :: place) (raw.memberName :: chain) inner

/-- Every file, and whatever else has content, down into every ZIP. -/
def Holds (x : Expander) : Bytes → List ℕ → List ObservedPath → ZipEntry → Prop :=
  x.Inside (fun raw entry => raw.isDir = false ∨ entry.content ≠ [])
    (fun _ entry => looksLikeZip entry.content)

/-- A file that is a ZIP and small enough to be kept is looked into. -/
def Opens (x : Expander) (raw : RawEntry) (entry : ZipEntry) : Prop :=
  raw.isDir = false ∧ looksLikeZip entry.content ∧ entry.content.length ≤ x.limits.maxMemberContent

def Reached (x : Expander) : Bytes → List ℕ → List ObservedPath → ZipEntry → Prop :=
  x.Inside (fun raw _ => raw.isDir = false) x.Opens

/-- Nothing hides: no directory entry has content, and what is too large to be kept is no ZIP that
holds anything. -/
structure Inspectable (x : Expander) (data : Bytes) : Prop where
  files : ∀ place chain entry raw, x.Holds data place chain entry → entry.raw = .ok raw → raw.isDir = false
  kept : ∀ place chain entry, x.Holds data place chain entry → looksLikeZip entry.content →
    x.limits.maxMemberContent < entry.content.length → ∀ p c inner, ¬ x.Holds entry.content p c inner

/-- Each entry is delivered once, with its chain, its digest and its size. -/
def DeliveredOnce (x : Expander) (data : Bytes) (run : Expansion) : Prop :=
  ∀ place chain entry, x.Holds data place chain entry →
    ∃ kept, run.log.filter (fun r => decide (r.1 = place) && r.2.isMember) =
      [(place, .member chain (x.sha256 entry.content) entry.content.length kept)]

section Inside

variable {x : Expander} {shown opens shown' opens' : RawEntry → ZipEntry → Prop} {data : Bytes}
  {place p : List ℕ} {chain chain' c : List ObservedPath} {entry entry' inner : ZipEntry}

/-- A place is of one entry. -/
theorem Inside.unique (h : x.Inside shown opens data place chain entry)
    (h' : x.Inside shown' opens' data place chain' entry') : chain = chain' ∧ entry = entry' := by
  induction h generalizing chain' entry' with
  | listed hopen hindex hraw hshown =>
    cases h' with
    | listed hopen' hindex' hraw' hshown' =>
      obtain rfl := Except.ok.inj (hopen.symm.trans hopen')
      obtain rfl := Option.some.inj (hindex.symm.trans hindex')
      obtain rfl := Except.ok.inj (hraw.symm.trans hraw')
      exact ⟨rfl, rfl⟩
    | nested hopen' hindex' hraw' hopens hinner => cases hinner
  | nested hopen hindex hraw hopens hinner ih =>
    cases h' with
    | listed hopen' hindex' hraw' hshown' => cases hinner
    | nested hopen' hindex' hraw' hopens' hinner' =>
      obtain rfl := Except.ok.inj (hopen.symm.trans hopen')
      obtain rfl := Option.some.inj (hindex.symm.trans hindex')
      obtain rfl := Except.ok.inj (hraw.symm.trans hraw')
      obtain ⟨hchain, hentry⟩ := ih hinner'
      exact ⟨by rw [hchain], hentry⟩

theorem Holds.trans (h : x.Holds data place chain entry) (hzip : looksLikeZip entry.content)
    (hinner : x.Holds entry.content p c inner) : x.Holds data (place ++ p) (chain ++ c) inner := by
  induction h with
  | listed hopen hindex hraw hshown => exact .nested hopen hindex hraw hzip hinner
  | nested hopen hindex hraw hopens hin ih => exact .nested hopen hindex hraw hopens (ih hzip hinner)

/-- What is reached inside an entry is reached through it. -/
theorem Reached.through (h : x.Reached data (place ++ p) c inner)
    (hentry : x.Holds data place chain entry) (hne : p ≠ []) : ∃ raw, x.Opens raw entry := by
  induction hentry generalizing c with
  | listed hopen hindex hraw hshown =>
    cases h with
    | listed hopen' hindex' hraw' hshown' => exact absurd rfl hne
    | nested hopen' hindex' hraw' hopens hinner =>
      obtain rfl := Except.ok.inj (hopen.symm.trans hopen')
      obtain rfl := Option.some.inj (hindex.symm.trans hindex')
      exact ⟨_, hopens⟩
  | nested hopen hindex hraw hopens hin ih =>
    generalize hplace : _ ++ p = q at h
    cases h with
    | listed hopen' hindex' hraw' hshown' =>
      obtain ⟨-, hnil⟩ := List.cons.inj hplace
      exact absurd (List.append_eq_nil_iff.mp hnil).2 hne
    | nested hopen' hindex' hraw' hopens' hinner =>
      obtain ⟨rfl, rfl⟩ := List.cons.inj hplace
      obtain rfl := Except.ok.inj (hopen.symm.trans hopen')
      obtain rfl := Option.some.inj (hindex.symm.trans hindex')
      exact ih hinner

theorem Reached.isFile (h : x.Reached data place chain entry) :
    ∃ raw, entry.raw = .ok raw ∧ raw.isDir = false := by
  induction h with
  | listed hopen hindex hraw hshown => exact ⟨_, hraw, hshown⟩
  | nested hopen hindex hraw hopens hin ih => exact ih

theorem looksLikeZip_ne_nil {bytes : Bytes} (h : looksLikeZip bytes) : bytes ≠ [] := by
  rintro rfl
  exact absurd h (by decide)

theorem Holds.zip {entries : List ZipEntry} {index : ℕ} {raw : RawEntry}
    (hopen : x.openZip data = .ok entries) (hindex : entries[index]? = some entry)
    (hraw : entry.raw = .ok raw) (hzip : looksLikeZip entry.content) :
    x.Holds data [index] [raw.memberName] entry :=
  .listed hopen hindex hraw (.inr (looksLikeZip_ne_nil hzip))

/-- Inside a ZIP of an archive without hiding places there are none. -/
theorem Inspectable.nested (h : x.Inspectable data) (hentry : x.Holds data place chain entry)
    (hzip : looksLikeZip entry.content) : x.Inspectable entry.content :=
  ⟨fun _ _ inner raw hinner => h.files _ _ inner raw (hentry.trans hzip hinner),
    fun _ _ inner hinner => h.kept _ _ inner (hentry.trans hzip hinner)⟩

theorem Inspectable.reached (h : x.Inspectable data) (hentry : x.Holds data place chain entry) :
    x.Reached data place chain entry := by
  induction hentry with
  | listed hopen hindex hraw hshown =>
    exact .listed hopen hindex hraw (h.files _ _ _ _ (.listed hopen hindex hraw hshown) hraw)
  | nested hopen hindex hraw hzip hinner ih =>
    have houter := Holds.zip hopen hindex hraw hzip
    refine .nested hopen hindex hraw ⟨h.files _ _ _ _ houter hraw, hzip, ?_⟩ (ih (h.nested houter hzip))
    by_contra hlarge
    exact h.kept _ _ _ houter hzip (Nat.lt_of_not_le hlarge) _ _ _ hinner

/-- Everything held is reached just when nothing hides. -/
theorem holds_reached_iff :
    (∀ place chain entry, x.Holds data place chain entry → x.Reached data place chain entry) ↔
      x.Inspectable data := by
  constructor
  · intro h
    refine ⟨?_, ?_⟩
    · intro place chain entry raw hentry hraw
      obtain ⟨raw', hraw', hfile⟩ := (h place chain entry hentry).isFile
      rw [Except.ok.inj (hraw.symm.trans hraw')]
      exact hfile
    · intro place chain entry hentry hzip hlarge p c inner hinner
      have hne : p ≠ [] := by
        rintro rfl
        cases hinner
      obtain ⟨raw, hopens⟩ := (h _ _ _ (hentry.trans hzip hinner)).through hentry hne
      exact absurd hopens.2.2 (Nat.not_le_of_lt hlarge)
  · intro h place chain entry hentry
    exact h.reached hentry

end Inside

section Delivery

variable {x : Expander} {S : List ℕ → List ObservedPath → ZipEntry → Prop} {run : Expansion}
  {r : Expansion × Expanded} {fin : Prop} {depth index : ℕ} {entry : ZipEntry} {data : Bytes}
  {entries : List ZipEntry} {nested : Bytes → ℕ → Expansion → Expansion × Expanded}

/-- The event of an entry, delivered from `run`. -/
def delivery (x : Expander) (run : Expansion) (place : List ℕ) (chain : List ObservedPath)
    (entry : ZipEntry) : List ℕ × ArchiveEvent :=
  (run.place ++ place, .member (run.chain ++ chain) (x.sha256 entry.content) entry.content.length
    (if entry.content.length ≤ x.limits.maxMemberContent then some entry.content else none))

/-- A call that reports nothing delivers just the entries of `S`. -/
def Delivers (x : Expander) (S : List ℕ → List ObservedPath → ZipEntry → Prop) (run : Expansion)
    (r : Expansion × Expanded) : Prop :=
  ∀ new, r.1.log = run.log ++ new → r.2 = .ok → run.budgetReported = false →
    (∀ e ∈ new, e.2.isMember) →
    ∀ e, e ∈ new ↔ ∃ place chain entry, S place chain entry ∧ e = x.delivery run place chain entry

/-- A call that has reported something promises nothing. -/
theorem Delivers.of_report {after : Expansion} {outcome : Expanded}
    {new : List (List ℕ × ArchiveEvent)} (hlog : after.log = run.log ++ new)
    (hreport : ∃ e ∈ new, e.2.isMember = false) : Delivers x S run (after, outcome) := by
  intro new' hnew' _ _ hclean
  obtain ⟨e, he, hevent⟩ := hreport
  have hsame : new = new' := List.append_cancel_left (hlog.symm.trans hnew')
  have hmember := hclean e (hsame ▸ he)
  rw [hevent] at hmember
  cases hmember

theorem Delivers.visit {mid : Expansion} {event : ArchiveEvent} {outcome : Expanded}
    {new : List (List ℕ × ArchiveEvent)} (hlog : mid.log = run.log ++ new)
    (hevent : event.isMember = false) : Delivers x S run (mid.visit event, outcome) := by
  have hvisit : (mid.visit event).log = run.log ++ (new ++ [(mid.place, event)]) := by
    rw [Expansion.visit, hlog, List.append_assoc]
  exact Delivers.of_report hvisit ⟨_, List.mem_append_right _ (List.mem_singleton_self _), hevent⟩

theorem Delivers.pop {after : Expansion} {outcome : Expanded} (h : Delivers x S run (after, outcome)) :
    Delivers x S run (after.pop, outcome) := h

theorem Delivers.of_stop {after : Expansion} {outcome : Expanded} (h : outcome ≠ .ok) :
    Delivers x S run (after, outcome) :=
  fun _ _ hok => absurd hok h

theorem Delivers.congr {S' : List ℕ → List ObservedPath → ZipEntry → Prop}
    (h : Delivers x S run r) (hS : ∀ place chain entry, S place chain entry ↔ S' place chain entry) :
    Delivers x S' run r := by
  intro new hnew hok hfree hclean e
  rw [h new hnew hok hfree hclean e]
  simp only [hS]

/-- What a member hands on: itself, and what is reached inside it. -/
def MemberReached (x : Expander) (entry : ZipEntry) (place : List ℕ) (chain : List ObservedPath)
    (inner : ZipEntry) : Prop :=
  (place = [] ∧ chain = [] ∧ inner = entry) ∨
    (looksLikeZip entry.content ∧ entry.content.length ≤ x.limits.maxMemberContent ∧
      x.Reached entry.content place chain inner)

/-- What the entry at `index` hands on. -/
def EntryReached (x : Expander) (index : ℕ) (entry : ZipEntry) (place : List ℕ)
    (chain : List ObservedPath) (inner : ZipEntry) : Prop :=
  ∃ raw p c, entry.raw = .ok raw ∧ raw.isDir = false ∧ place = index :: p ∧
    chain = raw.memberName :: c ∧ x.MemberReached entry p c inner

theorem reached_iff (hopen : x.openZip data = .ok entries) {place : List ℕ}
    {chain : List ObservedPath} {inner : ZipEntry} :
    x.Reached data place chain inner ↔
      ∃ index entry, entries[index]? = some entry ∧ x.EntryReached index entry place chain inner := by
  constructor
  · intro h
    cases h with
    | listed hopen' hindex hraw hfile =>
      obtain rfl := Except.ok.inj (hopen.symm.trans hopen')
      exact ⟨_, _, hindex, _, [], [], hraw, hfile, rfl, rfl, .inl ⟨rfl, rfl, rfl⟩⟩
    | nested hopen' hindex hraw hopens hinner =>
      obtain rfl := Except.ok.inj (hopen.symm.trans hopen')
      exact ⟨_, _, hindex, _, _, _, hraw, hopens.1, rfl, rfl, .inr ⟨hopens.2.1, hopens.2.2, hinner⟩⟩
  · rintro ⟨index, entry, hindex, raw, p, c, hraw, hfile, rfl, rfl, hmember⟩
    rcases hmember with ⟨rfl, rfl, rfl⟩ | ⟨hzip, hkept, hinner⟩
    · exact .listed hopen hindex hraw hfile
    · exact .nested hopen hindex hraw ⟨hfile, hzip, hkept⟩ hinner

/-- What `nested` is relied on to deliver. -/
def NestsDelivers (x : Expander) (nested : Bytes → ℕ → Expansion → Expansion × Expanded)
    (depth : ℕ) : Prop :=
  ∀ data run, run.chain.length = depth → depth < x.limits.maxDepth →
    Delivers x (x.Reached data) run (nested data (depth + 1) run)

theorem Effect.unreported {rel : List ℕ → Prop} {after : Expansion} {outcome : Expanded}
    {new : List (List ℕ × ArchiveEvent)} (h : Effect x rel fin run after outcome new)
    (hfree : run.budgetReported = false) (hclean : ∀ e ∈ new, e.2.isMember) :
    after.budgetReported = false := by
  by_contra hset
  rcases h.reported (by simpa using hset) with hrun | ⟨e, he, hreport⟩
  · rw [hfree] at hrun
    cases hrun
  · exact hreport (hclean e he)

/-- Two calls in a row deliver what the one and the other deliver. -/
theorem Delivers.trans {S' : List ℕ → List ObservedPath → ZipEntry → Prop} {rel : List ℕ → Prop}
    {mid after : Expansion} {outcome : Expanded} {first second : List (List ℕ × ArchiveEvent)}
    (heffect : Effect x rel fin run mid .ok first) (hsecond : after.log = mid.log ++ second)
    (h : Delivers x S run (mid, .ok)) (h' : Delivers x S' mid (after, outcome)) :
    Delivers x (fun place chain entry => S place chain entry ∨ S' place chain entry) run
      (after, outcome) := by
  intro new hnew hok hfree hclean e
  have hsplit : new = first ++ second := by
    have hlogs : run.log ++ new = run.log ++ (first ++ second) := by
      rw [← hnew, hsecond, heffect.log, List.append_assoc]
    exact List.append_cancel_left hlogs
  subst hsplit
  have hfirst : ∀ e ∈ first, e.2.isMember := fun e he => hclean e (List.mem_append_left _ he)
  have hmid := heffect.unreported hfree hfirst
  have hleft := h first heffect.log rfl hfree hfirst e
  have hright := h' second hsecond hok hmid (fun e he => hclean e (List.mem_append_right _ he)) e
  -- where nothing was stopped, the events of the two calls are appended
  rw [List.mem_append, hleft, hright]
  have hdelivery : ∀ place chain entry,
      x.delivery mid place chain entry = x.delivery run place chain entry := by
    intro place chain entry
    rw [delivery, delivery, heffect.place, heffect.chain]
  simp only [hdelivery]
  constructor
  · rintro (⟨place, chain, entry, hS, he⟩ | ⟨place, chain, entry, hS, he⟩)
    · exact ⟨place, chain, entry, .inl hS, he⟩
    · exact ⟨place, chain, entry, .inr hS, he⟩
  · rintro ⟨place, chain, entry, hS | hS, he⟩
    · exact .inl ⟨place, chain, entry, hS, he⟩
    · exact .inr ⟨place, chain, entry, hS, he⟩

theorem deliver_delivers {start : Expansion} {m : MemberRead} (hnested : Nests x False nested depth)
    (hdelivers : NestsDelivers x nested depth) (h : Reading x start run m)
    (hread : m.hashed = entry.content) (hchain : start.chain.length = depth) (hdepth : depth ≤ x.levels) :
    Delivers x (x.MemberReached entry) start (x.deliver nested depth m run) := by
  have htotal : m.total = entry.content.length := by rw [← h.hashed, hread]
  have hkeep : m.keep = decide (entry.content.length ≤ x.limits.maxMemberContent) := by
    rw [h.keep, htotal]
  rw [deliver]
  obtain ⟨paid, hpaid, hpaidChain, heffect⟩ := h.delivered False (x.sha256 m.hashed)
    (if m.keep then some m.content else none) (hchain ▸ hdepth)
  rw [hpaid]
  simp only
  -- the member itself is delivered once, with its content if that was kept
  have hself : Delivers x (fun place chain inner => place = [] ∧ chain = [] ∧ inner = entry) start
      (paid.visit (.member paid.chain (x.sha256 m.hashed) m.total
        (if m.keep then some m.content else none)), .ok) := by
    intro new hnew _ _ _ e
    have hsame := List.append_cancel_left (heffect.log.symm.trans hnew)
    have hevent : x.delivery start [] [] entry = (start.place, .member start.chain (x.sha256 m.hashed)
        m.total (if m.keep then some m.content else none)) := by
      rw [delivery, List.append_nil, List.append_nil, hread, htotal, hkeep]
      by_cases hle : entry.content.length ≤ x.limits.maxMemberContent
      · have hkept := h.kept (by rw [hkeep]; exact decide_eq_true hle)
        simp only [hle, if_true, decide_true]
        rw [hkept, hread]
      · simp only [hle, if_false, decide_false, Bool.false_eq_true]
    rw [← hsame, List.mem_singleton, ← hevent]
    constructor
    · intro he
      exact ⟨[], [], entry, ⟨rfl, rfl, rfl⟩, he⟩
    · rintro ⟨_, _, _, ⟨rfl, rfl, rfl⟩, he⟩
      exact he
  -- a member that is a ZIP below the nesting limit is expanded as well
  split
  · rename_i hzip
    rw [Bool.and_eq_true, hkeep, decide_eq_true_iff] at hzip
    have hcontent : m.content = entry.content := by
      rw [h.kept (by rw [hkeep]; exact decide_eq_true hzip.1), hread]
    split
    -- what is inside follows what was delivered of the member
    · rename_i hlt
      have hvisited : (paid.visit (.member paid.chain (x.sha256 m.hashed) m.total
          (if m.keep then some m.content else none))).chain.length = depth := by
        rw [Expansion.visit, hpaidChain, hchain]
      obtain ⟨⟨new, hnew⟩, -⟩ := hnested m.content _ hvisited hlt
      refine (hself.trans heffect hnew.log (hdelivers m.content _ hvisited hlt)).congr ?_
      -- the content that was kept is the entry's, so the same archive is meant
      intro place chain inner
      rw [hcontent, MemberReached]
      rw [hcontent] at hzip
      simp only [hzip.1, hzip.2, true_and]
    · exact Delivers.visit heffect.log rfl
  · rename_i hno
    refine hself.congr ?_
    intro place chain inner
    rw [MemberReached]
    constructor
    · exact .inl
    · rintro (hsame | ⟨hzip, hle, -⟩)
      · exact hsame
      · have hcontent := h.kept (by rw [hkeep]; exact decide_eq_true hle)
        rw [Bool.and_eq_true, hkeep, hcontent, hread] at hno
        exact absurd ⟨decide_eq_true hle, hzip⟩ hno

theorem member_delivers (entry : ZipEntry) (hnested : Nests x False nested depth)
    (hdelivers : NestsDelivers x nested depth) (hchain : run.chain.length = depth)
    (hdepth : depth ≤ x.levels) :
    Delivers x (x.MemberReached entry) run (x.member nested depth entry run) := by
  rw [member]
  have hlog : run.log = run.log ++ [] := (List.append_nil _).symm
  cases ho : entry.opened with
  | error e =>
    simp only
    split
    · exact Delivers.visit hlog rfl
    · exact Delivers.visit hlog rfl
    · exact Delivers.visit hlog rfl
  | ok reads =>
    simp only
    have hloop := readLoop_spec (fun _ => True) False reads (Reading.new x run)
    cases hr : x.readLoop reads ⟨[], true, [], 0⟩ run with
    | mk after turn =>
      rw [hr] at hloop
      -- the reading came to the end, or reported something, or was stopped
      rcases hloop with ⟨m', bytes, hfin, hreading, hbytes, hhashed⟩ | ⟨event, hret, hevent, heffect⟩ |
        ⟨s, hret, -⟩
      · simp only at hfin
        subst hfin
        have hread : m'.hashed = entry.content := by
          rw [hhashed, List.nil_append]
          exact entry.sound reads bytes ho hbytes
        exact deliver_delivers hnested hdelivers hreading hread hchain hdepth
      · simp only at hret
        subst hret
        exact Delivers.of_report heffect.log ⟨_, List.mem_singleton_self _, hevent⟩
      · simp only at hret
        subst hret
        exact Delivers.of_stop fun h => by cases h

theorem expandEntry_delivers (entry : ZipEntry) (index : ℕ) (hnested : Nests x False nested depth)
    (hdelivers : NestsDelivers x nested depth) (hchain : run.chain.length + 1 = depth)
    (hdepth : depth ≤ x.levels) :
    Delivers x (x.EntryReached index entry) run (x.expandEntry nested depth index entry run) := by
  rw [expandEntry]
  cases hraw : entry.raw with
  | error e => exact Delivers.visit (List.append_nil _).symm rfl
  | ok raw =>
    simp only
    split
    -- a directory delivers nothing, and none of its names is reached
    · rename_i hdir
      intro new hnew _ _ _ e
      have hnil : new = [] := List.append_cancel_left (hnew.symm.trans (List.append_nil _).symm)
      subst hnil
      constructor
      · intro h
        cases h
      · rintro ⟨_, _, _, ⟨raw', _, _, hraw', hfile, _⟩, _⟩
        obtain rfl := Except.ok.inj (hraw.symm.trans hraw')
        rw [hfile] at hdir
        cases hdir
    · rename_i hdir
      -- an encrypted entry, a symbolic link, or a member
      split
      · exact Delivers.pop (Delivers.visit (List.append_nil _).symm rfl)
      · split
        · exact Delivers.pop (Delivers.visit (List.append_nil _).symm rfl)
        · have hpush : (run.push raw.memberName index).chain.length = depth := by
            simpa [Expansion.push] using hchain
          have hmember := member_delivers entry hnested hdelivers hpush hdepth
          intro new hnew hok hfree hclean e
          rw [hmember new hnew hok hfree hclean e]
          -- the entry's index and name come first in what is inside it
          have hdelivery : ∀ p c inner, x.delivery (run.push raw.memberName index) p c inner =
              x.delivery run (index :: p) (raw.memberName :: c) inner := by
            intro p c inner
            simp [delivery, Expansion.push]
          constructor
          · rintro ⟨p, c, inner, hin, he⟩
            exact ⟨_, _, inner, ⟨raw, p, c, hraw, by simpa using hdir, rfl, rfl, hin⟩,
              by rw [he, hdelivery]⟩
          · rintro ⟨_, _, inner, ⟨raw', p, c, hraw', _, rfl, rfl, hin⟩, he⟩
            obtain rfl := Except.ok.inj (hraw.symm.trans hraw')
            exact ⟨p, c, inner, hin, by rw [he, hdelivery]⟩

/-- The loop of `expand` delivers what its entries hand on. -/
theorem expandEntries_delivers (hnested : Nests x False nested depth)
    (hdelivers : NestsDelivers x nested depth) (hindex : index + entries.length ≤ x.limits.maxEntries)
    (hchain : run.chain.length + 1 = depth) (hdepth : depth ≤ x.levels) :
    Delivers x (fun place chain inner => ∃ j entry, entries[j]? = some entry ∧
      x.EntryReached (index + j) entry place chain inner) run
      (x.expandEntries nested depth index entries run) := by
  -- one turn of the loop, and then the entries that follow under the next index
  induction entries generalizing index run with
  | nil =>
    intro new hnew _ _ _ e
    have hnil : new = [] := List.append_cancel_left (hnew.symm.trans (List.append_nil _).symm)
    subst hnil
    constructor
    · intro h
      cases h
    · rintro ⟨_, _, _, ⟨j, entry, hj, _⟩, _⟩
      cases hj
  | cons entry rest ih =>
    rw [expandEntries, check]
    cases x.halted run.checks with
    | some s => exact Delivers.of_stop fun h => by cases h
    | none =>
      simp only
      split
      -- a limit that is reached is reported, once
      · split
        · rename_i hset
          intro new _ _ hfree
          rw [hfree] at hset
          cases hset
        · exact Delivers.visit (List.append_nil _).symm rfl
      · rw [List.length_cons] at hindex
        have hchecked : { run with checks := run.checks + 1 }.chain.length + 1 = depth := hchain
        obtain ⟨new, hnew⟩ := expandEntry_effect hnested entry (by omega : index < _) hchecked hdepth
        have hentry := expandEntry_delivers entry index hnested hdelivers hchecked hdepth
        cases he : x.expandEntry nested depth index entry { run with checks := run.checks + 1 } with
        | mk after outcome =>
          rw [he] at hnew hentry
          cases outcome with
          | stop s => exact Delivers.of_stop fun h => by cases h
          | underflow => exact Delivers.of_stop fun h => by cases h
          | unfinished => exact Delivers.of_stop fun h => by cases h
          | ok =>
            have hafter : after.chain.length + 1 = depth := by
              rw [hnew.chain]
              exact hchain
            have hrest : index + 1 + rest.length ≤ x.limits.maxEntries := by omega
            obtain ⟨more, hmore⟩ := expandEntries_effect hnested hrest hafter hdepth
            -- what this entry delivers comes before what the others do
            have hboth := hentry.trans hnew hmore.log (ih hrest hafter)
            have hsame : Delivers x _ run _ := hboth
            refine hsame.congr ?_
            intro place chain inner
            constructor
            · rintro (h | ⟨j, e, hj, h⟩)
              · exact ⟨0, entry, rfl, h⟩
              · exact ⟨j + 1, e, hj, by rwa [Nat.add_right_comm, Nat.add_assoc] at h⟩
            · rintro ⟨j, e, hj, h⟩
              cases j with
              | zero =>
                obtain rfl := Option.some.inj hj
                exact .inl h
              | succ j => exact .inr ⟨j, e, hj, by rwa [Nat.add_right_comm, Nat.add_assoc]⟩

/-- An expansion that reports nothing delivers what is reached. -/
theorem expand_delivers (fuel : ℕ) (data : Bytes) (strict : Bool) (hchain : run.chain.length + 1 = depth)
    (hdepth : depth ≤ x.levels) : Delivers x (x.Reached data) run (x.expand fuel data depth strict run) := by
  -- one level of nesting for each unit of fuel
  induction fuel generalizing data depth strict run with
  | zero => exact Delivers.of_stop fun h => by cases h
  | succ fuel ih =>
    rw [expand]
    cases hopen : x.openZip data with
    | error e =>
      simp only
      split
      · exact Delivers.visit (List.append_nil _).symm rfl
      -- data that is no archive delivers nothing, and reaches nothing
      · intro new hnew _ _ _ e
        have hnil : new = [] := List.append_cancel_left (hnew.symm.trans (List.append_nil _).symm)
        subst hnil
        constructor
        · intro h
          cases h
        · rintro ⟨_, _, _, hreached, _⟩
          cases hreached with
          | listed hopen' => cases hopen.symm.trans hopen'
          | nested hopen' => cases hopen.symm.trans hopen'
    | ok entries =>
      simp only
      have hdelivers : NestsDelivers x (fun data depth => x.expand fuel data depth true) depth := by
        intro data run hrun hlt
        have hlevel : run.chain.length + 1 = depth + 1 := by rw [hrun]
        exact ih data true hlevel (le_trans hlt (Nat.le_max_right _ _))
      have hlength : 0 + (entries.take x.limits.maxEntries).length ≤ x.limits.maxEntries := by
        rw [List.length_take]
        omega
      split
      -- entries beyond the limit are reported, so nothing is claimed
      · have hvisit : (run.visit (.skipped run.chain .archiveLimitReached)).chain.length + 1 = depth :=
          hchain
        obtain ⟨new, hnew⟩ := expandEntries_effect (expand_nests x fuel depth) hlength hvisit hdepth
        have hlog := hnew.log
        rw [Expansion.visit, List.append_assoc] at hlog
        exact Delivers.of_report hlog
          ⟨(run.place, .skipped run.chain .archiveLimitReached), List.mem_append_left _ (List.mem_singleton_self _), rfl⟩
      · rename_i hfew
        refine (expandEntries_delivers (expand_nests x fuel depth) hdelivers hlength hchain hdepth).congr ?_
        intro place chain inner
        rw [reached_iff hopen, List.take_of_length_le (Nat.le_of_not_lt hfew)]
        simp only [Nat.zero_add]

end Delivery

section Delivered

variable {x : Expander} {fuel : ℕ} {data : Bytes} {run : Expansion}

/-- The one event at a place, in a log whose members are all at different places. -/
theorem filter_place {log : List (List ℕ × ArchiveEvent)} {place : List ℕ} {event : ArchiveEvent}
    (hnodup : (memberPlaces log).Nodup) (hmem : (place, event) ∈ log) (hmember : event.isMember) :
    log.filter (fun r => decide (r.1 = place) && r.2.isMember) = [(place, event)] := by
  have hfilter : log.filter (fun r => decide (r.1 = place) && r.2.isMember) =
      (log.filter fun r => r.2.isMember).filter fun r => decide (r.1 = place) := by
    rw [List.filter_filter]
  have hin : (place, event) ∈ log.filter fun r => r.2.isMember := List.mem_filter.mpr ⟨hmem, hmember⟩
  rw [hfilter]
  rw [memberPlaces] at hnodup
  generalize log.filter (fun r => r.2.isMember) = members at hnodup hin
  induction members with
  | nil => cases hin
  | cons r rest ih =>
    rw [List.map_cons, List.nodup_cons] at hnodup
    -- it is the first member, and no other is at its place, or it is later
    rcases List.mem_cons.mp hin with hr | hrest
    · subst hr
      rw [List.filter_cons_of_pos (by simp), List.filter_eq_nil_iff.mpr]
      intro r hr heq
      exact hnodup.1 (List.mem_map.mpr ⟨r, hr, by simpa using heq⟩)
    · have hne : r.1 ≠ place := by
        rintro rfl
        exact hnodup.1 (List.mem_map.mpr ⟨_, hrest, rfl⟩)
      rw [List.filter_cons_of_neg (by simpa using hne)]
      exact ih hnodup.2 hrest

/-- Where nothing was reported, everything the archive holds was delivered once just when nothing
in it hides. -/
theorem archive_inspected_iff (hok : x.expandFile fuel data = (run, .ok))
    (hclean : ∀ event ∈ run.events, event.isMember) :
    DeliveredOnce x data run ↔ x.Inspectable data := by
  have hnew : x.new.chain.length + 1 = 1 := rfl
  have hfirst : 1 ≤ x.levels := Nat.le_max_left _ _
  obtain ⟨⟨new, heffect⟩, -⟩ := expand_effect fuel data (looksLikeZip data) hnew hfirst
  have hdelivers := expand_delivers fuel data (looksLikeZip data) hnew hfirst
  rw [← expandFile, hok] at heffect hdelivers
  have hlog : run.log = new := heffect.log
  have hmembers : ∀ e ∈ new, e.2.isMember := by
    intro e he
    exact hclean e.2 (List.mem_map.mpr ⟨e, hlog ▸ he, rfl⟩)
  have hexact := hdelivers new heffect.log rfl rfl hmembers
  rw [← hlog] at hexact
  have hnodup : (memberPlaces run.log).Nodup := hlog ▸ heffect.nodup
  rw [← holds_reached_iff]
  constructor
  · intro hdelivered place chain entry hentry
    obtain ⟨kept, hfilter⟩ := hdelivered place chain entry hentry
    have hin : (place, ArchiveEvent.member chain (x.sha256 entry.content) entry.content.length kept) ∈ run.log :=
      List.mem_of_mem_filter (hfilter ▸ List.mem_singleton_self _)
    obtain ⟨place', chain', entry', hreached, heq⟩ := (hexact _).mp hin
    obtain rfl : place = place' := congrArg Prod.fst heq
    obtain ⟨rfl, rfl⟩ := Inside.unique hentry hreached
    exact hreached
  · intro hreached place chain entry hentry
    have hin := (hexact _).mpr ⟨place, chain, entry, hreached place chain entry hentry, rfl⟩
    exact ⟨_, filter_place hnodup hin rfl⟩

end Delivered

/-- The signature opens as an archive of one entry. -/
def archiveOf (entry : ZipEntry) : Expander where
  limits := smallLimits
  maxMemberSize := 50
  openZip := fun data => if data = zipSignature then .ok [entry] else .error ⟨.other, "invalid Zip archive"⟩
  sha256 := fun _ => ⟨List.replicate 32 0, zeros_length⟩
  halted := fun _ => none

theorem archiveOf_holds {only entry : ZipEntry} {data : Bytes} {place : List ℕ} {chain : List ObservedPath}
    (hplain : looksLikeZip only.content = false) (h : (archiveOf only).Holds data place chain entry) :
    entry = only := by
  have hlisted : ∀ {data : Bytes} {entries : List ZipEntry} {index : ℕ} {e : ZipEntry}, (archiveOf only).openZip data = .ok entries →
      entries[index]? = some e → e = only := by
    intro data entries index e hopen hindex
    simp only [archiveOf] at hopen
    split at hopen
    · obtain rfl := Except.ok.inj hopen
      exact List.mem_singleton.mp (List.mem_of_getElem? hindex)
    · cases hopen
  cases h with
  | listed hopen hindex => exact hlisted hopen hindex
  | nested hopen hindex hraw hzip =>
    rw [hlisted hopen hindex, hplain] at hzip
    cases hzip

theorem archive_inspected_sample :
    let x := archiveOf (plainEntry "readme.txt" [0x68, 0x69] nofun (by decide))
    DeliveredOnce x zipSignature (x.expandFile 3 zipSignature).1 := by
  intro x
  refine (archive_inspected_iff (Prod.ext rfl ?_) ?_).mpr ⟨?_, ?_⟩
  · decide
  · decide
  · intro place chain entry raw h hraw
    rw [archiveOf_holds rfl h] at hraw
    rw [← Except.ok.inj hraw]
  · intro place chain entry h hzip
    rw [archiveOf_holds rfl h] at hzip
    cases hzip

/-- A directory entry of two bytes: its name ends with a slash. -/
def directoryEntry : ZipEntry where
  raw := .ok ⟨"payload.exe/", utf8Bytes "payload.exe/", false, true, false⟩
  opened := .ok [.data [0x4D, 0x5A] nofun (by decide)]
  content := [0x4D, 0x5A]
  sound := by
    intro reads bytes hreads hbytes
    rw [← Except.ok.inj hreads] at hbytes
    exact (Option.some.inj hbytes).symm

/-- The expansion returns `Ok` and says nothing at all, and the entry's bytes were never read. -/
theorem directory_content_hidden :
    let x := archiveOf directoryEntry
    (x.expandFile 3 zipSignature).2 = .ok ∧ (x.expandFile 3 zipSignature).1.events = [] ∧
      (x.expandFile 3 zipSignature).1.decompressed = 0 ∧
      ¬ DeliveredOnce x zipSignature (x.expandFile 3 zipSignature).1 := by
  intro x
  have hevents : (x.expandFile 3 zipSignature).1.log = [] := by decide
  refine ⟨by decide, by decide, by decide, ?_⟩
  intro h
  have hopen : x.openZip zipSignature = .ok [directoryEntry] := rfl
  have hindex : [directoryEntry][0]? = some directoryEntry := rfl
  have hraw : directoryEntry.raw = .ok ⟨"payload.exe/", utf8Bytes "payload.exe/", false, true, false⟩ := rfl
  have hheld : x.Holds zipSignature [0] [_] directoryEntry := .listed hopen hindex hraw (.inr nofun)
  obtain ⟨kept, hfilter⟩ := h _ _ _ hheld
  rw [hevents] at hfilter
  cases hfilter

end Expander

end AbyssalWarden

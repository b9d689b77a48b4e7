import AbyssalWarden.TextFields

/-! Lines of crontabs and of anacrontab: how they are taken apart into fields, and what is read of lines that are printed
from fields. -/
namespace AbyssalWarden.Cron

/-! ### Reading -/

def skipLine (line : List Char) : Bool := line = [] ∨ line.head? = some '#'

def isNameChar (c : Char) : Bool := c.isAlphanum || c = '_'

/-- `NAME=value` at the start of a line (cron environment setting). -/
def envAssignment (line : List Char) : Option (List Char × List Char) :=
  match splitOnce '=' line with
  | none => none
  | some (k, v) => if trim k ≠ [] ∧ (trim k).all isNameChar then some (trim k, trim v) else none

/-- `take` of `parse_cron_line`: one field, which white space must follow, and the rest. -/
def takeField (rest : List Char) : Option (List Char × List Char) :=
  let t := rest.dropWhile isWhitespace
  if t.any isWhitespace then some (t.takeWhile (! isWhitespace ·), t.dropWhile (! isWhitespace ·)) else none

def takeFields : ℕ → List Char → Option (List (List Char) × List Char)
  | 0, rest => some ([], rest)
  | n + 1, rest => do
    let (field, rest) ← takeField rest
    let (fields, rest) ← takeFields n rest
    some (field :: fields, rest)

/-- (schedule, user, command) of a crontab line. -/
def parseCronLine (line : List Char) (withUser : Bool) : Option (List Char × Option (List Char) × List Char) := do
  let (parts, rest) ← takeFields (if line.head? = some '@' then 1 else 5) line
  let (user, rest) ← if withUser then (takeField rest).map fun (u, rest) => (some u, rest) else some (none, rest)
  let cmd := trim rest
  if cmd = [] then none else some ([' '].intercalate parts, user, cmd)

/-- `splitn(n, char::is_whitespace)` -/
def splitN : ℕ → List Char → List (List Char)
  | 0, _ => []
  | 1, s => [s]
  | n + 2, s =>
    if s.any isWhitespace then
      s.takeWhile (! isWhitespace ·) :: splitN (n + 1) (s.dropWhile (! isWhitespace ·)).tail
    else [s]

/-- What a line is taken for. -/
inductive Line where
  | skipped
  | setting (name value : List Char)
  | job (schedule : List Char) (user : Option (List Char)) (cmd : List Char)
  | anacronJob (period delay id cmd : List Char)
  | ignored
  deriving DecidableEq

/-- A line of a crontab -/
def readCronLine (withUser : Bool) (line : List Char) : Line :=
  let line := trim line
  if skipLine line then .skipped
  else
    match envAssignment line with
    | some (k, v) => .setting k v
    | none =>
      match parseCronLine line withUser with
      | some (schedule, user, cmd) => .job schedule user cmd
      | none => .ignored

/-- A line of anacrontab -/
def readAnacronLine (line : List Char) : Line :=
  let line := trim line
  if skipLine line then .skipped
  else
    match envAssignment line with
    | some (k, v) => .setting k v
    | none =>
      match (splitN 4 line).filter (· ≠ []) with
      | [period, delay, id, cmd] => .anacronJob period delay id (trim cmd)
      | _ => .ignored

/-! ### Entries -/

/-- A found entry: what differs among those of cron -/
structure Found where
  command : List Char
  detail : List Char
  system : Bool
  findExecutable : Bool

/-- The entry of a line; `userIsRoot` is for files of users. -/
def Line.found (userIsRoot : Option Bool) : Line → List Found
  | skipped => []
  | ignored => []
  | setting name value =>
    if name = "LD_PRELOAD".toList ∨ name = "LD_LIBRARY_PATH".toList then
      [⟨name ++ '=' :: value, "environment for all jobs in this file".toList, true, false⟩]
    else []
  | job schedule user cmd =>
    let rootJob := match user, userIsRoot with
      | some u, _ => decide (u = "root".toList)
      | none, some isRoot => isRoot
      | none, none => true
    let detail := match user with
      | some u => schedule ++ ", as ".toList ++ u
      | none => schedule
    [⟨cmd, detail, rootJob, true⟩]
  | anacronJob period _ id cmd => [⟨cmd, "anacron ".toList ++ id ++ ", every ".toList ++ period, true, true⟩]

/-- A crontab; that of the system has user fields. -/
def crontab (system : Bool) (userIsRoot : Option Bool) (text : List Char) : List Found :=
  (lines text).flatMap fun line => (readCronLine system line).found userIsRoot

def anacrontab (text : List Char) : List Found :=
  (lines text).flatMap fun line => (readAnacronLine line).found none

/-! ### Printed lines -/

/-- A field and the blanks after it. -/
structure Field where
  text : List Char
  gap : List Char
  nonempty : text ≠ []
  word : ∀ c ∈ text, isWhitespace c = false
  separated : gap ≠ []
  blank : Blank gap

def Field.print (f : Field) : List Char := f.text ++ f.gap

/-- A command: text without blanks around it. -/
structure Command where
  text : List Char
  nonempty : text ≠ []
  first : ∀ c, text.head? = some c → isWhitespace c = false
  last : ∀ c, text.getLast? = some c → isWhitespace c = false

/-- One field that starts with `@`, or five others without `=`. -/
inductive Schedule where
  | nickname (f : Field) (h : f.text.head? = some '@')
  | fields (a b c d e : Field) (first : a.text.head? ≠ some '#' ∧ a.text.head? ≠ some '@')
      (h : ∀ f ∈ [a, b, c, d, e], '=' ∉ f.text)

def Schedule.list : Schedule → List Field
  | nickname f _ => [f]
  | fields a b c d e _ _ => [a, b, c, d, e]

structure Job where
  lead : List Char
  schedule : Schedule
  user : Option Field
  cmd : Command
  trail : List Char
  blankLead : Blank lead
  blankTrail : Blank trail

def Job.body (j : Job) : List Char :=
  (j.schedule.list.flatMap Field.print) ++ (j.user.toList.flatMap Field.print) ++ j.cmd.text

def Job.line (j : Job) : List Char := j.lead ++ j.body ++ j.trail

structure AnacronJob where
  lead : List Char
  period : Field
  delay : Field
  id : Field
  cmd : Command
  trail : List Char
  blankLead : Blank lead
  blankTrail : Blank trail
  first : period.text.head? ≠ some '#'
  unassigned : '=' ∉ period.text ∧ '=' ∉ delay.text

def AnacronJob.body (j : AnacronJob) : List Char := j.period.print ++ j.delay.print ++ j.id.print ++ j.cmd.text

def AnacronJob.line (j : AnacronJob) : List Char := j.lead ++ j.body ++ j.trail

/-- `NAME=value`, perhaps with blanks around its parts. -/
structure Setting where
  lead : List Char
  name : List Char
  gap : List Char
  value : List Char
  blankLead : Blank lead
  blankGap : Blank gap
  nonempty : name ≠ []
  letters : ∀ c ∈ name, isNameChar c = true

def Setting.line (s : Setting) : List Char := s.lead ++ s.name ++ s.gap ++ '=' :: s.value

/-! ### Printed files -/

/-- A line that stands in a text as it is. -/
def OneLine (line : List Char) : Prop := '\n' ∉ line ∧ line.getLast? ≠ some '\r'

/-- A line of a file of jobs of a kind -/
inductive TabLine (Entry : Type) where
  | empty (blank : List Char) (h : Blank blank)
  | comment (lead text : List Char) (h : Blank lead)
  | setting (s : Setting)
  | job (j : Entry)

def TabLine.print {Entry : Type} (print : Entry → List Char) : TabLine Entry → List Char
  | empty blank _ => blank
  | comment lead text _ => lead ++ '#' :: text
  | setting s => s.line
  | job j => print j

/-- The entry of a setting: only variables of the loader have one. -/
def Setting.entries (s : Setting) : List Found :=
  if s.name = "LD_PRELOAD".toList ∨ s.name = "LD_LIBRARY_PATH".toList then
    [⟨s.name ++ '=' :: trim s.value, "environment for all jobs in this file".toList, true, false⟩]
  else []

/-- The entry of a job: its command, its schedule and its user. It is the system's if the user is root. -/
def Job.entry (userIsRoot : Option Bool) (j : Job) : Found where
  command := j.cmd.text
  detail := [' '].intercalate (j.schedule.list.map Field.text) ++
    (j.user.toList.flatMap fun u => ", as ".toList ++ u.text)
  system := (j.user.map fun u => decide (u.text = "root".toList)).getD (userIsRoot.getD true)
  findExecutable := true

def AnacronJob.entry (j : AnacronJob) : Found :=
  ⟨j.cmd.text, "anacron ".toList ++ j.id.text ++ ", every ".toList ++ j.period.text, true, true⟩

/-- What is to be recorded of a line. -/
def TabLine.entries {Entry : Type} (entry : Entry → Found) : TabLine Entry → List Found
  | empty _ _ => []
  | comment _ _ _ => []
  | setting s => s.entries
  | job j => [entry j]

/-- A single character separates the first fields. -/
def AnacronJob.Single (j : AnacronJob) : Prop := j.period.gap.length = 1 ∧ j.delay.gap.length = 1

variable {w rest : List Char} {f g : Field} {n : ℕ}

/-! ### Fields -/

theorem Field.head (f : Field) : ∃ c text, f.text = c :: text ∧ isWhitespace c = false := by
  cases h : f.text with
  | nil => exact absurd h f.nonempty
  | cons c text =>
    refine ⟨c, text, rfl, f.word c ?_⟩
    rw [h]
    exact List.mem_cons_self

theorem Field.gap_head (f : Field) : ∃ c gap, f.gap = c :: gap ∧ isWhitespace c = true := by
  cases h : f.gap with
  | nil => exact absurd h f.separated
  | cons c gap =>
    refine ⟨c, gap, rfl, f.blank c ?_⟩
    rw [h]
    exact List.mem_cons_self

theorem Command.end (cmd : Command) : ∃ (w : List Char) (b : Char), cmd.text = w ++ [b] ∧ isWhitespace b = false := by
  refine ⟨cmd.text.dropLast, cmd.text.getLast cmd.nonempty, (List.dropLast_concat_getLast cmd.nonempty).symm, ?_⟩
  exact cmd.last _ (List.getLast?_eq_some_getLast cmd.nonempty)

theorem Command.trim_text (cmd : Command) : trim cmd.text = cmd.text := by
  obtain ⟨w, b, hlast, hb⟩ := cmd.end
  have hhead : cmd.text.head? = some (cmd.text.head cmd.nonempty) := List.head?_eq_some_head cmd.nonempty
  exact trim_of_ends (cmd.first _ hhead) hb hhead hlast

theorem Field.takeWhile (f : Field) : (f.text ++ f.gap ++ rest).takeWhile (! isWhitespace ·) = f.text := by
  obtain ⟨c, gap, hgap, hc⟩ := f.gap_head
  have hword : ∀ c ∈ f.text, (! isWhitespace c) = true := fun c hmem => by rw [f.word c hmem]; rfl
  rw [List.append_assoc, List.takeWhile_append_of_pos hword, hgap, List.cons_append,
    List.takeWhile_cons_of_neg (by simp [hc]), List.append_nil]

theorem Field.dropWhile (f : Field) : (f.text ++ f.gap ++ rest).dropWhile (! isWhitespace ·) = f.gap ++ rest := by
  obtain ⟨c, gap, hgap, hc⟩ := f.gap_head
  have hword : ∀ c ∈ f.text, (! isWhitespace c) = true := fun c hmem => by rw [f.word c hmem]; rfl
  rw [List.append_assoc, List.dropWhile_append_of_pos hword, hgap, List.cons_append,
    List.dropWhile_cons_of_neg (by simp [hc])]

theorem takeField_print (hw : Blank w) (f : Field) :
    takeField (w ++ (f.print ++ rest)) = some (f.text, f.gap ++ rest) := by
  obtain ⟨c, text, htext, hc⟩ := f.head
  obtain ⟨d, gap, hgap, hd⟩ := f.gap_head
  have hstart : (w ++ (f.print ++ rest)).dropWhile isWhitespace = f.text ++ f.gap ++ rest := by
    rw [List.dropWhile_append_of_pos hw, Field.print, htext, List.cons_append, List.cons_append,
      List.dropWhile_cons_of_neg (by rw [hc]; exact Bool.false_ne_true)]
  have hany : (f.text ++ f.gap ++ rest).any isWhitespace = true := by
    rw [List.any_eq_true]
    refine ⟨d, ?_, hd⟩
    rw [hgap]
    simp
  rw [takeField, hstart]
  simp only [hany, if_true, f.takeWhile, f.dropWhile]

theorem takeFields_print (hw : Blank w) (fields : List Field) :
    ∃ w', Blank w' ∧ takeFields fields.length (w ++ (fields.flatMap Field.print ++ rest)) =
      some (fields.map Field.text, w' ++ rest) := by
  induction fields generalizing w with
  | nil => exact ⟨w, hw, rfl⟩
  | cons f fields ih =>
    obtain ⟨w', hw', htake⟩ := ih f.blank
    refine ⟨w', hw', ?_⟩
    rw [List.flatMap_cons, List.append_assoc, List.length_cons, takeFields, takeField_print hw]
    simp only [Option.bind_eq_bind, Option.bind_some, htake, List.map_cons]

/-! ### Lines with fields are not settings -/

theorem isNameChar_not_whitespace {c : Char} (h : isNameChar c = true) : isWhitespace c = false := by
  apply alphanum_not_whitespace
  simpa [isNameChar] using h

/-- What is left of two words when it is trimmed has the gap in it. -/
theorem not_name_of_words {more : List Char} (f g : Field) :
    (trim (f.text ++ f.gap ++ (g.text ++ more))).all isNameChar = false := by
  apply Bool.eq_false_iff.mpr
  intro hall
  obtain ⟨c, text, hc, hcw⟩ := f.head
  obtain ⟨d, text', hd, hdw⟩ := g.head
  obtain ⟨w, w', hw, hw', heq⟩ := exists_trim (f.text ++ f.gap ++ (g.text ++ more))
  have hwnil : w = [] := by
    cases w with
    | nil => rfl
    | cons x w =>
      rw [hc] at heq
      obtain ⟨hx, -⟩ := List.cons.inj heq
      rw [hx, hw x List.mem_cons_self] at hcw
      cases hcw
  have hwords : ∀ c ∈ trim (f.text ++ f.gap ++ (g.text ++ more)), (! isWhitespace c) = true := fun c hc => by
    rw [isNameChar_not_whitespace (List.all_eq_true.mp hall c hc)]
    rfl
  -- what follows the first word would be blank, but the second word is in it
  have hrest : f.gap ++ (g.text ++ more) = w'.dropWhile (! isWhitespace ·) := by
    rw [← f.dropWhile]
    conv_lhs => rw [heq]
    rw [hwnil, List.nil_append, List.dropWhile_append_of_pos hwords]
  have hmem : d ∈ w' := by
    apply (List.dropWhile_sublist (! isWhitespace ·)).subset
    rw [← hrest, hd]
    simp
  rw [hw' d hmem] at hdw
  cases hdw

/-- Two words do not make a name. -/
theorem envAssignment_two_words (hf : '=' ∉ f.text) (hg : '=' ∉ g.text) :
    envAssignment (f.print ++ (g.print ++ rest)) = none := by
  have hgap : '=' ∉ f.gap := fun hmem => by
    have hblank := f.blank _ hmem
    revert hblank
    decide
  -- there is no equals sign up to the end of the second word
  have hplain : ∀ c ∈ f.text ++ f.gap ++ g.text, decide (c ≠ '=') = true := by
    intro c hmem
    apply decide_eq_true
    intro heq
    rw [heq, List.mem_append, List.mem_append] at hmem
    rcases hmem with (hmem | hmem) | hmem
    · exact hf hmem
    · exact hgap hmem
    · exact hg hmem
  have hline : f.print ++ (g.print ++ rest) = (f.text ++ f.gap ++ g.text) ++ (g.gap ++ rest) := by
    simp [Field.print]
  have hkey : (f.print ++ (g.print ++ rest)).takeWhile (· ≠ '=') =
      f.text ++ f.gap ++ (g.text ++ (g.gap ++ rest).takeWhile (· ≠ '=')) := by
    rw [hline, List.takeWhile_append_of_pos hplain]
    simp
  unfold envAssignment splitOnce
  split
  · rfl
  · rename_i k v heq
    split at heq
    · obtain ⟨hk, -⟩ := Prod.mk.inj (Option.some.inj heq)
      -- so a name would have to contain a blank
      apply if_neg
      intro hname
      rw [← hk, hkey, not_name_of_words] at hname
      cases hname.2
    · cases heq

/-- A nickname is no name. -/
theorem envAssignment_nickname {line : List Char} (h : line.head? = some '@') : envAssignment line = none := by
  cases line with
  | nil => cases h
  | cons c line =>
    obtain rfl : c = '@' := Option.some.inj h
    unfold envAssignment splitOnce
    split
    · rfl
    · rename_i k v heq
      split at heq
      · obtain ⟨hk, -⟩ := Prod.mk.inj (Option.some.inj heq)
        apply if_neg
        intro hname
        rw [← hk, List.takeWhile_cons_of_pos (by decide)] at hname
        have hmem : '@' ∈ trim ('@' :: line.takeWhile (· ≠ '=')) :=
          List.mem_of_head? (head?_trim_cons (by decide))
        have hchar := List.all_eq_true.mp hname.2 '@' hmem
        revert hchar
        decide
      · cases heq

/-! ### Jobs -/

theorem Schedule.body_head (s : Schedule) : ∃ c rest, s.list.flatMap Field.print = c :: rest ∧
    isWhitespace c = false ∧ c ≠ '#' := by
  cases s with
  | nickname f h =>
    obtain ⟨c, text, hc, hcw⟩ := f.head
    have hat : c = '@' := by
      rw [hc] at h
      exact Option.some.inj h
    refine ⟨c, text ++ f.gap, by simp [Schedule.list, Field.print, hc], hcw, ?_⟩
    rw [hat]
    decide
  | fields a b c d e first h =>
    obtain ⟨x, text, hx, hxw⟩ := a.head
    refine ⟨x, text ++ a.gap ++ ([b, c, d, e].flatMap Field.print), by simp [Schedule.list, Field.print, hx], hxw, ?_⟩
    intro heq
    apply first.1
    rw [hx, heq, List.head?_cons]

/-- What a line is when it is trimmed, with its first character. -/
theorem trim_line {lead body trail : List Char} (hlead : Blank lead) (htrail : Blank trail) {c : Char}
    (hc : isWhitespace c = false) (hfirst : body.head? = some c) {before : List Char} (cmd : Command)
    (hbody : body = before ++ cmd.text) : trim (lead ++ body ++ trail) = body := by
  obtain ⟨w, b, hlast, hb⟩ := cmd.end
  rw [trim_append_right htrail, trim_append_left hlead]
  apply trim_of_ends hc hb hfirst
  rw [hbody, hlast, ← List.append_assoc]

theorem Job.trim_line (j : Job) : trim j.line = j.body ∧ ∃ c rest, j.body = c :: rest ∧ c ≠ '#' := by
  obtain ⟨c, rest, hc, hcw, hne⟩ := j.schedule.body_head
  have hbody : j.body = c :: (rest ++ j.user.toList.flatMap Field.print ++ j.cmd.text) := by
    rw [Job.body, hc]
    rfl
  have hhead : j.body.head? = some c := by rw [hbody, List.head?_cons]
  exact ⟨AbyssalWarden.Cron.trim_line j.blankLead j.blankTrail hcw hhead j.cmd rfl, c, _, hbody, hne⟩

theorem Job.envAssignment (j : Job) : envAssignment j.body = none := by
  cases hs : j.schedule with
  | nickname f h =>
    apply envAssignment_nickname
    obtain ⟨c, text, hc, -⟩ := f.head
    rw [hc] at h
    simpa [Job.body, hs, Schedule.list, Field.print, hc] using h
  | fields a b c d e first h =>
    have hbody : j.body = a.print ++ (b.print ++
        ([c, d, e].flatMap Field.print ++ j.user.toList.flatMap Field.print ++ j.cmd.text)) := by
      simp [Job.body, hs, Schedule.list]
    rw [hbody]
    exact envAssignment_two_words (h a (by simp)) (h b (by simp))

/-- As many fields are taken for the schedule as it has. -/
theorem Job.schedule_length (j : Job) : (if j.body.head? = some '@' then 1 else 5) = j.schedule.list.length := by
  cases hs : j.schedule with
  | nickname f h =>
    obtain ⟨c, text, hc, -⟩ := f.head
    rw [hc] at h
    apply if_pos
    simpa [Job.body, hs, Schedule.list, Field.print, hc] using h
  | fields a b c d e first h =>
    obtain ⟨x, text, hx, -⟩ := a.head
    have hne := first.2
    rw [hx] at hne
    apply if_neg
    simpa [Job.body, hs, Schedule.list, Field.print, hx] using hne

theorem Job.parse (j : Job) : parseCronLine j.body j.user.isSome =
    some ([' '].intercalate (j.schedule.list.map Field.text), j.user.map Field.text, j.cmd.text) := by
  have hnil : Blank [] := fun c hc => absurd hc List.not_mem_nil
  have hcmd {w : List Char} (hw : Blank w) : trim (w ++ j.cmd.text) = j.cmd.text := by
    rw [trim_append_left hw, j.cmd.trim_text]
  have hbody : j.body = [] ++ (j.schedule.list.flatMap Field.print ++
      (j.user.toList.flatMap Field.print ++ j.cmd.text)) := by
    simp [Job.body]
  have hfields : ∃ w, Blank w ∧ takeFields j.schedule.list.length j.body =
      some (j.schedule.list.map Field.text, w ++ (j.user.toList.flatMap Field.print ++ j.cmd.text)) := by
    rw [hbody]
    exact takeFields_print hnil j.schedule.list
  obtain ⟨w, hw, htake⟩ := hfields
  rw [parseCronLine, j.schedule_length, htake]
  cases hu : j.user with
  | none => simp [hcmd hw, j.cmd.nonempty]
  | some u =>
    have huser : takeField (w ++ (u.print ++ j.cmd.text)) = some (u.text, u.gap ++ j.cmd.text) :=
      takeField_print hw u
    simp [huser, hcmd u.blank, j.cmd.nonempty]

theorem skipLine_cons {c : Char} (h : c ≠ '#') : skipLine (c :: rest) = false := by
  simp [skipLine, h]

theorem readCronLine_job (j : Job) : readCronLine j.user.isSome j.line =
    .job ([' '].intercalate (j.schedule.list.map Field.text)) (j.user.map Field.text) j.cmd.text := by
  obtain ⟨htrim, c, rest, hbody, hc⟩ := j.trim_line
  have hskip : skipLine j.body = false := by
    rw [hbody]
    exact skipLine_cons hc
  simp only [readCronLine, htrim, hskip, j.envAssignment, j.parse, Bool.false_eq_true, if_false]

/-! ### Settings -/

theorem envAssignment_trim (line : List Char) : envAssignment (trim line) = envAssignment line := by
  obtain ⟨w, w', hw, hw', heq⟩ := exists_trim line
  conv_rhs => rw [heq, envAssignment, splitOnce_blank hw hw']
  rw [envAssignment]
  cases splitOnce '=' (trim line) with
  | none => rfl
  | some kv => simp only [Option.map_some, trim_append_left hw, trim_append_right hw']

theorem Setting.envAssignment (s : Setting) : envAssignment s.line = some (s.name, trim s.value) := by
  have hplain : '=' ∉ s.lead ++ s.name ++ s.gap := by
    simp only [List.mem_append, not_or]
    refine ⟨⟨fun h => ?_, fun h => ?_⟩, fun h => ?_⟩
    · have hchar := s.blankLead _ h
      revert hchar
      decide
    · have hchar := s.letters _ h
      revert hchar
      decide
    · have hchar := s.blankGap _ h
      revert hchar
      decide
  have hname : trim (s.lead ++ s.name ++ s.gap) = s.name := by
    rw [trim_append_right s.blankGap, trim_append_left s.blankLead]
    exact trim_eq_self fun c hc => isNameChar_not_whitespace (s.letters c hc)
  rw [AbyssalWarden.Cron.envAssignment, Setting.line, splitOnce_append hplain]
  simp only [hname]
  exact if_pos ⟨s.nonempty, List.all_eq_true.mpr s.letters⟩

theorem Setting.skipLine (s : Setting) : skipLine (trim s.line) = false := by
  cases hname : s.name with
  | nil => exact absurd hname s.nonempty
  | cons c name =>
    have hc : isNameChar c = true := s.letters c (hname ▸ List.mem_cons_self)
    have hhead : (trim s.line).head? = some c := by
      rw [Setting.line, hname, List.append_assoc, List.append_assoc, trim_append_left s.blankLead]
      exact head?_trim_cons (isNameChar_not_whitespace hc)
    cases htrim : trim s.line with
    | nil =>
      rw [htrim] at hhead
      cases hhead
    | cons d rest =>
      rw [htrim] at hhead
      obtain rfl : d = c := Option.some.inj hhead
      apply skipLine_cons
      intro heq
      rw [heq] at hc
      revert hc
      decide

theorem readCronLine_setting (s : Setting) (withUser : Bool) :
    readCronLine withUser s.line = .setting s.name (trim s.value) := by
  simp only [readCronLine, s.skipLine, envAssignment_trim, s.envAssignment, Bool.false_eq_true, if_false]

theorem readAnacronLine_setting (s : Setting) : readAnacronLine s.line = .setting s.name (trim s.value) := by
  simp only [readAnacronLine, s.skipLine, envAssignment_trim, s.envAssignment, Bool.false_eq_true, if_false]

/-! ### Anacron -/

theorem splitN_print (f : Field) : splitN (n + 2) (f.text ++ f.gap ++ rest) =
    f.text :: splitN (n + 1) (f.gap.tail ++ rest) := by
  obtain ⟨d, gap, hgap, hd⟩ := f.gap_head
  have hany : (f.text ++ f.gap ++ rest).any isWhitespace = true := by
    rw [List.any_eq_true]
    refine ⟨d, ?_, hd⟩
    rw [hgap]
    simp
  rw [splitN, if_pos hany, f.takeWhile, f.dropWhile, hgap]
  rfl

/-- Between two blanks there is an empty field. -/
theorem splitN_blank {c : Char} (hc : isWhitespace c = true) :
    splitN (n + 2) (c :: rest) = [] :: splitN (n + 1) rest := by
  have hany : (c :: rest).any isWhitespace = true := List.any_eq_true.mpr ⟨c, List.mem_cons_self, hc⟩
  rw [splitN, if_pos hany]
  simp [hc]

theorem length_splitN (n : ℕ) (s : List Char) : (splitN (n + 1) s).length ≤ n + 1 := by
  induction n generalizing s with
  | zero => exact Nat.le_refl 1
  | succ n ih =>
    rw [splitN]
    split
    · have hrest := ih (s.dropWhile (! isWhitespace ·)).tail
      rw [List.length_cons]
      omega
    · rw [List.length_singleton]
      omega

theorem AnacronJob.trim_line (j : AnacronJob) : trim j.line = j.body ∧ skipLine j.body = false := by
  obtain ⟨c, text, hc, hcw⟩ := j.period.head
  have hhead : j.body.head? = some c := by
    simp [AnacronJob.body, Field.print, hc]
  have hne : c ≠ '#' := by
    intro heq
    apply j.first
    rw [hc, heq, List.head?_cons]
  refine ⟨AbyssalWarden.Cron.trim_line j.blankLead j.blankTrail hcw hhead j.cmd rfl, ?_⟩
  cases hbody : j.body with
  | nil =>
    rw [hbody] at hhead
    cases hhead
  | cons d rest =>
    rw [hbody] at hhead
    obtain rfl : d = c := Option.some.inj hhead
    exact skipLine_cons hne

theorem AnacronJob.envAssignment (j : AnacronJob) : envAssignment j.body = none := by
  have hbody : j.body = j.period.print ++ (j.delay.print ++ (j.id.print ++ j.cmd.text)) := by
    simp [AnacronJob.body]
  rw [hbody]
  exact envAssignment_two_words j.unassigned.1 j.unassigned.2

/-- What the fields of a line of anacrontab are read as. -/
theorem readAnacronLine_body (j : AnacronJob) : readAnacronLine j.line =
    match (splitN 4 j.body).filter (· ≠ []) with
    | [period, delay, id, cmd] => .anacronJob period delay id (trim cmd)
    | _ => .ignored := by
  obtain ⟨htrim, hskip⟩ := j.trim_line
  simp only [readAnacronLine, htrim, hskip, j.envAssignment, Bool.false_eq_true, if_false]

theorem Field.gap_tail (f : Field) : f.gap.length = 1 ∧ f.gap.tail = [] ∨
    f.gap.length ≠ 1 ∧ ∃ c gap, f.gap.tail = c :: gap ∧ isWhitespace c = true := by
  obtain ⟨c, gap, hgap, -⟩ := f.gap_head
  cases gap with
  | nil => exact Or.inl ⟨by rw [hgap]; rfl, by rw [hgap]; rfl⟩
  | cons d gap =>
    refine Or.inr ⟨by rw [hgap]; simp, d, gap, by rw [hgap]; rfl, f.blank d ?_⟩
    rw [hgap]
    exact List.mem_cons_of_mem c List.mem_cons_self

/-- Fewer than four fields are no job. -/
theorem ignored_of_empty {fields : List (List Char)} (hlen : fields.length ≤ 4) (hempty : [] ∈ fields) :
    (match fields.filter (· ≠ []) with
      | [period, delay, id, cmd] => Line.anacronJob period delay id (trim cmd)
      | _ => .ignored) = .ignored := by
  have hless : (fields.filter (· ≠ [])).length < fields.length :=
    List.length_filter_lt_length_iff_exists.mpr ⟨[], hempty, by simp⟩
  split
  · rename_i a b c d heq
    rw [heq] at hless
    simp only [List.length_cons, List.length_nil] at hless
    omega
  · rfl

/-- A run of blanks after the period or the delay leaves fewer than four fields. -/
theorem readAnacronLine_run {j : AnacronJob} (hrun : ¬ j.Single) : readAnacronLine j.line = .ignored := by
  have hbody : j.body = j.period.text ++ j.period.gap ++
      (j.delay.text ++ j.delay.gap ++ (j.id.text ++ j.id.gap ++ j.cmd.text)) := by
    simp [AnacronJob.body, Field.print]
  rw [readAnacronLine_body]
  apply ignored_of_empty (length_splitN 3 j.body)
  rw [hbody, splitN_print]
  apply List.mem_cons_of_mem
  rcases j.period.gap_tail with ⟨hperiod, hnil⟩ | ⟨-, c, gap, htail, hc⟩
  · rw [hnil, List.nil_append, splitN_print]
    apply List.mem_cons_of_mem
    rcases j.delay.gap_tail with ⟨hdelay, -⟩ | ⟨-, c, gap, htail, hc⟩
    · exact absurd ⟨hperiod, hdelay⟩ hrun
    · rw [htail, List.cons_append, splitN_blank hc]
      exact List.mem_cons_self
  · rw [htail, List.cons_append, splitN_blank hc]
    exact List.mem_cons_self

theorem readAnacronLine_iff (j : AnacronJob) :
    readAnacronLine j.line = .anacronJob j.period.text j.delay.text j.id.text j.cmd.text ↔ j.Single := by
  have hbody : j.body = j.period.text ++ j.period.gap ++
      (j.delay.text ++ j.delay.gap ++ (j.id.text ++ j.id.gap ++ j.cmd.text)) := by
    simp [AnacronJob.body, Field.print]
  constructor
  · intro h
    by_contra hrun
    rw [readAnacronLine_run hrun] at h
    cases h
  · intro hsingle
    rw [readAnacronLine_body]
    have hgap {f : Field} (h : f.gap.length = 1) : f.gap.tail = [] := by
      rw [List.eq_nil_iff_length_eq_zero, List.length_tail, h]
    have hblank : Blank j.id.gap.tail := fun c hc => j.id.blank c (List.mem_of_mem_tail hc)
    have hcmd : trim (j.id.gap.tail ++ j.cmd.text) = j.cmd.text := by
      rw [trim_append_left hblank, j.cmd.trim_text]
    have hne : j.id.gap.tail ++ j.cmd.text ≠ [] := fun h => j.cmd.nonempty (List.append_eq_nil_iff.mp h).2
    have hsplit : splitN 4 j.body = [j.period.text, j.delay.text, j.id.text, j.id.gap.tail ++ j.cmd.text] := by
      rw [hbody, splitN_print, hgap hsingle.1, List.nil_append, splitN_print, hgap hsingle.2, List.nil_append,
        splitN_print, splitN]
    rw [hsplit]
    simp [j.period.nonempty, j.delay.nonempty, j.id.nonempty, hne, hcmd]

/-! ### Files -/

/-- Parts that are sublists make the whole only if each is its whole part. -/
theorem flatMap_eq_iff_of_sublist {α β : Type} {l : List α} {f g : α → List β} (h : ∀ a ∈ l, (f a).Sublist (g a)) :
    l.flatMap f = l.flatMap g ↔ ∀ a ∈ l, f a = g a := by
  constructor
  · intro heq
    induction l with
    | nil => exact List.forall_mem_nil _
    | cons a l ih =>
      obtain ⟨ha, hl⟩ := List.forall_mem_cons.mp h
      rw [List.flatMap_cons, List.flatMap_cons] at heq
      have hlen := congrArg List.length heq
      rw [List.length_append, List.length_append] at hlen
      have hhead := ha.length_le
      have htail := (List.Sublist.flatMap_right l hl).length_le
      obtain ⟨hfirst, hrest⟩ := List.append_inj heq (by omega)
      exact List.forall_mem_cons.mpr ⟨hfirst, ih hl hrest⟩
  · exact List.flatMap_congr

theorem skipLine_comment {lead text : List Char} (h : Blank lead) : skipLine (trim (lead ++ '#' :: text)) = true := by
  have hhead := head?_trim_cons (c := '#') (s := text) (by decide)
  rw [trim_append_left h, Cron.skipLine, hhead]
  exact decide_eq_true (Or.inr rfl)

theorem skipLine_blank {w : List Char} (h : Blank w) : skipLine (trim w) = true := by
  have htrim := trim_append_left (s := []) h
  rw [List.append_nil] at htrim
  rw [htrim]
  rfl

section

variable {Entry : Type} {print : Entry → List Char} {withUser : Bool} {userIsRoot : Option Bool}

/-- A text of lines that stand in it as they are. -/
def tabText (print : Entry → List Char) (tab : List (TabLine Entry)) : List Char :=
  unlines '\n' (tab.map (TabLine.print print))

theorem flatMap_lines_tabText {β : Type} (f : List Char → List β) {tab : List (TabLine Entry)}
    (h : ∀ l ∈ tab, OneLine (l.print print)) :
    (lines (tabText print tab)).flatMap f = tab.flatMap fun l => f (l.print print) := by
  rw [tabText, lines_unlines_of_last (List.forall_mem_map.mpr h), List.flatMap_map]

theorem readCronLine_skip {line : List Char} (h : skipLine (trim line) = true) : readCronLine withUser line = .skipped :=
  if_pos h

theorem readAnacronLine_skip {line : List Char} (h : skipLine (trim line) = true) : readAnacronLine line = .skipped :=
  if_pos h

theorem found_cronLine {l : TabLine Job} (huser : ∀ j, l = .job j → j.user.isSome = withUser) :
    (readCronLine withUser (l.print Job.line)).found userIsRoot = l.entries (Job.entry userIsRoot) := by
  cases l with
  | empty blank h => rw [TabLine.print, readCronLine_skip (skipLine_blank h)]; rfl
  | comment lead text h => rw [TabLine.print, readCronLine_skip (skipLine_comment h)]; rfl
  | setting s => rw [TabLine.print, readCronLine_setting]; rfl
  | job j =>
    rw [TabLine.print, ← huser j rfl, readCronLine_job, TabLine.entries, Job.entry]
    cases j.user with
    | none => cases userIsRoot <;> simp [Line.found]
    | some u => simp [Line.found]

theorem found_anacronLine (l : TabLine AnacronJob) :
    ((readAnacronLine (l.print AnacronJob.line)).found none).Sublist (l.entries AnacronJob.entry) ∧
      ((readAnacronLine (l.print AnacronJob.line)).found none = l.entries AnacronJob.entry ↔
        ∀ j, l = .job j → j.Single) := by
  -- only a job can be read wrongly
  have hplain (h : (readAnacronLine (l.print AnacronJob.line)).found none = l.entries AnacronJob.entry)
      (hnot : ∀ j, l ≠ .job j) : ((readAnacronLine (l.print AnacronJob.line)).found none).Sublist
        (l.entries AnacronJob.entry) ∧ ((readAnacronLine (l.print AnacronJob.line)).found none =
          l.entries AnacronJob.entry ↔ ∀ j, l = .job j → j.Single) :=
    ⟨h ▸ List.Sublist.refl _, iff_of_true h fun j hj => absurd hj (hnot j)⟩
  cases l with
  | empty blank h =>
    refine hplain ?_ fun j hj => by cases hj
    rw [TabLine.print, readAnacronLine_skip (skipLine_blank h)]
    rfl
  | comment lead text h =>
    refine hplain ?_ fun j hj => by cases hj
    rw [TabLine.print, readAnacronLine_skip (skipLine_comment h)]
    rfl
  | setting s =>
    refine hplain ?_ fun j hj => by cases hj
    rw [TabLine.print, readAnacronLine_setting]
    rfl
  | job j =>
    have hone : (∀ i, TabLine.job j = .job i → i.Single) ↔ j.Single :=
      ⟨fun h => h j rfl, fun h i hi => by obtain rfl := TabLine.job.inj hi; exact h⟩
    rw [TabLine.print, hone]
    -- after a run of blanks the line has too few fields, and the job is ignored
    by_cases hsingle : j.Single
    · have hread := (readAnacronLine_iff j).mpr hsingle
      have hentries : (readAnacronLine j.line).found none = (TabLine.job j).entries AnacronJob.entry := by
        rw [hread]
        rfl
      exact ⟨hentries ▸ List.Sublist.refl _, iff_of_true hentries hsingle⟩
    · rw [readAnacronLine_run hsingle]
      exact ⟨List.nil_sublist _, iff_of_false (fun h => by cases h) hsingle⟩

end

/-- Jobs of crontabs are read field by field and settings are never jobs; a job of anacrontab is read field by field when
single characters separate its first three fields, and only then. So of a crontab exactly the entries of its jobs and of
its settings are recorded, and of anacrontab if and only if all its jobs are separated like this. -/
theorem cron_lines_exactly (j : Job) (s : Setting) (withUser : Bool) (a : AnacronJob) (userIsRoot : Option Bool)
    (tab : List (TabLine Job)) (anacron : List (TabLine AnacronJob)) :
    readCronLine j.user.isSome j.line =
      .job ([' '].intercalate (j.schedule.list.map Field.text)) (j.user.map Field.text) j.cmd.text ∧
    (readCronLine withUser s.line = .setting s.name (trim s.value) ∧
      readAnacronLine s.line = .setting s.name (trim s.value)) ∧
    (readAnacronLine a.line = .anacronJob a.period.text a.delay.text a.id.text a.cmd.text ↔ a.Single) ∧
    ((∀ l ∈ tab, OneLine (l.print Job.line) ∧ ∀ j, l = .job j → j.user.isSome = withUser) →
      crontab withUser userIsRoot (tabText Job.line tab) = tab.flatMap (TabLine.entries (Job.entry userIsRoot))) ∧
    ((∀ l ∈ anacron, OneLine (l.print AnacronJob.line)) →
      (anacrontab (tabText AnacronJob.line anacron) = anacron.flatMap (TabLine.entries AnacronJob.entry) ↔
        ∀ l ∈ anacron, ∀ j, l = .job j → j.Single)) := by
  refine ⟨readCronLine_job j, ⟨readCronLine_setting s withUser, readAnacronLine_setting s⟩, readAnacronLine_iff a, ?_, ?_⟩
  · intro h
    rw [crontab, flatMap_lines_tabText _ fun l hl => (h l hl).1]
    exact List.flatMap_congr fun l hl => found_cronLine (h l hl).2
  · intro h
    rw [anacrontab, flatMap_lines_tabText _ h, flatMap_eq_iff_of_sublist fun l _ => (found_anacronLine l).1]
    exact forall₂_congr fun l _ => (found_anacronLine l).2

/-- A word and the blanks after it -/
def fieldOf (text gap : String) (h : text.toList ≠ [] ∧ (∀ c ∈ text.toList, isWhitespace c = false) ∧
    gap.toList ≠ [] ∧ Blank gap.toList) : Field :=
  ⟨text.toList, gap.toList, h.1, h.2.1, h.2.2.1, h.2.2.2⟩

/-- `7  10 weekly run` -/
def spacedJob : AnacronJob where
  lead := []
  period := fieldOf "7" "  " (by decide)
  delay := fieldOf "10" " " (by decide)
  id := fieldOf "weekly" " " (by decide)
  cmd := ⟨"run".toList, by decide, fun _ h => Option.some.inj h ▸ by decide, fun _ h => Option.some.inj h ▸ by decide⟩
  trail := []
  blankLead := by decide
  blankTrail := by decide
  first := by decide
  unassigned := by decide

theorem spaced_job_ignored : readAnacronLine spacedJob.line = .ignored ∧
    readAnacronLine spacedJob.line ≠
      .anacronJob spacedJob.period.text spacedJob.delay.text spacedJob.id.text spacedJob.cmd.text := by
  decide

end AbyssalWarden.Cron

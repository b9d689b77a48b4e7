import AbyssalWarden.UnitComments

/-! Units as they are meant: comments are left out, then lines that end in a backslash go on in the next one, and a
setting is a key and a value on two sides of an equals sign. The check reads a unit in this way when no backslash joins
a comment with a line that is none. -/
namespace AbyssalWarden.SystemCheck

/-! ### Lines -/

/-- The lines, the first of which goes on from `cur`. -/
def goOn (cur : List Char) : List (List Char) → List (List Char)
  | [] => [cur]
  | line :: rest => (cur ++ line) :: rest

/-- Lines that end in a backslash, each with the next one. -/
def continued : List (List Char) → List (List Char)
  | [] => []
  | line :: rest =>
    if line.getLast? = some '\\' then goOn (line.dropLast ++ [' ']) (continued rest) else line :: continued rest

/-- The lines of a unit, without its comments. -/
def unitLines (text : List Char) : List (List Char) := continued (withoutComments isComment (lines text))

/-! ### Settings -/

/-- A line with a key and a value, with any blanks around them. -/
def SetsKey (key value line : List Char) : Prop :=
  ∃ a b c d, Blank a ∧ Blank b ∧ Blank c ∧ Blank d ∧ line = a ++ key ++ b ++ '=' :: (c ++ value ++ d) ∧
    trim value = value

/-- The keys of the commands of a service. -/
inductive ExecKey where
  | start
  | startPre
  | startPost
  | stop
  | stopPost
  | reload
  | condition

def ExecKey.text : ExecKey → List Char
  | .start => "ExecStart".toList
  | .startPre => "ExecStartPre".toList
  | .startPost => "ExecStartPost".toList
  | .stop => "ExecStop".toList
  | .stopPost => "ExecStopPost".toList
  | .reload => "ExecReload".toList
  | .condition => "ExecCondition".toList

/-- The commands of lines, in order. -/
inductive Commands : List (List Char) → List (ExecKey × List Char) → Prop where
  | nil : Commands [] []
  | command {line value : List Char} {key : ExecKey} {ls : List (List Char)} {cs : List (ExecKey × List Char)}
      (hset : SetsKey key.text value line) (hvalue : value ≠ []) (hrest : Commands ls cs) :
      Commands (line :: ls) ((key, value) :: cs)
  | other {line : List Char} {ls : List (List Char)} {cs : List (ExecKey × List Char)}
      (hnot : ∀ key : ExecKey, ∀ value, value ≠ [] → ¬ SetsKey key.text value line) (hrest : Commands ls cs) :
      Commands (line :: ls) cs

variable {line cur key value text : List Char} {ls : List (List Char)} {cs : List (ExecKey × List Char)}

/-! ### How the check joins lines -/

theorem goOn_goOn (a b : List Char) : goOn a (goOn b ls) = goOn (a ++ b) ls := by
  cases ls with
  | nil => rfl
  | cons line ls => simp [goOn]

theorem joinLines_eq (cur : List Char) (ls : List (List Char)) :
    joinLines cur ls = if cur = [] then continued ls else goOn cur (continued ls) := by
  induction ls generalizing cur with
  | nil =>
    rw [joinLines, continued, goOn]
  | cons line ls ih =>
    rw [joinLines, stripBackslash, continued]
    by_cases hlast : line.getLast? = some '\\'
    · have hne : cur ++ line.dropLast ++ [' '] ≠ [] := by simp
      rw [if_pos hlast, if_pos hlast, goOn_goOn, ← List.append_assoc]
      dsimp only
      rw [ih, if_neg hne]
      by_cases hcur : cur = []
      · rw [if_pos hcur, hcur, List.nil_append]
      · rw [if_neg hcur]
    · simp only [if_neg hlast, ih, if_true]
      by_cases hcur : cur = []
      · rw [if_pos hcur, hcur, List.nil_append]
      · rw [if_neg hcur, goOn]

/-- Where no backslash joins comments with other lines, the check reads the settings of the unit's lines. -/
theorem settings_eq (h : Separate isComment (lines text)) : settings text = (unitLines text).filterMap settingOf := by
  have hjoined := (flatMap_joinLines (f := fun line => (settingOf line).toList)
    (fun line rest hline => settingOf_comment hline rest) h).1
  rw [joinLines_eq, joinLines_eq, if_pos rfl, if_pos rfl] at hjoined
  rw [settings, logicalLines, joinLines_eq, if_pos rfl, List.filterMap_eq_flatMap_toList, hjoined, unitLines,
    List.filterMap_eq_flatMap_toList]

/-! ### How the check reads a setting -/

/-- A key that a line can start with, and that is found before an equals sign. -/
structure PlainKey (key : List Char) : Prop where
  trimmed : trim key = key
  unequal : '=' ∉ key
  first : ∃ c ∈ key.head?, isWhitespace c = false ∧ c ≠ '#' ∧ c ≠ ';' ∧ c ≠ '['

theorem trim_trim (s : List Char) : trim (trim s) = trim s := by
  obtain ⟨w, w', hw, hw', heq⟩ := exists_trim s
  calc trim (trim s) = trim (w ++ trim s) := (trim_append_left hw).symm
    _ = trim (w ++ trim s ++ w') := (trim_append_right hw').symm
    _ = trim s := by rw [← heq]

theorem splitOnce_eq_some {a b s : List Char} (h : splitOnce '=' s = some (a, b)) : s = a ++ '=' :: b := by
  unfold splitOnce at h
  split at h
  · rename_i hmem
    obtain ⟨k, v, rfl, hk⟩ := List.eq_append_cons_of_mem hmem
    have hsplit : splitOnce '=' (k ++ '=' :: v) = some (k, v) := splitOnce_append hk
    rw [splitOnce, if_pos hmem] at hsplit
    obtain ⟨rfl, rfl⟩ := Prod.mk.inj (Option.some.inj (h.symm.trans hsplit))
    rfl
  · cases h

theorem settingOf_of_setsKey (hkey : PlainKey key) (h : SetsKey key value line) : settingOf line = some (key, value) := by
  obtain ⟨a, b, c, d, ha, hb, hc, hd, rfl, hvalue⟩ := h
  obtain ⟨x, hx, hblank, hhash, hsemi, hbracket⟩ := hkey.first
  -- the line is trimmed before it is split
  obtain ⟨w, w', hw, hw', heq⟩ := exists_trim (a ++ key ++ b ++ '=' :: (c ++ value ++ d))
  have hfirst : (trim (a ++ key ++ b ++ '=' :: (c ++ value ++ d))).head? = some x := by
    cases key with
    | nil => cases hx
    | cons y key =>
      obtain rfl : y = x := Option.some.inj hx
      rw [List.append_assoc, List.append_assoc, trim_append_left ha]
      exact head?_trim_cons hblank
  have hread : ¬ (trim (a ++ key ++ b ++ '=' :: (c ++ value ++ d)) = [] ∨
      (trim (a ++ key ++ b ++ '=' :: (c ++ value ++ d))).head? = some '#' ∨
      (trim (a ++ key ++ b ++ '=' :: (c ++ value ++ d))).head? = some ';' ∨
      (trim (a ++ key ++ b ++ '=' :: (c ++ value ++ d))).head? = some '[') := by
    rw [hfirst]
    rintro (hnil | h | h | h)
    · rw [hnil] at hfirst
      cases hfirst
    · exact hhash (Option.some.inj h)
    · exact hsemi (Option.some.inj h)
    · exact hbracket (Option.some.inj h)
  have hplain : '=' ∉ a ++ key ++ b := by
    have hblank {s : List Char} (hs : Blank s) : '=' ∉ s := fun hmem => by
      have hchar := hs _ hmem
      revert hchar
      decide
    simp only [List.mem_append, not_or]
    exact ⟨⟨hblank ha, hkey.unequal⟩, hblank hb⟩
  have hsplit : splitOnce '=' (a ++ key ++ b ++ '=' :: (c ++ value ++ d)) =
      some (a ++ key ++ b, c ++ value ++ d) := splitOnce_append hplain
  rw [heq, splitOnce_blank hw hw'] at hsplit
  obtain ⟨kv, hkv, hboth⟩ := Option.map_eq_some_iff.mp hsplit
  obtain ⟨hk, hv⟩ := Prod.mk.inj hboth
  have hkeyTrim : trim kv.1 = key := by
    rw [← trim_append_left hw, hk, trim_append_right hb, trim_append_left ha, hkey.trimmed]
  have hvalueTrim : trim kv.2 = value := by
    rw [← trim_append_right hw', hv, trim_append_right hd, trim_append_left hc, hvalue]
  unfold settingOf
  rw [if_neg hread, hkv, Option.map_some]
  dsimp only
  rw [hkeyTrim, hvalueTrim]

theorem setsKey_of_settingOf (h : settingOf line = some (key, value)) : SetsKey key value line := by
  unfold settingOf at h
  dsimp only at h
  split at h
  · cases h
  · obtain ⟨⟨k, v⟩, hsplit, hboth⟩ := Option.map_eq_some_iff.mp h
    obtain ⟨rfl, rfl⟩ := Prod.mk.inj hboth
    obtain ⟨w, w', hw, hw', hline⟩ := exists_trim line
    obtain ⟨a, b, ha, hb, hk⟩ := exists_trim k
    obtain ⟨c, d, hc, hd, hv⟩ := exists_trim v
    refine ⟨w ++ a, b, c, d ++ w', ?_, hb, hc, ?_, ?_, trim_trim v⟩
    · exact List.forall_mem_append.mpr ⟨hw, ha⟩
    · exact List.forall_mem_append.mpr ⟨hd, hw'⟩
    · have hwhole : line = w ++ (k ++ '=' :: v) ++ w' := by rw [← splitOnce_eq_some hsplit, ← hline]
      conv_lhs => rw [hwhole, hk, hv]
      simp only [List.append_assoc, List.cons_append]

/-- The check reads the value of such a key wherever it is set. -/
theorem settingOf_eq_some_iff (hkey : PlainKey key) : settingOf line = some (key, value) ↔ SetsKey key value line :=
  ⟨setsKey_of_settingOf, settingOf_of_setsKey hkey⟩

theorem plainKey_exec (key : ExecKey) : PlainKey key.text := by
  cases key
  all_goals exact ⟨by decide, by decide, _, rfl, by decide⟩

theorem mem_execKeys {k : List Char} : k ∈ execKeys ↔ ∃ key : ExecKey, key.text = k := by
  constructor
  · intro h
    simp only [execKeys, List.map_cons, List.map_nil, List.mem_cons, List.not_mem_nil, or_false] at h
    rcases h with rfl | rfl | rfl | rfl | rfl | rfl | rfl
    · exact ⟨.start, rfl⟩
    · exact ⟨.startPre, rfl⟩
    · exact ⟨.startPost, rfl⟩
    · exact ⟨.stop, rfl⟩
    · exact ⟨.stopPost, rfl⟩
    · exact ⟨.reload, rfl⟩
    · exact ⟨.condition, rfl⟩
  · rintro ⟨key, rfl⟩
    cases key
    all_goals decide

theorem execKey_text_injective : Function.Injective ExecKey.text := by
  intro key key' h
  cases key
  all_goals cases key'
  all_goals first | rfl | exact absurd h (by decide)

/-- The commands of lines are those that the check takes of them. -/
theorem commands_iff : Commands ls cs ↔
    (ls.filterMap settingOf).filter isCommand = cs.map fun c => (c.1.text, c.2) := by
  induction ls generalizing cs with
  | nil =>
    constructor
    · intro h
      cases h
      rfl
    · intro h
      obtain rfl := List.map_eq_nil_iff.mp h.symm
      exact .nil
  | cons line ls ih =>
    -- a line gives one setting at most, so it is a command in one way or in none
    by_cases hcommand : ∃ key : ExecKey, ∃ value, value ≠ [] ∧ SetsKey key.text value line
    · obtain ⟨key, value, hvalue, hset⟩ := hcommand
      have hread := settingOf_of_setsKey (plainKey_exec key) hset
      have hcommand : isCommand (key.text, value) = true :=
        decide_eq_true ⟨mem_execKeys.mpr ⟨key, rfl⟩, hvalue⟩
      rw [List.filterMap_cons_some hread, List.filter_cons_of_pos hcommand]
      constructor
      · intro h
        cases h with
        | command hset' hvalue' hrest =>
          have hread' := settingOf_of_setsKey (plainKey_exec _) hset'
          rw [List.map_cons, ← ih.mp hrest, Option.some.inj (hread.symm.trans hread')]
        | other hnot hrest => exact absurd hset (hnot key value hvalue)
      · intro h
        cases cs with
        | nil => cases h
        | cons c cs =>
          obtain ⟨hhead, htail⟩ := List.cons.inj h
          obtain ⟨hkey, hvalues⟩ := Prod.mk.inj hhead
          obtain ⟨key', value'⟩ := c
          obtain rfl : key = key' := execKey_text_injective hkey
          obtain rfl : value = value' := hvalues
          exact .command hset hvalue (ih.mpr htail)
    · have hskip : ((line :: ls).filterMap settingOf).filter isCommand = (ls.filterMap settingOf).filter isCommand := by
        cases hread : settingOf line with
        | none => rw [List.filterMap_cons_none hread]
        | some s =>
          rw [List.filterMap_cons_some hread, List.filter_cons_of_neg]
          intro hs
          obtain ⟨hkey, hvalue⟩ := of_decide_eq_true hs
          obtain ⟨key, hkey⟩ := mem_execKeys.mp hkey
          exact hcommand ⟨key, s.2, hvalue, setsKey_of_settingOf (by rw [hread, hkey])⟩
      rw [hskip, ← ih]
      constructor
      · intro h
        cases h with
        | command hset hvalue hrest => exact absurd ⟨_, _, hvalue, hset⟩ hcommand
        | other hnot hrest => exact hrest
      · exact .other fun key value hvalue hset => hcommand ⟨key, value, hvalue, hset⟩

theorem exists_commands (ls : List (List Char)) : ∃ cs, Commands ls cs := by
  induction ls with
  | nil => exact ⟨[], .nil⟩
  | cons line ls ih =>
    obtain ⟨cs, hcs⟩ := ih
    by_cases hcommand : ∃ key : ExecKey, ∃ value, value ≠ [] ∧ SetsKey key.text value line
    · obtain ⟨key, value, hvalue, hset⟩ := hcommand
      exact ⟨(key, value) :: cs, .command hset hvalue hcs⟩
    · exact ⟨cs, .other (fun key value hvalue hset => hcommand ⟨key, value, hvalue, hset⟩) hcs⟩

/-- Lines have at most one command each. -/
theorem Commands.length_le (h : Commands ls cs) : cs.length ≤ ls.length := by
  induction h with
  | nil => exact Nat.le_refl 0
  | command hset hvalue hrest ih => exact Nat.succ_le_succ ih
  | other hnot hrest ih => exact Nat.le_succ_of_le ih

end AbyssalWarden.SystemCheck

import AbyssalWarden.AuthorizedKeys

/-! Which keys are recovered from a text of keys. The command is what stands after the first `command=` before a quote, and
the key's type is the first word that starts as one, so other options can be taken for either. -/
namespace AbyssalWarden.SshKeys

variable {c : Char} {s t cur pre v w rest : List Char} {o : Opt} {os : List Opt} {quoted escaped : Bool}

/-! ### The command -/

def commandKey : List Char := "command=".toList

theorem commandStart_eq : commandStart = commandKey ++ ['"'] := by decide

theorem quote_not_mem_commandKey : '"' ∉ commandKey := by decide

theorem forced_segment (hs : '"' ∉ s) : forcedCommand (s ++ '"' :: rest) =
    if commandKey <:+ s then unquote false rest else forcedCommand rest := by
  have hne : commandKey ≠ [] := by decide
  rw [forcedCommand, commandStart_eq, findStr_concat hne quote_not_mem_commandKey hs]
  split
  · rfl
  · rw [forcedCommand, commandStart_eq]

theorem forced_none (hs : '"' ∉ s) : forcedCommand s = none := by
  have hquote : '"' ∈ commandStart := by decide
  rw [forcedCommand, findStr_of_not_mem hquote hs]
  rfl

theorem escape_cons (c : Char) (v : List Char) :
    escape (c :: v) = (if c = '"' then ['\\', '"'] else [c]) ++ escape v := List.flatMap_cons

/-- Up to the closing quote of a value, which is found if the value looks like the start of a command. -/
theorem forced_escape (hpre : '"' ∉ pre) : forcedCommand (pre ++ escape v ++ '"' :: rest) =
    if commandKey <:+ pre ++ v then unquote false rest else forcedCommand rest := by
  -- along the value; what is before it holds no quote
  induction v generalizing pre with
  | nil =>
    rw [escape, List.flatMap_nil, List.append_nil]
    exact forced_segment hpre
  | cons c v ih =>
    rw [escape_cons]
    by_cases hc : c = '"'
    · -- an escaped quote has a backslash before it, which no command has
      have hseg : '"' ∉ pre ++ ['\\'] := by
        rw [List.mem_append, not_or]
        exact ⟨hpre, by decide⟩
      have hnot : ¬ commandKey <:+ pre ++ ['\\'] := by
        have hform : commandKey = "command".toList ++ ['='] := by decide
        intro h
        rw [hform] at h
        obtain ⟨x, hx⟩ := h
        rw [← List.append_assoc] at hx
        have hlast := (List.append_inj' hx rfl).2
        exact absurd hlast (by decide)
      have htext : pre ++ ((if c = '"' then ['\\', '"'] else [c]) ++ escape v) ++ '"' :: rest =
          (pre ++ ['\\']) ++ '"' :: ([] ++ escape v ++ '"' :: rest) := by
        rw [if_pos hc]
        simp only [List.append_assoc, List.cons_append, List.nil_append]
      rw [htext, forced_segment hseg, if_neg hnot, ih List.not_mem_nil, hc, List.nil_append]
      simp only [suffix_append_cons_iff quote_not_mem_commandKey]
    · have hseg : '"' ∉ pre ++ [c] := by
        rw [List.mem_append, not_or, List.mem_singleton]
        exact ⟨hpre, fun heq => hc heq.symm⟩
      have htext : pre ++ ((if c = '"' then ['\\', '"'] else [c]) ++ escape v) ++ '"' :: rest =
          (pre ++ [c]) ++ escape v ++ '"' :: rest := by
        rw [if_neg hc, ← List.append_assoc pre]
      have hvalue : pre ++ c :: v = pre ++ [c] ++ v := by
        rw [List.append_assoc, List.singleton_append]
      rw [htext, ih hseg, hvalue]

theorem unquote_plain (hs : ∀ c ∈ s, c ≠ '\\' ∧ c ≠ '"') :
    unquote false (s ++ rest) = (unquote false rest).map (s ++ ·) := by
  induction s with
  | nil => simp
  | cons c s ih =>
    obtain ⟨hslash, hquote⟩ := hs c List.mem_cons_self
    rw [List.cons_append, unquote, if_neg hslash, if_neg hquote, ih fun d hd => hs d (List.mem_cons_of_mem c hd),
      Option.map_map]
    rfl

theorem unquote_escape (hv : ∀ c ∈ v, c ≠ '\\') : unquote false (escape v ++ '"' :: rest) = some v := by
  induction v with
  | nil => rfl
  | cons c v ih =>
    have htail := ih fun d hd => hv d (List.mem_cons_of_mem c hd)
    rw [escape_cons]
    by_cases hc : c = '"'
    · rw [if_pos hc, hc]
      simp only [List.cons_append, List.nil_append, unquote, if_true, htail, Option.map_some]
    · rw [if_neg hc]
      simp only [List.cons_append, List.nil_append, unquote, if_neg (hv c List.mem_cons_self), if_neg hc, htail,
        Option.map_some]

/-! ### Options one after another -/

/-- Options, each with a comma before it -/
def tailText (os : List Opt) : List Char := os.flatMap fun o => ',' :: o.text

theorem tailText_cons : tailText (o :: os) = ',' :: o.text ++ tailText os := List.flatMap_cons

theorem intercalate_text (o : Opt) (os : List Opt) : [','].intercalate ((o :: os).map Opt.text) = o.text ++ tailText os := by
  induction os generalizing o with
  | nil => rw [List.map_singleton, List.intercalate_singleton, tailText, List.flatMap_nil, List.append_nil]
  | cons o' os ih =>
    have hcons : [','].intercalate ((o :: o' :: os).map Opt.text) =
        o.text ++ [','] ++ [','].intercalate ((o' :: os).map Opt.text) := by
      simp only [List.map_cons, List.intercalate_cons_cons]
    rw [hcons, ih, tailText_cons, List.append_assoc, List.singleton_append, List.cons_append]

theorem Opt.name_plain (o : Opt) : ∀ c ∈ o.name, c ≠ '\\' ∧ c ≠ '"' := by
  intro c hc
  have hnot := (o.named.2 c hc).2
  simp only [List.mem_cons, not_or] at hnot
  exact ⟨hnot.2.1, hnot.1⟩

/-- What is read as the command of options -/
def heard : List Opt → Option (List Char)
  | [] => none
  | o :: rest =>
    match o.value with
    | none => heard rest
    | some v =>
      if "command".toList <:+ o.name then some v
      else if commandKey <:+ v then upToQuote rest
      else heard rest

theorem unquote_tailText (os : List Opt) : unquote false (tailText os) = upToQuote os := by
  induction os with
  | nil => rfl
  | cons o os ih =>
    -- neither the comma nor a name needs an escape
    have hcomma : ∀ c ∈ ',' :: o.name, c ≠ '\\' ∧ c ≠ '"' := by
      intro c hc
      rcases List.mem_cons.mp hc with rfl | hc
      · decide
      · exact o.name_plain c hc
    rw [tailText_cons, upToQuote, Opt.text]
    cases o.value with
    | none =>
      rw [unquote_plain hcomma, ih]
    | some v =>
      have hkey : ∀ c ∈ ',' :: o.name ++ ['='], c ≠ '\\' ∧ c ≠ '"' := by
        intro c hc
        rcases List.mem_append.mp hc with hc | hc
        · exact hcomma c hc
        · obtain rfl := List.mem_singleton.mp hc
          decide
      have htext : ',' :: (o.name ++ '=' :: '"' :: escape v ++ ['"']) ++ tailText os =
          (',' :: o.name ++ ['=']) ++ '"' :: (escape v ++ '"' :: tailText os) := by
        simp only [List.append_assoc, List.cons_append, List.nil_append]
      simp only [htext, unquote_plain hkey]
      simp [unquote]

theorem forced_tailText (hpre : '"' ∉ pre) : forcedCommand (pre ++ tailText os) = heard os := by
  -- along the options; what is before them holds no quote
  induction os generalizing pre with
  | nil =>
    rw [tailText, List.flatMap_nil, List.append_nil]
    exact forced_none hpre
  | cons o os ih =>
    have hname : '"' ∉ pre ++ ',' :: o.name := by
      rw [List.mem_append, not_or]
      refine ⟨hpre, ?_⟩
      intro h
      rcases List.mem_cons.mp h with heq | h
      · exact absurd heq (by decide)
      · exact (o.name_plain _ h).2 rfl
    rw [tailText_cons, heard, Opt.text]
    cases hvalue : o.value with
    | none =>
      have htext : pre ++ (',' :: o.name ++ tailText os) = (pre ++ ',' :: o.name) ++ tailText os :=
        (List.append_assoc _ _ _).symm
      exact (congrArg forcedCommand htext).trans (ih hname)
    | some v =>
      have hv : ∀ c ∈ v, c ≠ '\\' := by
        intro c hc heq
        have hnot := o.valued v hvalue c hc
        rw [heq] at hnot
        exact hnot List.mem_cons_self
      have hkey : '"' ∉ pre ++ ',' :: o.name ++ ['='] := by
        rw [List.mem_append, not_or]
        exact ⟨hname, by decide⟩
      -- the key ends there just when the name of the option ends in the word
      have hsuffix : commandKey <:+ pre ++ ',' :: o.name ++ ['='] ↔ "command".toList <:+ o.name := by
        have hform : commandKey = "command".toList ++ ['='] := by decide
        have hcomma : ',' ∉ "command".toList := by decide
        rw [hform, List.suffix_append_self_iff, suffix_append_cons_iff hcomma]
      have htext : pre ++ (',' :: (o.name ++ '=' :: '"' :: escape v ++ ['"']) ++ tailText os) =
          (pre ++ ',' :: o.name ++ ['=']) ++ '"' :: ([] ++ escape v ++ '"' :: tailText os) := by
        simp only [List.append_assoc, List.cons_append, List.nil_append]
      have hread : unquote false ([] ++ escape v ++ '"' :: tailText os) = some v := unquote_escape hv
      -- otherwise the search goes on behind the value
      have hlater : forcedCommand (tailText os) = heard os := ih List.not_mem_nil
      refine (congrArg forcedCommand htext).trans ?_
      rw [forced_segment hkey, forced_escape List.not_mem_nil, hread, hlater, unquote_tailText, List.nil_append]
      simp only [hsuffix]

/-- The command that is found in the text of options. -/
theorem forced_options (os : List Opt) : forcedCommand ([','].intercalate (os.map Opt.text)) = heard os := by
  cases os with
  | nil => exact forced_none List.not_mem_nil
  | cons o os =>
    have hcomma : forcedCommand (tailText (o :: os)) = forcedCommand (o.text ++ tailText os) := by
      have hnot : ¬ commandStart <+: ',' :: (o.text ++ tailText os) := by
        rintro ⟨x, hx⟩
        exact absurd (List.cons.inj hx).1 (by decide)
      rw [tailText_cons, forcedCommand, List.cons_append, findStr_cons_of_not hnot, forcedCommand]
    have hheard : forcedCommand ([] ++ tailText (o :: os)) = heard (o :: os) := forced_tailText List.not_mem_nil
    rw [intercalate_text, ← hcomma]
    exact hheard

theorem isCommand_cons : IsCommand (o :: os) v ↔ (o.name = "command".toList ∧ o.value = some v) ∨ IsCommand os v := by
  simp only [IsCommand, List.exists_mem_cons_iff]

theorem commandFirst_iff (os : List Opt) : CommandFirst os ↔ ∀ c, heard os = some c ↔ IsCommand os c := by
  -- what the parser hears is decided by the first option that looks like a command
  induction os with
  | nil => simp [CommandFirst, heard, IsCommand]
  | cons o os ih =>
    simp only [CommandFirst, heard, isCommand_cons]
    cases o.value with
    | none => simpa using ih
    | some v =>
      by_cases hname : o.name = "command".toList
      · have hsuffix : "command".toList <:+ o.name := by rw [hname]
        simp only [if_pos hname, if_pos hsuffix]
        simp only [hname, true_and, Option.some_inj]
        constructor
        · intro h c
          constructor
          · exact Or.inl
          · rintro (heq | hrest)
            · exact heq
            · exact (h c hrest).symm
        · intro h c hrest
          exact ((h c).mpr (Or.inr hrest)).symm
      · simp only [if_neg hname]
        simp only [hname, false_and, false_or]
        -- an option whose name ends in it is heard as the command
        by_cases hsuffix : "command".toList <:+ o.name
        · simp only [if_pos hsuffix, Option.some_inj]
          constructor
          · intro h c
            rw [h c]
            exact eq_comm
          · intro h c
            rw [← h c]
            exact eq_comm
        · simp only [if_neg hsuffix]
          -- and so is a value that ends in the key, for the quote after it
          by_cases hvalue : commandKey <:+ v
          · have hvalue' : "command=".toList <:+ v := hvalue
            simp only [if_pos hvalue, if_pos hvalue']
            constructor
            · intro h c
              exact (h c).symm
            · intro h c
              exact (h c).symm
          · have hvalue' : ¬ "command=".toList <:+ v := hvalue
            simp only [if_neg hvalue, if_neg hvalue']
            exact ih

end AbyssalWarden.SshKeys

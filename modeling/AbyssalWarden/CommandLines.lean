import AbyssalWarden.WinRules
import AbyssalWarden.Words

/-! Command lines that are printed from a program and its arguments, and the file that is read back from them. -/
namespace AbyssalWarden.WinRules

/-! ### Programs -/

/-- A program as it is printed: in quotes, or ending in `.exe` in any case and holding blanks, or a single word. -/
structure ProgramText where
  path : List Char
  quoted : Bool
  unquoted : quoted = true → '"' ∉ path
  starts : quoted = false → ∃ c ∈ path.head?, isWhitespace c = false ∧ c ≠ '"'
  word : quoted = false → ¬ exe <:+ lowercase path → ∀ c ∈ path, isWhitespace c = false
  firstExe : quoted = false → exe <:+ lowercase path →
    ∀ pre c post, lowercase path = pre ++ exe ++ c :: post → isWhitespace c = false

namespace ProgramText

variable {p : ProgramText} {args rest : List Char} {c : Char}

def text (p : ProgramText) : List Char := if p.quoted then '"' :: p.path ++ ['"'] else p.path

/-- What follows reads as the end of a program: `.exe` before white space or at the end. -/
def EndsProgram (s : List Char) : Prop := ∃ pre post, lowercase s = pre ++ exe ++ post ∧ endsWord post = true

/-- The program shows where it ends: by quotes, by `.exe`, or because nothing that follows ends like a program. -/
def Plain (p : ProgramText) (args : List Char) : Prop :=
  p.quoted = true ∨ exe <:+ lowercase p.path ∨ ¬ EndsProgram (p.text ++ args)

end ProgramText

/-! ### Lower case -/

section

variable {s t body post path args r w : List Char} {c : Char}

theorem lowercase_append : lowercase (s ++ t) = lowercase s ++ lowercase t := List.map_append

theorem endsWord_lowercase : endsWord (lowercase s) = endsWord s := by
  cases s with
  | nil => rfl
  | cons c s => exact isWhitespace_toLower c

/-! ### Where the program ends -/

theorem exeEnd_eq : exeEnd t =
    ((List.range t.length).find? fun i => exe.isPrefixOf (t.drop i) && endsWord (t.drop (i + 4))).map (· + 4) := by
  rw [exeEnd, matchIndices, List.find?_map, List.find?_filter]
  simp only [Bool.decide_and, Bool.decide_eq_true, Function.comp_apply]

theorem exe_length : exe.length = 4 := rfl

/-- The search stops at the first `.exe` that ends a word. -/
theorem exeEnd_eq_some (hsuffix : exe <:+ body) (hpost : endsWord post = true)
    (hfirst : ∀ pre c rest, body = pre ++ exe ++ c :: rest → isWhitespace c = false) :
    exeEnd (body ++ post) = some body.length := by
  obtain ⟨pre, rfl⟩ := hsuffix
  have hfind : ((List.range (pre ++ exe ++ post).length).find? fun i =>
      exe.isPrefixOf ((pre ++ exe ++ post).drop i) && endsWord ((pre ++ exe ++ post).drop (i + 4))) = some pre.length := by
    rw [List.find?_range_eq_some]
    refine ⟨?_, ?_, ?_⟩
    · have hend : pre.length + 4 = (pre ++ exe).length := by rw [List.length_append, exe_length]
      rw [hend, List.drop_left, List.append_assoc, List.drop_left, hpost, Bool.and_true, List.isPrefixOf_iff_prefix]
      exact List.prefix_append _ _
    · rw [List.mem_range]
      simp only [List.length_append, exe_length]
      omega
    · intro j hj
      by_contra hmatch
      simp only [Bool.not_eq_true, Bool.not_eq_false', Bool.and_eq_true, List.isPrefixOf_iff_prefix] at hmatch
      obtain ⟨⟨rest, hrest⟩, hend⟩ := hmatch
      -- the match lies within the body, so the body goes on after it
      have hlt : j + 4 < (pre ++ exe).length := by
        rw [List.length_append, exe_length]
        omega
      have htail : (pre ++ exe ++ post).drop (j + 4) = (pre ++ exe).drop (j + 4) ++ post :=
        List.drop_append_of_le_length hlt.le
      obtain ⟨c, tail, hc⟩ := List.exists_cons_of_ne_nil (List.ne_nil_of_length_pos
        (by rw [List.length_drop]; omega : 0 < ((pre ++ exe).drop (j + 4)).length))
      have hbody : pre ++ exe = (pre ++ exe).take j ++ exe ++ c :: tail := by
        have hdrop : (pre ++ exe).drop j ++ post = exe ++ rest := by
          rw [← List.drop_append_of_le_length (by omega), hrest]
        have htake : ((pre ++ exe).drop j).take 4 = exe := by
          have hlen : 4 ≤ ((pre ++ exe).drop j).length := by
            rw [List.length_drop]
            omega
          have hfirst : (((pre ++ exe).drop j) ++ post).take 4 = ((pre ++ exe).drop j).take 4 :=
            List.take_append_of_le_length hlen
          rw [← hfirst, hdrop]
          rfl
        calc pre ++ exe = (pre ++ exe).take j ++ (pre ++ exe).drop j := (List.take_append_drop _ _).symm
          _ = (pre ++ exe).take j ++ (((pre ++ exe).drop j).take 4 ++ ((pre ++ exe).drop j).drop 4) := by
              rw [List.take_append_drop 4]
          _ = (pre ++ exe).take j ++ exe ++ c :: tail := by
              rw [htake, List.drop_drop, hc, List.append_assoc]
      rw [htail, hc] at hend
      have hblank : isWhitespace c = true := hend
      rw [hfirst _ c tail hbody] at hblank
      cases hblank
  rw [exeEnd_eq, hfind, Option.map_some, List.length_append, exe_length]

theorem exeEnd_eq_none (h : ∀ pre post, t = pre ++ exe ++ post → endsWord post = false) : exeEnd t = none := by
  rw [exeEnd_eq, Option.map_eq_none_iff, List.find?_eq_none]
  intro i _ hmatch
  rw [Bool.and_eq_true, List.isPrefixOf_iff_prefix] at hmatch
  obtain ⟨⟨rest, hrest⟩, hend⟩ := hmatch
  have ht : t = t.take i ++ exe ++ rest := by
    rw [List.append_assoc, hrest, List.take_append_drop]
  have hdrop : t.drop (i + 4) = rest := by
    rw [← List.drop_drop, ← hrest]
    rfl
  rw [hdrop, h _ _ ht] at hend
  cases hend

/-- Text that starts and ends in no white space keeps what follows it but for the white space at the end. -/
theorem trim_text (args : List Char) (hfirst : ∃ a, t.head? = some a ∧ isWhitespace a = false)
    (hlast : ∃ b ∈ t.getLast?, isWhitespace b = false) :
    ∃ r w, args = r ++ w ∧ Blank w ∧ trim (t ++ args) = t ++ r := by
  obtain ⟨a, ha, hablank⟩ := hfirst
  obtain ⟨b, hb, hbblank⟩ := hlast
  refine ⟨args.rdropWhile isWhitespace, args.rtakeWhile isWhitespace, (List.rdropWhile_append_rtakeWhile ..).symm, ?_, ?_⟩
  · intro c hc
    exact List.mem_rtakeWhile_imp hc
  · have hblank : Blank (args.rtakeWhile isWhitespace) := fun c hc => List.mem_rtakeWhile_imp hc
    have hhead : (t ++ args.rdropWhile isWhitespace).head? = some a := by
      rw [List.head?_append, ha, Option.some_or]
    have hends : ∃ u d, t ++ args.rdropWhile isWhitespace = u ++ [d] ∧ isWhitespace d = false := by
      by_cases hr : args.rdropWhile isWhitespace = []
      · exact ⟨t.dropLast, b, by rw [hr, List.append_nil, List.dropLast_append_getLast? b hb], hbblank⟩
      · refine ⟨t ++ (args.rdropWhile isWhitespace).dropLast, (args.rdropWhile isWhitespace).getLast hr, ?_,
          Bool.not_eq_true _ ▸ List.rdropWhile_last_not _ _ hr⟩
        rw [List.append_assoc, List.dropLast_append_getLast]
    obtain ⟨u, d, hud, hd⟩ := hends
    calc trim (t ++ args) = trim ((t ++ args.rdropWhile isWhitespace) ++ args.rtakeWhile isWhitespace) := by
          rw [List.append_assoc, List.rdropWhile_append_rtakeWhile]
      _ = trim (t ++ args.rdropWhile isWhitespace) := trim_append_right hblank
      _ = t ++ args.rdropWhile isWhitespace := trim_of_ends hablank hd hhead hud

end

namespace ProgramText

variable {p : ProgramText} {args rest : List Char} {c : Char}

theorem path_ne_nil (hq : p.quoted = false) : p.path ≠ [] := by
  obtain ⟨c, hc, -⟩ := p.starts hq
  intro hnil
  rw [hnil] at hc
  cases hc

theorem text_head : ∃ a, p.text.head? = some a ∧ isWhitespace a = false := by
  rw [text]
  split
  case isTrue => exact ⟨'"', rfl, by decide⟩
  case isFalse hq =>
    obtain ⟨c, hc, hblank, -⟩ := p.starts (Bool.not_eq_true _ ▸ hq)
    exact ⟨c, hc, hblank⟩

theorem text_last : ∃ b ∈ p.text.getLast?, isWhitespace b = false := by
  rw [text]
  split
  case isTrue => exact ⟨'"', by rw [List.getLast?_concat]; rfl, by decide⟩
  case isFalse hq =>
    have hq' : p.quoted = false := Bool.not_eq_true _ ▸ hq
    have hne := path_ne_nil hq'
    refine ⟨p.path.getLast hne, List.getLast?_eq_some_getLast hne, ?_⟩
    by_cases hexe : exe <:+ lowercase p.path
    · -- the last character is an `e` of either case
      obtain ⟨pre, hpre⟩ := hexe
      have hlast := congrArg List.getLast? hpre
      have hsome : (pre ++ exe).getLast? = some 'e' := by simp [exe]
      rw [hsome, lowercase, List.getLast?_map, List.getLast?_eq_some_getLast hne] at hlast
      have hlower : 'e' = (p.path.getLast hne).toLower := Option.some.inj hlast
      rw [← isWhitespace_toLower, ← hlower]
      decide
    · exact p.word hq' hexe _ (List.getLast_mem hne)

theorem findIdx_append {s r : List Char} (hs : ∀ c ∈ s, isWhitespace c = false) (hr : endsWord r = true) :
    (s ++ r).findIdx isWhitespace = s.length := by
  induction s with
  | nil =>
    cases r with
    | nil => rfl
    | cons c r =>
      have hc : isWhitespace c = true := hr
      rw [List.nil_append, List.findIdx_cons, hc]
      rfl
  | cons c s ih =>
    rw [List.cons_append, List.findIdx_cons, hs c List.mem_cons_self, ih fun d hd => hs d (List.mem_cons_of_mem _ hd)]
    rfl

/-- The program is read back from a command line, with the words that follow it. -/
theorem splitProgram_text (hargs : endsWord args = true) (hplain : p.Plain args) :
    ∃ rest, splitProgram (trim (p.text ++ args)) = some (p.path, rest) ∧ splitWhitespace rest = splitWhitespace args := by
  obtain ⟨r, w, rfl, hw, htrim⟩ := trim_text args p.text_head p.text_last
  have hr : endsWord r = true := by
    cases r with
    | nil => rfl
    | cons c r => exact hargs
  refine ⟨r, ?_, (splitWhitespace_append_blank hw).symm⟩
  rw [htrim, splitProgram]
  -- a quoted path ends at its quote, another one where its program name ends
  cases hq : p.quoted with
  | true =>
    have htext : p.text ++ r = '"' :: (p.path ++ '"' :: r) := by
      rw [text, hq, if_pos rfl]
      simp
    rw [htext, if_pos List.head?_cons, List.tail_cons, splitOnce_append (p.unquoted hq)]
  | false =>
    have htext : p.text = p.path := by
      rw [text, hq]
      rfl
    obtain ⟨c, hc, -, hquote⟩ := p.starts hq
    have hhead : (p.path ++ r).head? ≠ some '"' := by
      rw [List.head?_append, hc, Option.some_or]
      exact fun h => hquote (Option.some.inj h)
    -- the end that is found is the first `.exe` at the end of a word, or the first blank
    have hstop : (exeEnd (lowercase (p.path ++ r))).getD ((p.path ++ r).findIdx isWhitespace) = p.path.length := by
      by_cases hexe : exe <:+ lowercase p.path
      · have hend : exeEnd (lowercase p.path ++ lowercase r) = some (lowercase p.path).length :=
          exeEnd_eq_some hexe (endsWord_lowercase.trans hr) (p.firstExe hq hexe)
        rw [lowercase_append, hend, Option.getD_some, lowercase, List.length_map]
      · have hnone : exeEnd (lowercase (p.path ++ r)) = none := by
          apply exeEnd_eq_none
          intro pre post hpost
          by_contra hend
          rcases hplain with hquoted | hsuffix | hnot
          · rw [hq] at hquoted
            cases hquoted
          · exact hexe hsuffix
          · apply hnot
            refine ⟨pre, post ++ lowercase w, ?_, ?_⟩
            · rw [htext, ← List.append_assoc, lowercase_append, hpost, List.append_assoc, List.append_assoc]
            · cases post with
              | nil =>
                rw [List.nil_append, endsWord_lowercase]
                cases w with
                | nil => rfl
                | cons d w => exact hw d List.mem_cons_self
              | cons d post => simpa [endsWord] using hend
        rw [hnone, Option.getD_none, findIdx_append (p.word hq hexe) hr]
    rw [htext, if_neg hhead]
    simp only [hstop, List.take_left, List.drop_left]

end ProgramText

/-! ### Commands -/

/-- A switch, after white space. -/
structure Switch extends SpacedWord where
  sign : isSwitch text = true

def Switch.print (s : Switch) : List Char := s.toSpacedWord.print

/-- A loader with the library that it is to load, in quotes whenever its path holds blanks, with switches on either side
and perhaps an entry point. -/
structure DllCommand where
  program : ProgramText
  loader : Loader
  runs : loaderOf (baseName program.path) = some loader
  before : List Switch
  gap : List Char
  apart : gap ≠ [] ∧ Blank gap
  dll : List Char
  quoted : Bool
  entry : Option (List Char)
  after : List Switch
  named : dll ≠ []
  unquoted : '"' ∉ dll
  word : quoted = false → ∀ c ∈ dll, isWhitespace c = false
  entryWord : ∀ e ∈ entry, '"' ∉ e ∧ ∀ c ∈ e, isWhitespace c = false

namespace DllCommand

variable {cmd : DllCommand}

def dllText (cmd : DllCommand) : List Char :=
  (if cmd.quoted then '"' :: cmd.dll ++ ['"'] else cmd.dll) ++ (cmd.entry.map fun e => ',' :: e).getD []

def args (cmd : DllCommand) : List Char :=
  cmd.before.flatMap Switch.print ++ cmd.gap ++ cmd.dllText ++ cmd.after.flatMap Switch.print

def line (cmd : DllCommand) : List Char := cmd.program.text ++ cmd.args

theorem endsWord_iff {s : List Char} : endsWord s = true ↔ EndsWord s := by
  cases s with
  | nil => exact ⟨fun _ => endsWord_nil, fun _ => rfl⟩
  | cons c s => exact ⟨fun h d hd => Option.some.inj hd ▸ h, fun h => h c rfl⟩

theorem print_switches (switches : List Switch) :
    switches.flatMap Switch.print = (switches.map Switch.toSpacedWord).flatMap SpacedWord.print := by
  rw [List.flatMap_map]
  rfl

theorem endsWord_args : endsWord cmd.args = true := by
  rw [endsWord_iff, args, print_switches, List.append_assoc, List.append_assoc]
  exact endsWord_print (endsWord_gap cmd.apart)

theorem splitWhitespace_switches (switches : List Switch) {rest : List Char} (hrest : EndsWord rest) :
    splitWhitespace (switches.flatMap Switch.print ++ rest) = switches.map (·.text) ++ splitWhitespace rest := by
  rw [print_switches, splitWhitespace_print _ hrest, List.map_map]
  rfl

/-- The words of the arguments: the switches, what the library's part of the line splits into, the switches. -/
theorem splitWhitespace_args : splitWhitespace cmd.args =
    cmd.before.map (·.text) ++ (splitWhitespace cmd.dllText ++ cmd.after.map (·.text)) := by
  have hafter : splitWhitespace (cmd.dllText ++ cmd.after.flatMap Switch.print) =
      splitWhitespace cmd.dllText ++ cmd.after.map (·.text) := by
    cases hswitches : cmd.after with
    | nil => simp
    | cons s after =>
      have hrest := splitWhitespace_switches (s :: after) endsWord_nil
      rw [List.append_nil, splitWhitespace_nil, List.append_nil] at hrest
      have hgap : splitWhitespace (cmd.dllText ++ s.gap ++ (s.text ++ after.flatMap Switch.print)) =
          splitWhitespace cmd.dllText ++ splitWhitespace (s.text ++ after.flatMap Switch.print) :=
        splitWhitespace_gap s.apart.1 s.apart.2
      have hskip := splitWhitespace_blank_append (s := s.text ++ after.flatMap Switch.print) s.apart.2
      rw [List.flatMap_cons, Switch.print, SpacedWord.print] at hrest ⊢
      rw [List.append_assoc] at hrest hgap ⊢
      rw [hgap, ← hskip, hrest]
  have hargs : cmd.args = cmd.before.flatMap Switch.print ++ (cmd.gap ++ (cmd.dllText ++ cmd.after.flatMap Switch.print)) := by
    rw [args, List.append_assoc, List.append_assoc]
  rw [hargs, splitWhitespace_switches _ (endsWord_gap cmd.apart), splitWhitespace_blank_append cmd.apart.2, hafter]

end DllCommand

/-! ### The file that is read back -/

section

variable {p : ProgramText} {args dll e a : List Char} {words : List (List Char)} {loader : Loader} {c : List Char}

theorem commandExecutable_eq_some (hargs : endsWord args = true) (hplain : p.Plain args) :
    commandExecutable (p.text ++ args) = some c ↔
      chooseFile (loaderOf (baseName p.path)) p.path (splitWhitespace args) = some c ∧ ('\\' ∈ c ∨ ':' ∈ c) := by
  obtain ⟨rest, hsplit, hwords⟩ := ProgramText.splitProgram_text hargs hplain
  simp only [commandExecutable, hsplit, Option.bind_eq_bind, Option.bind_some, hwords, Option.bind_eq_some_iff,
    Option.ite_none_right_eq_some, Option.some.injEq]
  constructor
  · rintro ⟨chosen, hchosen, hdirectory, rfl⟩
    exact ⟨hchosen, hdirectory⟩
  · rintro ⟨hchosen, hdirectory⟩
    exact ⟨c, hchosen, hdirectory, rfl⟩

theorem mem_trimQuotes {d : Char} (h : d ∈ Udev.trimQuotes a) : d ∈ a := by
  rw [Udev.trimQuotes, List.mem_reverse] at h
  have hmem := List.mem_reverse.mp ((List.dropWhile_sublist _).subset h)
  exact (List.dropWhile_sublist _).subset hmem

theorem trimQuotes_of_not_mem (h : '"' ∉ a) : Udev.trimQuotes a = a := by
  by_cases hne : a = []
  · rw [hne]
    rfl
  · have hfirst := Udev.dropQuotes_append (s := []) h hne
    have hlast := Udev.dropQuotes_append (s := []) (fun hmem => h (List.mem_reverse.mp hmem))
      (fun hnil => hne (List.reverse_eq_nil_iff.mp hnil))
    rw [List.append_nil] at hfirst hlast
    rw [Udev.trimQuotes, hfirst, hlast, List.reverse_reverse]

/-- The closing quote stays when an entry point follows it. -/
theorem trimQuotes_entry (hdll : '"' ∉ dll) (hne : dll ≠ []) (he : '"' ∉ e) :
    Udev.trimQuotes ('"' :: dll ++ ['"'] ++ ',' :: e) = dll ++ '"' :: ',' :: e := by
  have hfirst : ('"' :: dll ++ ['"'] ++ ',' :: e).dropWhile (· = '"') = dll ++ '"' :: ',' :: e := by
    have hlist : '"' :: dll ++ ['"'] ++ ',' :: e = '"' :: (dll ++ '"' :: ',' :: e) := by simp
    rw [hlist, List.dropWhile_cons_of_pos (by decide), Udev.dropQuotes_append hdll hne]
  have hback : (dll ++ '"' :: ',' :: e).reverse = (',' :: e).reverse ++ '"' :: dll.reverse := by simp
  have hrest : '"' ∉ (',' :: e).reverse := by
    rw [List.mem_reverse, List.mem_cons, not_or]
    exact ⟨by decide, he⟩
  rw [Udev.trimQuotes, hfirst, hback, Udev.dropQuotes_append hrest (by simp), ← hback, List.reverse_reverse]

theorem mem_beforeComma {d : Char} (h : d ∈ beforeComma a) : d ∈ a ∧ d ≠ ',' := by
  have hne := List.mem_takeWhile_imp h
  exact ⟨(List.takeWhile_sublist _).subset h, of_decide_eq_true hne⟩

theorem beforeComma_append (h : ',' ∉ dll) : beforeComma (dll ++ a) = dll ++ beforeComma a := by
  have hall : ∀ d ∈ dll, decide (d ≠ ',') = true := by
    intro d hd
    apply decide_eq_true
    intro heq
    exact h (heq ▸ hd)
  rw [beforeComma, beforeComma, List.takeWhile_append_of_pos hall]

theorem beforeComma_append_eq_self : beforeComma (dll ++ a) = dll ↔ ',' ∉ dll ∧ beforeComma a = [] := by
  constructor
  · intro h
    have hcomma : ',' ∉ dll := fun hmem => (mem_beforeComma (h ▸ hmem)).2 rfl
    rw [beforeComma_append hcomma, List.append_right_eq_self] at h
    exact ⟨hcomma, h⟩
  · rintro ⟨hcomma, ha⟩
    rw [beforeComma_append hcomma, ha, List.append_nil]

/-- What a loader is given is a part of one word. -/
theorem chooseFile_word (h : chooseFile (some loader) p.path words = some c)
    (hwords : ∀ w ∈ words, ∀ d ∈ w, isWhitespace d = false) : ∀ d ∈ c, isWhitespace d = false := by
  intro d hd
  cases loader with
  | rundll32 =>
    obtain ⟨w, hw, rfl⟩ := Option.map_eq_some_iff.mp h
    exact hwords w (List.mem_of_head? hw) d (mem_trimQuotes (mem_beforeComma hd).1)
  | regsvr32 =>
    obtain ⟨w, hw, rfl⟩ := Option.map_eq_some_iff.mp h
    exact hwords w (List.mem_reverse.mp (List.mem_of_find?_eq_some hw)) d (mem_trimQuotes hd)

end

namespace DllCommand

variable {cmd : DllCommand}

/-- The library's path holds no white space. -/
def OneWord (cmd : DllCommand) : Prop := ∀ c ∈ cmd.dll, isWhitespace c = false

theorem splitWhitespace_dllText (h : cmd.OneWord) : splitWhitespace cmd.dllText = [cmd.dllText] := by
  refine splitWhitespace_single ?_ ?_
  · rw [dllText]
    have hnamed := cmd.named
    -- quoted or not, there is something
    split
    · simp
    · simp [hnamed]
  · intro c hc
    rw [dllText, List.mem_append] at hc
    rcases hc with hc | hc
    · split at hc
      · simp only [List.mem_append, List.mem_cons, List.not_mem_nil, or_false] at hc
        rcases hc with (rfl | hc) | rfl
        · decide
        · exact h c hc
        · decide
      · exact h c hc
    · cases hentry : cmd.entry with
      | none => simp [hentry] at hc
      | some e =>
        rw [hentry, Option.map_some, Option.getD_some, List.mem_cons] at hc
        rcases hc with rfl | hc
        · decide
        · exact (cmd.entryWord e hentry).2 c hc

/-- What is left of the library's part of the line. -/
theorem trimQuotes_dllText : Udev.trimQuotes cmd.dllText =
    cmd.dll ++ (cmd.entry.map fun e => (if cmd.quoted then ['"'] else []) ++ ',' :: e).getD [] := by
  rw [dllText]
  cases hentry : cmd.entry with
  | none =>
    cases cmd.quoted
    · simp only [Bool.false_eq_true, if_false, Option.map_none, Option.getD_none, List.append_nil]
      exact trimQuotes_of_not_mem cmd.unquoted
    · simp only [if_true, Option.map_none, Option.getD_none, List.append_nil]
      exact Udev.trimQuotes_quoted cmd.unquoted
  | some e =>
    have he := (cmd.entryWord e hentry).1
    cases cmd.quoted
    · simp only [Bool.false_eq_true, if_false, Option.map_some, Option.getD_some, List.nil_append]
      apply trimQuotes_of_not_mem
      rw [List.mem_append, List.mem_cons, not_or, not_or]
      exact ⟨cmd.unquoted, by decide, he⟩
    · simp only [if_true, Option.map_some, Option.getD_some]
      exact trimQuotes_entry cmd.unquoted cmd.named he

theorem isSwitch_dllText : isSwitch cmd.dllText = (!cmd.quoted && isSwitch cmd.dll) := by
  rw [dllText]
  cases cmd.quoted with
  | true => rfl
  | false =>
    have hnamed := cmd.named
    cases hdll : cmd.dll with
    | nil => exact absurd hdll hnamed
    | cons c rest => rfl

/-- The library's path has a directory, and what the program is searched for in is the path itself: for `rundll32` one
word without a comma, first among the arguments, and not in quotes before an entry point; for `regsvr32` one word, with
no entry point, that is not taken for a switch. -/
def Readable (cmd : DllCommand) : Prop :=
  ('\\' ∈ cmd.dll ∨ ':' ∈ cmd.dll) ∧
    match cmd.loader with
    | .rundll32 =>
      match cmd.before with
      | [] => cmd.OneWord ∧ ',' ∉ cmd.dll ∧ (cmd.quoted = true → cmd.entry = none)
      | s :: _ => beforeComma (Udev.trimQuotes s.text) = cmd.dll
    | .regsvr32 => cmd.OneWord ∧ cmd.entry = none ∧ (cmd.quoted = false → isSwitch cmd.dll = false)

theorem rundll32_first : beforeComma (Udev.trimQuotes cmd.dllText) = cmd.dll ↔
    ',' ∉ cmd.dll ∧ (cmd.quoted = true → cmd.entry = none) := by
  rw [trimQuotes_dllText, beforeComma_append_eq_self]
  cases cmd.entry with
  | none => simp [beforeComma]
  | some e => cases cmd.quoted <;> simp [beforeComma]

theorem regsvr32_last (h : cmd.OneWord) :
    chooseFile (some .regsvr32) cmd.program.path (splitWhitespace cmd.args) = some cmd.dll ↔
      cmd.entry = none ∧ (cmd.quoted = false → isSwitch cmd.dll = false) := by
  -- switches are never taken for the file
  have hswitches : ∀ switches : List Switch, (switches.map (·.text)).reverse.find? (fun a => !isSwitch a) = none := by
    intro switches
    rw [List.find?_eq_none]
    intro a ha
    obtain ⟨s, -, rfl⟩ := List.mem_map.mp (List.mem_reverse.mp ha)
    rw [s.sign]
    decide
  rw [chooseFile, splitWhitespace_args, splitWhitespace_dllText h, List.reverse_append, List.reverse_append,
    List.reverse_singleton, List.append_assoc, List.find?_append, hswitches, Option.none_or, List.singleton_append,
    List.find?_cons, isSwitch_dllText]
  cases hswitch : (!cmd.quoted && isSwitch cmd.dll) with
  | true =>
    rw [Bool.not_true, hswitches]
    rw [Bool.and_eq_true, Bool.not_eq_true'] at hswitch
    simp [hswitch]
  | false =>
    have hdll : cmd.quoted = false → isSwitch cmd.dll = false := by
      intro hq
      rwa [hq, Bool.not_false, Bool.true_and] at hswitch
    rw [Bool.not_false, Option.map_some, Option.some.injEq, trimQuotes_dllText, List.append_right_eq_self]
    cases cmd.entry with
    | none => simpa using hdll
    | some e => simp

/-- Where the program shows where it ends, the library is read back exactly when its path is readable. -/
theorem commandExecutable_line (hplain : cmd.program.Plain cmd.args) :
    commandExecutable cmd.line = some cmd.dll ↔ cmd.Readable := by
  rw [line, commandExecutable_eq_some endsWord_args hplain, and_comm, Readable, cmd.runs]
  refine and_congr_right fun _ => ?_
  have hword : ∀ loader, chooseFile (some loader) cmd.program.path (splitWhitespace cmd.args) = some cmd.dll → cmd.OneWord :=
    fun loader h => chooseFile_word (p := cmd.program) h fun w hw => mem_splitWhitespace hw
  cases cmd.loader with
  | rundll32 =>
    cases hbefore : cmd.before with
    | nil =>
      have hfirst : cmd.OneWord →
          (chooseFile (some .rundll32) cmd.program.path (splitWhitespace cmd.args) = some cmd.dll ↔
            ',' ∉ cmd.dll ∧ (cmd.quoted = true → cmd.entry = none)) := by
        intro h
        rw [chooseFile, splitWhitespace_args, hbefore, splitWhitespace_dllText h, List.map_nil, List.nil_append,
          List.singleton_append, List.head?_cons, Option.map_some, Option.some.injEq, rundll32_first]
      exact ⟨fun h => ⟨hword _ h, (hfirst (hword _ h)).mp h⟩, fun h => (hfirst h.1).mpr h.2⟩
    | cons s before =>
      rw [chooseFile, splitWhitespace_args, hbefore, List.map_cons, List.cons_append, List.head?_cons, Option.map_some,
        Option.some.injEq]
  | regsvr32 => exact ⟨fun h => ⟨hword _ h, (regsvr32_last (hword _ h)).mp h⟩, fun h => (regsvr32_last h.1).mpr h.2⟩

end DllCommand

/-- A path that leads through a directory. -/
def HasDirectory (path : List Char) : Prop := '\\' ∈ path ∨ '/' ∈ path ∨ ':' ∈ path

/-- A program that loads nothing is named where a directory is not shown by slashes alone; of a loader whose own end is
plain, the library is named exactly when it is readable. -/
theorem command_executable_exact (p : ProgramText) (args : List Char) (cmd : DllCommand) :
    (p.quoted = true ∨ exe <:+ lowercase p.path → endsWord args = true → loaderOf (baseName p.path) = none →
      ((HasDirectory p.path → commandExecutable (p.text ++ args) = some p.path) ↔
        ('/' ∈ p.path → '\\' ∈ p.path ∨ ':' ∈ p.path))) ∧
    (cmd.program.Plain cmd.args → (commandExecutable cmd.line = some cmd.dll ↔ cmd.Readable)) := by
  refine ⟨?_, DllCommand.commandExecutable_line⟩
  intro hspelled hargs hother
  have hplain : p.Plain args := hspelled.imp_right Or.inl
  have hnamed : commandExecutable (p.text ++ args) = some p.path ↔ '\\' ∈ p.path ∨ ':' ∈ p.path := by
    rw [commandExecutable_eq_some hargs hplain, hother]
    exact and_iff_right rfl
  rw [hnamed, HasDirectory]
  tauto

/-- A program in quotes. -/
def quotedProgram (path : List Char) (h : '"' ∉ path) : ProgramText where
  path := path
  quoted := true
  unquoted := fun _ => h
  starts := nofun
  word := nofun
  firstExe := nofun

/-- A library in a directory whose name holds a blank. -/
def spacedDll : DllCommand where
  program := quotedProgram "C:\\Windows\\System32\\rundll32.exe".toList (by decide)
  loader := .rundll32
  runs := by decide
  before := []
  gap := [' ']
  apart := by decide
  dll := "C:\\Program Files\\a.dll".toList
  quoted := true
  entry := some "Start".toList
  after := []
  named := by decide
  unquoted := by decide
  word := nofun
  entryWord := fun e he => by
    obtain rfl := Option.some.inj he
    decide

/-- A quoted library is cut at its first blank, and a program below a directory with slashes is not named. -/
theorem commands_not_exact : spacedDll.line =
      "\"C:\\Windows\\System32\\rundll32.exe\" \"C:\\Program Files\\a.dll\",Start".toList ∧
    commandExecutable spacedDll.line = some "C:\\Program".toList ∧
    commandExecutable spacedDll.line ≠ some spacedDll.dll ∧
    commandExecutable (quotedProgram "tools/a.exe".toList (by decide)).text = none := by
  refine ⟨by decide +kernel, by decide +kernel, by decide +kernel, by decide +kernel⟩

end AbyssalWarden.WinRules

import AbyssalWarden.Bundle
import AbyssalWarden.HashDatabase
import AbyssalWarden.JsonStrings
import AbyssalWarden.TextFields
import AbyssalWarden.YaraRules

/-! The detectors of a loaded bundle: one for each hash database, and one for all rule sources together. -/
namespace AbyssalWarden

open Signatures (HashSignatureDatabase DatabaseSerde SignatureDbError)
open Yara (RuleSource YaraDetector YaraLoadError Compiler)

inductive Detector where
  | hash (db : HashSignatureDatabase) (signers : List KeyId)
  | yara (det : YaraDetector)

inductive DetectorsError where
  | database (origin : String) (e : SignatureDbError)
  | notUtf8 (origin : String)
  | rules (e : YaraLoadError)

/-- `str::rsplit_once` -/
def rsplitOnce (sep : Char) (s : List Char) : Option (List Char × List Char) :=
  (splitOnce sep s.reverse).map fun (after, before) => (before.reverse, after.reverse)

/-- `Path::file_stem`: the last name of the path, without what follows its last dot unless that dot comes first. -/
def fileStem (path : String) : Option (List Char) :=
  match ((pathComponents path).filter fun c => c ≠ [] ∧ c ≠ ['.']).getLast? with
  | none => none
  | some name =>
    if name = ['.', '.'] then none
    else
      match rsplitOnce '.' name with
      | some (before, _) => some (if before = [] then name else before)
      | none => some name

/-- A valid, unique YARA namespace derived from the file stem. -/
def namespaceFor (path : String) (index : ℕ) : String :=
  let stem := (((fileStem path).getD []).map fun c => if c.isAlphanum then c else '_').take 48
  let stem := if stem = [] then "rules".toList else stem
  String.ofList stem ++ "_" ++ toString index

/-- One file of the bundle: a detector, a source of rules, or nothing. -/
def addContent (serde : DatabaseSerde) (b : VerifiedBundle) (acc : List Detector × List RuleSource) (f : BundleFile) :
    Except DetectorsError (List Detector × List RuleSource) :=
  let origin := b.manifest.name ++ ":" ++ f.path
  match f.kind with
  | .hashDatabase =>
    (Signatures.fromSlice serde f.data).mapError (.database origin) >>= fun db =>
      .ok (acc.1 ++ [.hash db b.signers], acc.2)
  | .notice => .ok acc
  | .yaraRules =>
    match fromUtf8 f.data with
    | none => .error (.notUtf8 origin)
    | some text => .ok (acc.1, acc.2 ++ [⟨namespaceFor f.path acc.2.length, origin, text⟩])

def bundleDetectors (serde : DatabaseSerde) (c : Compiler) (sha256 : Bytes → Sha256Digest) (b : VerifiedBundle) :
    Except DetectorsError (List Detector) := do
  let (detectors, sources) ← checkEach (addContent serde b) ([], []) b.files
  if sources = [] then .ok detectors
  else
    let signers := ",".intercalate (b.signers.map KeyId.toString)
    let det ← (Yara.compile c sha256 sources (some signers)).mapError .rules
    .ok (detectors ++ [.yara det])

/-! ### Namespaces -/

variable {c : Char} {s path : String} {i j : ℕ}

theorem utf8ByteSize_eq_length (s : String) : s.utf8ByteSize = (utf8Bytes s).length := by
  rw [utf8Bytes, Array.length_toList]
  rfl

theorem toNat_lt_of_isAlphanum (h : c.isAlphanum = true ∨ c = '_') : c.toNat < 0x80 := by
  rcases h with h | rfl
  · simp only [Char.isAlphanum, Char.isAlpha, Char.isUpper, Char.isLower, Char.isDigit, Bool.or_eq_true,
      Bool.and_eq_true, decide_eq_true_eq, UInt32.le_iff_toNat_le] at h
    have hupper : 'A'.val.toNat = 65 ∧ 'Z'.val.toNat = 90 := ⟨rfl, rfl⟩
    have hlower : 'a'.val.toNat = 97 ∧ 'z'.val.toNat = 122 := ⟨rfl, rfl⟩
    have hdigit : '0'.val.toNat = 48 ∧ '9'.val.toNat = 57 := ⟨rfl, rfl⟩
    change c.val.toNat < 128
    omega
  · decide

/-- ASCII characters are a byte each. -/
theorem utf8ByteSize_ascii {s : List Char} (h : ∀ c ∈ s, c.toNat < 0x80) :
    (String.ofList s).utf8ByteSize = s.length := by
  rw [utf8ByteSize_eq_length, Json.utf8Bytes_eq, String.toList_ofList]
  induction s with
  | nil => rfl
  | cons c s ih =>
    rw [List.forall_mem_cons] at h
    rw [List.flatMap_cons, List.length_append, ih h.2, Json.utf8EncodeChar_ascii h.1, List.length_singleton,
      List.length_cons, Nat.add_comm]

/-- The part of a namespace before the number. -/
def stemText (path : String) : List Char :=
  let stem := (((fileStem path).getD []).map fun c => if c.isAlphanum then c else '_').take 48
  if stem = [] then "rules".toList else stem

theorem namespaceFor_toList : (namespaceFor path i).toList = stemText path ++ '_' :: Nat.toDigits 10 i := by
  rw [namespaceFor, String.toList_append, String.toList_append, String.toList_ofList, Nat.toString_eq_repr,
    Nat.toList_repr, List.append_assoc]
  rfl

theorem stemText_length : (stemText path).length ≤ 48 := by
  unfold stemText
  dsimp only
  split
  · decide
  · exact (List.length_take_le _ _)

theorem stemText_plain : ∀ c ∈ stemText path, c.isAlphanum = true ∨ c = '_' := by
  unfold stemText
  dsimp only
  split
  · decide
  · intro c hc
    obtain ⟨original, -, rfl⟩ := List.mem_map.mp (List.mem_of_mem_take hc)
    split
    · exact Or.inl ‹_›
    · exact Or.inr rfl

theorem namespaceFor_plain : ∀ c ∈ (namespaceFor path i).toList, c.isAlphanum = true ∨ c = '_' := by
  intro c hc
  rw [namespaceFor_toList, List.mem_append, List.mem_cons] at hc
  rcases hc with hc | rfl | hc
  · exact stemText_plain c hc
  · exact Or.inr rfl
  · left
    rw [Char.isAlphanum, toDigits_isDigit hc, Bool.or_true]

/-- A namespace is valid as long as there are not too many. -/
theorem namespaceFor_valid (h : i < 10 ^ 15) : Yara.validNamespace (namespaceFor path i) = true := by
  have htext : namespaceFor path i = String.ofList (namespaceFor path i).toList := String.ofList_toList.symm
  have hsize : (namespaceFor path i).utf8ByteSize = (namespaceFor path i).toList.length := by
    conv_lhs => rw [htext]
    exact utf8ByteSize_ascii fun c hc => toNat_lt_of_isAlphanum (namespaceFor_plain c hc)
  have hdigits : (Nat.toDigits 10 i).length ≤ 15 := Nat.toDigits_length 10 i 15 (by decide) h
  have hlength : (namespaceFor path i).toList.length ≤ 64 := by
    have hstem : (stemText path).length ≤ 48 := stemText_length
    rw [namespaceFor_toList, List.length_append, List.length_cons]
    omega
  have hne : namespaceFor path i ≠ "" := by
    intro heq
    have htoList := congrArg String.toList heq
    rw [namespaceFor_toList] at htoList
    exact List.append_ne_nil_of_right_ne_nil _ (List.cons_ne_nil _ _) htoList
  have hall : (namespaceFor path i).toList.all (fun c => c.isAlphanum || c = '_') = true := by
    rw [List.all_eq_true]
    intro c hc
    rw [Bool.or_eq_true, decide_eq_true_eq]
    exact namespaceFor_plain c hc
  rw [Yara.validNamespace, hall, hsize, decide_eq_true hne, decide_eq_true hlength]
  rfl

/-- The number tells namespaces apart. -/
theorem namespaceFor_ne {other : String} (h : namespaceFor path i = namespaceFor other j) : i = j := by
  have htext := congrArg (fun s : String => s.toList.reverse) h
  simp only [namespaceFor_toList, List.reverse_append, List.reverse_cons, List.append_assoc, List.singleton_append]
    at htext
  have hclean : ∀ n : ℕ, '_' ∉ (Nat.toDigits 10 n).reverse := fun _ hmem =>
    Nat.underscore_not_in_toDigits (List.mem_reverse.mp hmem)
  have hsplit : ∀ (n : ℕ) (stem : List Char),
      splitOnce '_' ((Nat.toDigits 10 n).reverse ++ '_' :: stem) = some ((Nat.toDigits 10 n).reverse, stem) :=
    fun n _ => splitOnce_append (hclean n)
  have hdigits := congrArg (splitOnce '_') htext
  rw [hsplit, hsplit, Option.some.injEq, Prod.mk.injEq, List.reverse_inj] at hdigits
  calc
    i = Nat.ofDigitChars 10 (Nat.toDigits 10 i) 0 := Nat.ofDigitChars_ten_toDigits.symm
    _ = Nat.ofDigitChars 10 (Nat.toDigits 10 j) 0 := by rw [hdigits.1]
    _ = j := Nat.ofDigitChars_ten_toDigits

/-! ### The sources of a bundle -/

variable {serde : DatabaseSerde} {compiler : Compiler} {sha256 : Bytes → Sha256Digest} {b : VerifiedBundle}
  {files : List BundleFile} {texts : List (String × String)} {name : String} {n : ℕ}

/-- The texts of the rule files, with their paths. -/
def ruleTexts (files : List BundleFile) : List (String × String) :=
  files.filterMap fun f => if f.kind = .yaraRules then (fromUtf8 f.data).map (f.path, ·) else none

def sourceOf (name : String) (item : (String × String) × ℕ) : RuleSource :=
  ⟨namespaceFor item.1.1 item.2, name ++ ":" ++ item.1.1, item.1.2⟩

/-- The sources in their order, counted from `n`. -/
def sourcesFrom (name : String) (n : ℕ) (texts : List (String × String)) : List RuleSource :=
  (texts.zipIdx n).map (sourceOf name)

/-- The file can be used by itself. -/
def BundleFile.Usable (serde : DatabaseSerde) (f : BundleFile) : Prop :=
  match f.kind with
  | .hashDatabase => ∃ db, Signatures.fromSlice serde f.data = .ok db
  | .notice => True
  | .yaraRules => ∃ text, fromUtf8 f.data = some text

theorem addContents_ok (acc : List Detector × List RuleSource) (h : ∀ f ∈ files, f.Usable serde) :
    ∃ detectors, checkEach (addContent serde b) acc files =
      .ok (detectors, acc.2 ++ sourcesFrom b.manifest.name acc.2.length (ruleTexts files)) := by
  induction files generalizing acc with
  | nil => exact ⟨acc.1, by simp [checkEach, ruleTexts, sourcesFrom]⟩
  | cons f files ih =>
    obtain ⟨hf, hall⟩ := List.forall_mem_cons.mp h
    unfold BundleFile.Usable at hf
    cases hkind : f.kind with
    | hashDatabase =>
      rw [hkind] at hf
      obtain ⟨db, hdb⟩ := hf
      have hadd : addContent serde b acc f = .ok (acc.1 ++ [.hash db b.signers], acc.2) := by
        simp only [addContent, hkind, hdb]
        rfl
      have htexts : ruleTexts (f :: files) = ruleTexts files := by simp [ruleTexts, hkind]
      obtain ⟨detectors, hrest⟩ := ih (acc.1 ++ [.hash db b.signers], acc.2) hall
      rw [htexts]
      exact ⟨detectors, checkEach_cons_eq_ok.mpr ⟨_, hadd, hrest⟩⟩
    | notice =>
      have hadd : addContent serde b acc f = .ok acc := by simp only [addContent, hkind]
      have htexts : ruleTexts (f :: files) = ruleTexts files := by simp [ruleTexts, hkind]
      obtain ⟨detectors, hrest⟩ := ih acc hall
      rw [htexts]
      exact ⟨detectors, checkEach_cons_eq_ok.mpr ⟨_, hadd, hrest⟩⟩
    | yaraRules =>
      rw [hkind] at hf
      obtain ⟨text, htext⟩ := hf
      -- the namespace of a source is its number among the sources so far
      let src := sourceOf b.manifest.name ((f.path, text), acc.2.length)
      have hadd : addContent serde b acc f = .ok (acc.1, acc.2 ++ [src]) := by
        simp only [addContent, hkind, htext]
        rfl
      have htexts : ruleTexts (f :: files) = (f.path, text) :: ruleTexts files := by
        simp [ruleTexts, hkind, htext]
      obtain ⟨detectors, hrest⟩ := ih (acc.1, acc.2 ++ [src]) hall
      refine ⟨detectors, checkEach_cons_eq_ok.mpr ⟨_, hadd, ?_⟩⟩
      rw [hrest, htexts, sourcesFrom, sourcesFrom, List.zipIdx_cons, List.map_cons, List.length_append,
        List.length_singleton, List.append_assoc]
      rfl

theorem bundleDetectors_iff (h : ∀ f ∈ b.files, f.Usable serde) :
    (∃ detectors, bundleDetectors serde compiler sha256 b = .ok detectors) ↔
      sourcesFrom b.manifest.name 0 (ruleTexts b.files) = [] ∨
        ∃ det, Yara.compile compiler sha256 (sourcesFrom b.manifest.name 0 (ruleTexts b.files))
          (some (",".intercalate (b.signers.map KeyId.toString))) = .ok det := by
  obtain ⟨detectors, hadded⟩ := addContents_ok (b := b) ([], []) h
  rw [List.nil_append] at hadded
  have hdef : bundleDetectors serde compiler sha256 b =
      if sourcesFrom b.manifest.name 0 (ruleTexts b.files) = [] then .ok detectors
      else
        (Yara.compile compiler sha256 (sourcesFrom b.manifest.name 0 (ruleTexts b.files))
          (some (",".intercalate (b.signers.map KeyId.toString)))).mapError .rules >>= fun det =>
            .ok (detectors ++ [.yara det]) := by
    rw [bundleDetectors, hadded]
    rfl
  rw [hdef]
  -- without rule sources nothing is compiled
  split
  · rename_i hnil
    exact ⟨fun _ => Or.inl hnil, fun _ => ⟨detectors, rfl⟩⟩
  · rename_i hne
    simp only [except_bind_eq_ok, mapError_eq_ok, Except.ok.injEq]
    constructor
    · rintro ⟨_, det, hdet, -⟩
      exact Or.inr ⟨det, hdet⟩
    · rintro (hnil | ⟨det, hdet⟩)
      · exact absurd hnil hne
      · exact ⟨_, det, hdet, rfl⟩

theorem sourcesFrom_nodup : ((sourcesFrom name n texts).map RuleSource.nspace).Nodup := by
  have hnumbers : ((texts.zipIdx n).map Prod.snd).Nodup := by
    rw [List.zipIdx_map_snd]
    exact List.nodup_range'
  rw [sourcesFrom, List.map_map, List.Nodup, List.pairwise_map]
  refine (List.pairwise_map.mp hnumbers).imp fun {a a'} hne heq => hne ?_
  exact namespaceFor_ne heq

theorem sourcesFrom_valid (h : n + texts.length ≤ 10 ^ 15) :
    ∀ src ∈ sourcesFrom name n texts, Yara.validNamespace src.nspace = true := by
  intro src hsrc
  obtain ⟨⟨text, i⟩, hmem, rfl⟩ := List.mem_map.mp hsrc
  have hi : i < n + texts.length := List.snd_lt_add_of_mem_zipIdx hmem
  exact namespaceFor_valid (hi.trans_le h)

theorem sourcesFrom_map {α : Type} (f : String → α) :
    (sourcesFrom name n texts).map (fun src => f src.text) = texts.map fun t => f t.2 := by
  have htexts : ((texts.zipIdx n).map Prod.fst).map (fun t => f t.2) = texts.map fun t => f t.2 := by
    rw [List.zipIdx_map_fst]
  rw [← htexts, sourcesFrom, List.map_map, List.map_map]
  rfl

/-- Sources that compile alone give the bundle its rules, unless there is too much of them. -/
theorem detectors_iff (hc : compiler.Separates) (husable : ∀ f ∈ b.files, f.Usable serde)
    (hcount : (ruleTexts b.files).length ≤ 10 ^ 15)
    (halone : ∀ t ∈ ruleTexts b.files, ∃ det, Yara.compile compiler sha256 [⟨"check", t.1, t.2⟩] none = .ok det) :
    (∃ detectors, bundleDetectors serde compiler sha256 b = .ok detectors) ↔
      ((ruleTexts b.files).map fun t => t.2.utf8ByteSize).sum ≤ Yara.maxSourceBytes ∧
        ((ruleTexts b.files).map fun t => (compiler.rulesIn "check" t.2).length).sum ≤ Yara.maxRules := by
  rw [bundleDetectors_iff husable]
  by_cases hnil : ruleTexts b.files = []
  · rw [hnil]
    exact ⟨fun _ => ⟨Nat.zero_le _, Nat.zero_le _⟩, fun _ => Or.inl rfl⟩
  · have hne : sourcesFrom b.manifest.name 0 (ruleTexts b.files) ≠ [] := by
      intro heq
      have hlength := congrArg List.length heq
      rw [sourcesFrom, List.length_map, List.length_zipIdx, List.length_nil] at hlength
      exact hnil (List.eq_nil_of_length_eq_zero hlength)
    have hvalid : ∀ src ∈ sourcesFrom b.manifest.name 0 (ruleTexts b.files), Yara.validNamespace src.nspace = true :=
      sourcesFrom_valid (by omega)
    -- which name a rule has been checked under makes no difference
    have heach : ∀ src ∈ sourcesFrom b.manifest.name 0 (ruleTexts b.files),
        ∃ origin det, Yara.compile compiler sha256 [⟨"check", origin, src.text⟩] none = .ok det := by
      intro src hsrc
      obtain ⟨⟨text, i⟩, hmem, rfl⟩ := List.mem_map.mp hsrc
      obtain ⟨det, hdet⟩ := halone text (List.fst_mem_of_mem_zipIdx hmem)
      exact ⟨text.1, det, hdet⟩
    rw [or_iff_right hne, Yara.compile_together_iff hc (by decide) hne sourcesFrom_nodup hvalid heach,
      sourcesFrom_map String.utf8ByteSize, sourcesFrom_map fun text => (compiler.rulesIn "check" text).length]

end AbyssalWarden

import AbyssalWarden.Checked
import AbyssalWarden.Collect
import AbyssalWarden.Finding
import AbyssalWarden.Manifest

/-! The exact SHA-256 signature database: it is parsed within bounds, fully validated, and indexed by hash. -/
namespace AbyssalWarden.Signatures

def formatId : String := "abyssal-warden.hash-signatures"
def formatVersion : ℕ := 1

/-- Largest database file accepted, in bytes. -/
def maxDatabaseBytes : ℕ := 256 * 1024 * 1024

/-- Largest number of signatures accepted in one database. -/
def maxSignatures : ℕ := 2000000

def maxIdLen : ℕ := 128
def maxNameLen : ℕ := 256
def maxVersionLen : ℕ := 64
def maxTextLen : ℕ := 4096

inductive SignatureDbError where
  | tooLarge (limit : ℕ)
  | json (error : String)
  | wrongFormat (found : String)
  | unsupportedVersion (found : ℕ)
  | tooManySignatures
  | invalidField (location field reason : String)
  | duplicateId (id : String)
  | duplicateHash (sha256 : Sha256Digest) (first second : String)
  deriving DecidableEq

structure DatabaseMeta where
  name : String
  version : String
  description : Option String
  license : Option String

/-- One exact-hash signature. -/
structure HashSignature where
  id : String
  name : String
  sha256 : Sha256Digest
  category : ThreatCategory
  severity : Severity
  ruleVersion : UInt32
  description : Option String
  remediation : Option String

structure Header where
  format : String
  formatVersion : ℕ

structure RawDatabase where
  database : DatabaseMeta
  signatures : List HashSignature

/-- How a text is parsed: its header, whatever else it has, and the whole, with no field that is not known. -/
structure DatabaseSerde where
  header : Bytes → Except String Header
  database : Bytes → Except String RawDatabase

/-- A validated database; its index gives the place of the signature with a hash. -/
structure HashSignatureDatabase where
  info : DatabaseMeta
  signatures : List HashSignature
  byHash : List (Sha256Digest × Fin signatures.length)

def HashSignatureDatabase.lookup (db : HashSignatureDatabase) (sha256 : Sha256Digest) : Option HashSignature :=
  (db.byHash.lookup sha256).map fun i => db.signatures[i]

/-! ### Field rules -/

def invalid (location field reason : String) : SignatureDbError := .invalidField location field reason

/-- `u8::is_ascii_alphanumeric`, or one of the four other bytes of an id. -/
def isIdByte (b : UInt8) : Bool :=
  (0x30 ≤ b && b ≤ 0x39) || (0x41 ≤ b && b ≤ 0x5A) || (0x61 ≤ b && b ≤ 0x7A) ||
    b = 0x2E || b = 0x5F || b = 0x2D || b = 0x3A

def checkId (location id : String) : Except SignatureDbError Unit := do
  refuseIf (id.utf8ByteSize = 0 ∨ id.utf8ByteSize > maxIdLen) (invalid location "id" "must be 1 to 128 characters")
  refuseIf ((utf8Bytes id).all isIdByte = false)
    (invalid location "id" "may contain only ASCII letters, digits, '.', '_', '-' and ':'")

def checkText (location field value : String) (maxLen : ℕ) (allowNewlines required : Bool) :
    Except SignatureDbError Unit := do
  refuseIf (required = true ∧ trim value.toList = []) (invalid location field "must not be empty")
  refuseIf (value.utf8ByteSize > maxLen) (invalid location field ("must be at most " ++ toString maxLen ++ " bytes"))
  refuseIf (hasUnsafeChars value allowNewlines = true)
    (invalid location field "contains control or bidirectional formatting characters")

/-- `if let Some(value) = &field { check_text(..)? }` -/
def checkOptional (location field : String) (value : Option String) (maxLen : ℕ) (allowNewlines required : Bool) :
    Except SignatureDbError Unit :=
  match value with
  | none => .ok ()
  | some value => checkText location field value maxLen allowNewlines required

def truncate (s : String) (maxChars : ℕ) : String := String.ofList (s.toList.take maxChars)

/-! ### Validation -/

/-- What the loop has seen: the ids, and the place of each hash. -/
structure Seen (signatures : List HashSignature) where
  ids : List String
  byHash : List (Sha256Digest × Fin signatures.length)

/-- One turn of the loop over the signatures. -/
def insertSignature (signatures : List HashSignature) (seen : Seen signatures) (i : Fin signatures.length) :
    Except SignatureDbError (Seen signatures) := do
  let sig := signatures[i]
  let loc := "signatures[" ++ toString i.val ++ "]"
  checkId loc sig.id
  checkText loc "name" sig.name maxNameLen false true
  checkOptional loc "description" sig.description maxTextLen true false
  checkOptional loc "remediation" sig.remediation maxTextLen true false
  refuseIf (sig.ruleVersion = 0) (invalid loc "rule_version" "must be at least 1")
  refuseIf (sig.id ∈ seen.ids) (.duplicateId sig.id)
  refuseSome (seen.byHash.lookup sig.sha256) fun prev => .duplicateHash sig.sha256 signatures[prev].id sig.id
  .ok ⟨sig.id :: seen.ids, (sig.sha256, i) :: seen.byHash⟩

def validate (info : DatabaseMeta) (signatures : List HashSignature) :
    Except SignatureDbError HashSignatureDatabase := do
  refuseIf (signatures.length > maxSignatures) .tooManySignatures
  checkText "database" "name" info.name maxNameLen false true
  checkText "database" "version" info.version maxVersionLen false true
  checkOptional "database" "description" info.description maxTextLen true false
  checkOptional "database" "license" info.license maxNameLen false true
  let seen ← checkEach (insertSignature signatures) ⟨[], []⟩ (List.finRange signatures.length)
  .ok ⟨info, signatures, seen.byHash⟩

/-- `from_slice`: the format and its version are checked before the rest is parsed. -/
def fromSlice (serde : DatabaseSerde) (data : Bytes) : Except SignatureDbError HashSignatureDatabase := do
  refuseIf (data.length > maxDatabaseBytes) (.tooLarge maxDatabaseBytes)
  let header ← (serde.header data).mapError .json
  refuseIf (header.format ≠ formatId) (.wrongFormat (truncate header.format 64))
  refuseIf (header.formatVersion ≠ formatVersion) (.unsupportedVersion header.formatVersion)
  let raw ← (serde.database data).mapError .json
  validate raw.database raw.signatures

/-! ### What the rules say -/

structure IdRules (id : String) : Prop where
  nonempty : 0 < id.utf8ByteSize
  bounded : id.utf8ByteSize ≤ maxIdLen
  plain : ∀ b ∈ utf8Bytes id, isIdByte b = true

/-- A text is bounded and shows what it says; a line break or a tab is allowed in a longer text. -/
structure TextRules (maxLen : ℕ) (allowNewlines required : Bool) (value : String) : Prop where
  shown : required = true → ∃ c ∈ value.toList, isWhitespace c = false
  bounded : value.utf8ByteSize ≤ maxLen
  safe : ∀ c ∈ value.toList, isBidiControl c = false ∧
    (isControl c = true → allowNewlines = true ∧ (c = '\n' ∨ c = '\t'))

structure DatabaseMeta.Valid (info : DatabaseMeta) : Prop where
  name : TextRules maxNameLen false true info.name
  version : TextRules maxVersionLen false true info.version
  description : ∀ d ∈ info.description, TextRules maxTextLen true false d
  license : ∀ l ∈ info.license, TextRules maxNameLen false true l

structure HashSignature.Valid (sig : HashSignature) : Prop where
  id : IdRules sig.id
  name : TextRules maxNameLen false true sig.name
  description : ∀ d ∈ sig.description, TextRules maxTextLen true false d
  remediation : ∀ r ∈ sig.remediation, TextRules maxTextLen true false r
  ruleVersion : sig.ruleVersion ≠ 0

variable {location field value id : String} {maxLen : ℕ} {allowNewlines required : Bool} {u : Unit}

theorem checkId_eq_ok : checkId location id = .ok u ↔ IdRules id := by
  simp only [checkId, except_bind_eq_ok, refuseIf_eq_ok, not_or, Bool.not_eq_false, List.all_eq_true,
    exists_const]
  constructor
  · rintro ⟨⟨hne, hle⟩, hall⟩
    exact ⟨by omega, by omega, hall⟩
  · rintro ⟨hpos, hle, hall⟩
    exact ⟨⟨by omega, by omega⟩, hall⟩

theorem trim_eq_nil {s : List Char} : trim s = [] ↔ ∀ c ∈ s, isWhitespace c = true := by
  rw [trim, List.reverse_eq_nil_iff, List.dropWhile_eq_nil_iff]
  constructor
  · intro h c hc
    by_contra hblank
    -- the first character that is no blank is kept, and so is what it ends
    have hne : s.dropWhile isWhitespace ≠ [] := by
      intro hnil
      exact hblank (List.dropWhile_eq_nil_iff.mp hnil c hc)
    have hhead := List.head_dropWhile_not isWhitespace hne
    have hmem : (s.dropWhile isWhitespace).head hne ∈ (s.dropWhile isWhitespace).reverse :=
      List.mem_reverse.mpr (List.head_mem hne)
    rw [h _ hmem] at hhead
    cases hhead
  · intro h c hc
    exact h c ((List.dropWhile_suffix _).subset (List.mem_reverse.mp hc))

theorem hasUnsafeChars_eq_false : hasUnsafeChars value allowNewlines = false ↔
    ∀ c ∈ value.toList, isBidiControl c = false ∧
      (isControl c = true → allowNewlines = true ∧ (c = '\n' ∨ c = '\t')) := by
  rw [hasUnsafeChars, List.any_eq_false]
  apply forall₂_congr
  intro c hc
  cases hcontrol : isControl c
  · simp
  · simp only [Bool.true_and, Bool.or_eq_true, Bool.not_eq_true', Bool.and_eq_false_iff]
    simp
    tauto

theorem checkText_eq_ok :
    checkText location field value maxLen allowNewlines required = .ok u ↔
      TextRules maxLen allowNewlines required value := by
  have hshown : ¬ (required = true ∧ trim value.toList = []) ↔
      (required = true → ∃ c ∈ value.toList, isWhitespace c = false) := by
    rw [not_and, trim_eq_nil]
    simp only [not_forall, Bool.not_eq_true, exists_prop]
  simp only [checkText, except_bind_eq_ok, refuseIf_eq_ok, exists_const, hshown, Bool.not_eq_true,
    hasUnsafeChars_eq_false, not_lt, gt_iff_lt]
  constructor
  · rintro ⟨hshown, hle, hsafe⟩
    exact ⟨hshown, hle, hsafe⟩
  · rintro ⟨hshown, hle, hsafe⟩
    exact ⟨hshown, hle, hsafe⟩

theorem checkOptional_eq_ok {value : Option String} :
    checkOptional location field value maxLen allowNewlines required = .ok u ↔
      ∀ v ∈ value, TextRules maxLen allowNewlines required v := by
  cases value with
  | none => simp [checkOptional]
  | some v => simp [checkOptional, checkText_eq_ok]

/-- A check of a text that fails names the text. -/
theorem checkText_error {e : SignatureDbError}
    (h : checkText location field value maxLen allowNewlines required = .error e) :
    ∃ reason, e = .invalidField location field reason := by
  simp only [checkText, refuseIf] at h
  split at h
  · exact ⟨_, (Except.error.inj h).symm⟩
  · rw [except_ok_bind] at h
    split at h
    · exact ⟨_, (Except.error.inj h).symm⟩
    · rw [except_ok_bind] at h
      split at h
      · exact ⟨_, (Except.error.inj h).symm⟩
      · cases h

/-! ### The loop -/

section

variable {signatures : List HashSignature} {done is : List (Fin signatures.length)} {i : Fin signatures.length}
  {seen : Seen signatures}

/-- What has been seen after some signatures. -/
def seenOf (done : List (Fin signatures.length)) : Seen signatures where
  ids := (done.map fun i => signatures[i].id).reverse
  byHash := (done.map fun i => (signatures[i].sha256, i)).reverse

theorem seenOf_concat : seenOf (done ++ [i]) =
    ⟨signatures[i].id :: (seenOf done).ids, (signatures[i].sha256, i) :: (seenOf done).byHash⟩ := by
  simp only [seenOf, List.map_append, List.map_singleton, List.reverse_append, List.reverse_singleton,
    List.singleton_append]

theorem mem_seenOf_ids : id ∈ (seenOf done).ids ↔ id ∈ done.map fun i => signatures[i].id := List.mem_reverse

theorem seenOf_lookup_eq_none {sha256 : Sha256Digest} :
    (seenOf done).byHash.lookup sha256 = none ↔ sha256 ∉ done.map fun i => signatures[i].sha256 := by
  rw [List.lookup_eq_none_iff]
  simp only [seenOf, List.mem_reverse, List.mem_map, bne_iff_ne]
  constructor
  · rintro h ⟨i, hi, rfl⟩
    exact h _ ⟨i, hi, rfl⟩ rfl
  · rintro h _ ⟨i, hi, rfl⟩ heq
    exact h ⟨i, hi, heq.symm⟩

/-- One turn accepts a signature that keeps the rules and repeats neither an id nor a hash. -/
theorem insertSignature_eq_ok : insertSignature signatures (seenOf done) i = .ok seen ↔
    signatures[i].Valid ∧ signatures[i].id ∉ done.map (fun i => signatures[i].id) ∧
      signatures[i].sha256 ∉ done.map (fun i => signatures[i].sha256) ∧ seen = seenOf (done ++ [i]) := by
  simp only [insertSignature, except_bind_eq_ok, refuseIf_eq_ok, refuseSome_eq_ok, checkId_eq_ok, checkText_eq_ok,
    checkOptional_eq_ok, exists_const, mem_seenOf_ids, seenOf_lookup_eq_none, ← seenOf_concat, Except.ok.injEq]
  constructor
  · rintro ⟨hid, hname, hdescription, hremediation, hversion, hnew, hhash, rfl⟩
    exact ⟨⟨hid, hname, hdescription, hremediation, hversion⟩, hnew, hhash, rfl⟩
  · rintro ⟨⟨hid, hname, hdescription, hremediation, hversion⟩, hnew, hhash, rfl⟩
    exact ⟨hid, hname, hdescription, hremediation, hversion, hnew, hhash, rfl⟩

/-- The signatures at some places repeat neither an id nor a hash. -/
def Distinct (is : List (Fin signatures.length)) : Prop :=
  (is.map fun i => signatures[i].id).Nodup ∧ (is.map fun i => signatures[i].sha256).Nodup

theorem distinct_concat : Distinct (done ++ [i]) ↔ Distinct done ∧
    signatures[i].id ∉ done.map (fun i => signatures[i].id) ∧
      signatures[i].sha256 ∉ done.map (fun i => signatures[i].sha256) := by
  have hids := List.nodup_concat (done.map fun i => signatures[i].id) signatures[i].id
  have hhashes := List.nodup_concat (done.map fun i => signatures[i].sha256) signatures[i].sha256
  rw [List.concat_eq_append] at hids hhashes
  rw [Distinct, List.map_append, List.map_append, List.map_singleton, List.map_singleton, hids, hhashes, Distinct]
  constructor
  · rintro ⟨⟨hnew, hids⟩, hhash, hhashes⟩
    exact ⟨⟨hids, hhashes⟩, hnew, hhash⟩
  · rintro ⟨⟨hids, hhashes⟩, hnew, hhash⟩
    exact ⟨⟨hnew, hids⟩, hhash, hhashes⟩

theorem Distinct.of_append (h : Distinct (done ++ is)) : Distinct done := by
  obtain ⟨hids, hhashes⟩ := h
  rw [List.map_append] at hids hhashes
  exact ⟨hids.of_append_left, hhashes.of_append_left⟩

/-- From what has been seen, the loop accepts the rest exactly when each keeps the rules and nothing repeats. -/
theorem checkSignatures_eq_ok (hdone : Distinct done) :
    checkEach (insertSignature signatures) (seenOf done) is = .ok seen ↔
      (∀ i ∈ is, signatures[i].Valid) ∧ Distinct (done ++ is) ∧ seen = seenOf (done ++ is) := by
  induction is generalizing done with
  | nil =>
    rw [List.append_nil, checkEach, Except.ok.injEq]
    constructor
    · rintro rfl
      exact ⟨by simp, hdone, rfl⟩
    · rintro ⟨-, -, rfl⟩
      rfl
  | cons i is ih =>
    -- what has been seen grows by the next entry
    have happend : done ++ i :: is = (done ++ [i]) ++ is := by
      rw [List.append_assoc, List.singleton_append]
    rw [checkEach_cons_eq_ok, happend]
    constructor
    · rintro ⟨next, hinsert, hrest⟩
      obtain ⟨hvalid, hnew, hhash, rfl⟩ := insertSignature_eq_ok.mp hinsert
      obtain ⟨hall, hdistinct, hseen⟩ := (ih (distinct_concat.mpr ⟨hdone, hnew, hhash⟩)).mp hrest
      exact ⟨List.forall_mem_cons.mpr ⟨hvalid, hall⟩, hdistinct, hseen⟩
    · rintro ⟨hvalid, hdistinct, hseen⟩
      obtain ⟨hfirst, hall⟩ := List.forall_mem_cons.mp hvalid
      have hnext := hdistinct.of_append
      obtain ⟨-, hnew, hhash⟩ := distinct_concat.mp hnext
      exact ⟨seenOf (done ++ [i]), insertSignature_eq_ok.mpr ⟨hfirst, hnew, hhash, rfl⟩,
        (ih hnext).mpr ⟨hall, hdistinct, hseen⟩⟩

/-- All places of a list, read through what stands there. -/
theorem map_finRange {α β : Type} (as : List α) (f : α → β) : ((List.finRange as.length).map fun i => f as[i]) = as.map f := by
  have hplaces : (List.finRange as.length).map (fun i => as[i.val]) = as := List.map_getElem_finRange as
  calc ((List.finRange as.length).map fun i => f as[i])
      = ((List.finRange as.length).map fun i => as[i.val]).map f := by rw [List.map_map]; rfl
    _ = as.map f := by rw [hplaces]

end

/-! ### The database -/

variable {info : DatabaseMeta} {signatures : List HashSignature} {db : HashSignatureDatabase} {sig : HashSignature}
  {sha256 : Sha256Digest} {serde : DatabaseSerde} {data : Bytes}

/-- A database with every signature in its index. -/
def indexed (info : DatabaseMeta) (signatures : List HashSignature) : HashSignatureDatabase :=
  ⟨info, signatures, (seenOf (List.finRange signatures.length)).byHash⟩

theorem validate_eq_ok : validate info signatures = .ok db ↔
    signatures.length ≤ maxSignatures ∧ info.Valid ∧ (∀ sig ∈ signatures, sig.Valid) ∧
      (signatures.map (·.id)).Nodup ∧ (signatures.map (·.sha256)).Nodup ∧ db = indexed info signatures := by
  -- the entries are taken by their numbers, which the index stores
  have hloop : ∀ seen, checkEach (insertSignature signatures) ⟨[], []⟩ (List.finRange signatures.length) = .ok seen ↔
      (∀ i ∈ List.finRange signatures.length, signatures[i].Valid) ∧ Distinct (List.finRange signatures.length) ∧
        seen = seenOf (List.finRange signatures.length) := by
    intro seen
    have hnone : Distinct ([] : List (Fin signatures.length)) := ⟨List.nodup_nil, List.nodup_nil⟩
    exact checkSignatures_eq_ok hnone
  have hvalid : (∀ i ∈ List.finRange signatures.length, signatures[i].Valid) ↔ ∀ sig ∈ signatures, sig.Valid := by
    constructor
    · intro h sig hsig
      obtain ⟨n, hn, rfl⟩ := List.mem_iff_getElem.mp hsig
      exact h ⟨n, hn⟩ (List.mem_finRange _)
    · intro h i _
      exact h _ (List.getElem_mem _)
  have hdistinct : Distinct (List.finRange signatures.length) ↔
      (signatures.map (·.id)).Nodup ∧ (signatures.map (·.sha256)).Nodup := by
    rw [Distinct, map_finRange signatures (·.id), map_finRange signatures (·.sha256)]
  simp only [validate, except_bind_eq_ok, refuseIf_eq_ok, checkText_eq_ok, checkOptional_eq_ok, exists_const, hloop,
    hvalid, hdistinct, not_lt, gt_iff_lt]
  constructor
  · rintro ⟨hcount, hname, hversion, hdescription, hlicense, seen, ⟨hall, ⟨hids, hhashes⟩, rfl⟩, hdb⟩
    exact ⟨hcount, ⟨hname, hversion, hdescription, hlicense⟩, hall, hids, hhashes, (Except.ok.inj hdb).symm⟩
  · rintro ⟨hcount, ⟨hname, hversion, hdescription, hlicense⟩, hall, hids, hhashes, rfl⟩
    exact ⟨hcount, hname, hversion, hdescription, hlicense, _, ⟨hall, ⟨hids, hhashes⟩, rfl⟩, rfl⟩

/-- A full index leads to the signature with a hash, and to nothing where there is none. -/
theorem lookup_indexed (hhashes : (signatures.map (·.sha256)).Nodup) :
    (indexed info signatures).lookup sha256 = some sig ↔ sig ∈ signatures ∧ sig.sha256 = sha256 := by
  have hkeys : ((indexed info signatures).byHash.map Prod.fst).Nodup := by
    -- the index has the hash of each signature once, the last first
    have hfst : (indexed info signatures).byHash.map Prod.fst = (signatures.map (·.sha256)).reverse := by
      calc (indexed info signatures).byHash.map Prod.fst
          = (((List.finRange signatures.length).map fun i => (signatures[i].sha256, i)).map Prod.fst).reverse :=
            List.map_reverse
        _ = ((List.finRange signatures.length).map fun i => signatures[i].sha256).reverse := by
            rw [List.map_map]
            rfl
        _ = (signatures.map (·.sha256)).reverse := by rw [map_finRange signatures (·.sha256)]
    rw [hfst]
    exact List.nodup_reverse.mpr hhashes
  have hindex : ∀ i : Fin signatures.length, (indexed info signatures).byHash.lookup sha256 = some i ↔
      signatures[i].sha256 = sha256 := by
    intro i
    -- an entry of the index points at a signature with its hash
    have hmem : (sha256, i) ∈ ((List.finRange signatures.length).map fun i => (signatures[i].sha256, i)).reverse ↔
        signatures[i].sha256 = sha256 := by
      simp only [List.mem_reverse, List.mem_map, Prod.mk.injEq]
      constructor
      · rintro ⟨j, -, hhash, rfl⟩
        exact hhash
      · intro hhash
        exact ⟨i, List.mem_finRange i, hhash, rfl⟩
    exact (lookup_eq_some_iff_mem hkeys).trans hmem
  rw [HashSignatureDatabase.lookup, Option.map_eq_some_iff]
  constructor
  · rintro ⟨i, hlookup, rfl⟩
    exact ⟨List.getElem_mem _, (hindex i).mp hlookup⟩
  · rintro ⟨hsig, hhash⟩
    obtain ⟨n, hn, rfl⟩ := List.mem_iff_getElem.mp hsig
    exact ⟨⟨n, hn⟩, (hindex ⟨n, hn⟩).mpr hhash, rfl⟩

/-- A text that says a database, within the limits, by the rules and with nothing in it twice. -/
structure Acceptable (serde : DatabaseSerde) (data : Bytes) (raw : RawDatabase) : Prop where
  bounded : data.length ≤ maxDatabaseBytes
  header : ∃ header, serde.header data = .ok header ∧ header.format = formatId ∧ header.formatVersion = formatVersion
  parsed : serde.database data = .ok raw
  count : raw.signatures.length ≤ maxSignatures
  info : raw.database.Valid
  signatures : ∀ sig ∈ raw.signatures, sig.Valid
  ids : (raw.signatures.map (·.id)).Nodup
  hashes : (raw.signatures.map (·.sha256)).Nodup

theorem fromSlice_eq_ok : fromSlice serde data = .ok db ↔
    ∃ raw, Acceptable serde data raw ∧ db = indexed raw.database raw.signatures := by
  simp only [fromSlice, except_bind_eq_ok, refuseIf_eq_ok, mapError_eq_ok, exists_const, validate_eq_ok, not_lt,
    gt_iff_lt, not_not, ne_eq]
  constructor
  · rintro ⟨hbounded, header, hheader, hformat, hversion, raw, hparsed, hcount, hinfo, hall, hids, hhashes, rfl⟩
    exact ⟨raw, ⟨hbounded, ⟨header, hheader, hformat, hversion⟩, hparsed, hcount, hinfo, hall, hids, hhashes⟩, rfl⟩
  · rintro ⟨raw, ⟨hbounded, ⟨header, hheader, hformat, hversion⟩, hparsed, hcount, hinfo, hall, hids, hhashes⟩, rfl⟩
    exact ⟨hbounded, header, hheader, hformat, hversion, raw, hparsed, hcount, hinfo, hall, hids, hhashes, rfl⟩

/-- A text that is accepted gives a database without repeats, in which a hash leads to its signature and to nothing
else; a text with a repeat, or with an entry that breaks a rule, gives none; and every other text gives one. -/
theorem hash_database_exact (serde : DatabaseSerde) (data : Bytes) :
    (∀ db, fromSlice serde data = .ok db → ∃ raw, Acceptable serde data raw ∧ db.info = raw.database ∧
      db.signatures = raw.signatures ∧ (db.signatures.map (·.id)).Nodup ∧ (db.signatures.map (·.sha256)).Nodup ∧
      ∀ sha256 sig, db.lookup sha256 = some sig ↔ sig ∈ db.signatures ∧ sig.sha256 = sha256) ∧
    (∀ raw, serde.database data = .ok raw →
      (¬ (raw.signatures.map (·.id)).Nodup ∨ ¬ (raw.signatures.map (·.sha256)).Nodup ∨
        (∃ sig ∈ raw.signatures, ¬ sig.Valid) ∨ ¬ raw.database.Valid) → ∃ e, fromSlice serde data = .error e) ∧
    ∀ raw, Acceptable serde data raw → ∃ db, fromSlice serde data = .ok db := by
  refine ⟨?_, ?_, ?_⟩
  · intro db hdb
    obtain ⟨raw, h, rfl⟩ := fromSlice_eq_ok.mp hdb
    exact ⟨raw, h, rfl, rfl, h.ids, h.hashes, fun sha256 sig => lookup_indexed h.hashes⟩
  · intro raw hraw hbad
    cases hresult : fromSlice serde data with
    | error e => exact ⟨e, rfl⟩
    | ok db =>
      obtain ⟨raw', h, -⟩ := fromSlice_eq_ok.mp hresult
      -- a text has one reading
      have hsame : raw' = raw := Except.ok.inj (h.parsed.symm.trans hraw)
      subst hsame
      rcases hbad with hids | hhashes | ⟨sig, hsig, hinvalid⟩ | hinfo
      · exact absurd h.ids hids
      · exact absurd h.hashes hhashes
      · exact absurd (h.signatures sig hsig) hinvalid
      · exact absurd h.info hinfo
  · intro raw h
    exact ⟨_, fromSlice_eq_ok.mpr ⟨raw, h, rfl⟩⟩

end AbyssalWarden.Signatures

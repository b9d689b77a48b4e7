import AbyssalWarden.AllowlistConsistency
import AbyssalWarden.HashDatabase
import AbyssalWarden.JsonStrings

/-! Third-party hash lists turned into signature databases: which lists load, and what is found in them. -/
namespace AbyssalWarden.Signatures

/-- A map from SHA-256 values to their groups, in the order of the values; a group may be empty. -/
structure HashGroups where
  entries : List (String × String)
  sorted : (entries.map Prod.fst).Pairwise (· < ·)

structure HashImport where
  dbName : String
  dbVersion : String
  detectionName : String
  idPrefix : String
  category : String
  severity : String
  license : String
  description : Option String

/-- `str::trim_matches` -/
def trimMatches (p : Char → Bool) (s : List Char) : List Char := ((s.dropWhile p).reverse.dropWhile p).reverse

/-- A text reduced to letters, digits, dots and hyphens, at most 48 of them. -/
def idPart (text : String) : String :=
  let kept := (text.toList.map fun c => if c.isAlphanum || c = '.' then c else '-').take 48
  String.ofList (trimMatches (fun c => c = '-' || c = '.') kept)

/-- The first 16 digits of a hash. -/
def shortHash (hash : String) : String := String.ofList (hash.toList.take 16)

/-- The signature's id and the detection's name for a hash in a group. -/
def idAndName (hash group : String) (m : HashImport) : String × String :=
  let group := idPart group
  if group = "" then (m.idPrefix ++ "-" ++ shortHash hash, m.detectionName)
  else (m.idPrefix ++ "-" ++ group ++ "-" ++ shortHash hash, m.detectionName ++ "." ++ group)

/-! ### The document -/

/-- A signature as it is written. -/
structure SignatureValue where
  id : String
  name : String
  sha256 : String
  category : String
  severity : String
  ruleVersion : ℕ
  deriving DecidableEq

structure DatabaseValue where
  name : String
  version : String
  license : String
  description : Option String
  deriving DecidableEq

structure ImportDocument where
  format : String
  formatVersion : ℕ
  database : DatabaseValue
  signatures : List SignatureValue
  deriving DecidableEq

/-- `hex_value` -/
def hexValue (c : UInt8) : Option UInt8 :=
  if 0x30 ≤ c ∧ c ≤ 0x39 then some (c - 0x30)
  else if 0x61 ≤ c ∧ c ≤ 0x66 then some (c - 0x61 + 10)
  else if 0x41 ≤ c ∧ c ≤ 0x46 then some (c - 0x41 + 10)
  else none

def hexPairs : Bytes → Option Bytes
  | h :: l :: rest => do
    let hi ← hexValue h
    let lo ← hexValue l
    some ((hi <<< 4 ||| lo) :: (← hexPairs rest))
  | _ => some []

/-- `Sha256Digest::from_str`: exactly 64 digits, of either case. -/
def digestFromStr (s : String) : Option Sha256Digest :=
  if (utf8Bytes s).length ≠ 64 then none
  else (hexPairs (utf8Bytes s)).bind fun out => if h : out.length = 32 then some ⟨out, h⟩ else none

def categoryFromName : String → Option ThreatCategory
  | "malware" => some .malware
  | "potentially_unwanted" => some .potentiallyUnwanted
  | "test_indicator" => some .testIndicator
  | "unknown" => some .unknown
  | _ => none

def severityFromName : String → Option Severity
  | "info" => some .info
  | "low" => some .low
  | "medium" => some .medium
  | "high" => some .high
  | "critical" => some .critical
  | _ => none

def u32FromNumber (n : ℕ) : Option UInt32 := if n < 2 ^ 32 then some (UInt32.ofNat n) else none

def SignatureValue.read (v : SignatureValue) : Option HashSignature := do
  let sha256 ← digestFromStr v.sha256
  let category ← categoryFromName v.category
  let severity ← severityFromName v.severity
  let ruleVersion ← u32FromNumber v.ruleVersion
  some ⟨v.id, v.name, sha256, category, severity, ruleVersion, none, none⟩

/-- What a document says, when it says a database. -/
def ImportDocument.read (doc : ImportDocument) : Option RawDatabase := do
  let signatures ← doc.signatures.mapM SignatureValue.read
  some ⟨⟨doc.database.name, doc.database.version, doc.database.description, some doc.database.license⟩, signatures⟩

/-- How documents are written, and the reader of databases, which reads what was written. -/
structure ImportCodec where
  toVecPretty : ImportDocument → Except String Bytes
  serde : DatabaseSerde
  written : ∀ doc, ∃ data, toVecPretty doc = .ok data
  header : ∀ doc data, toVecPretty doc = .ok data → serde.header data = .ok ⟨doc.format, doc.formatVersion⟩
  database : ∀ doc data raw, toVecPretty doc = .ok data → (serde.database data = .ok raw ↔ doc.read = some raw)

inductive ImportError where
  | write (error : String)
  | wouldNotLoad (error : SignatureDbError)

def signatureValue (m : HashImport) (entry : String × String) : SignatureValue where
  id := (idAndName entry.1 entry.2 m).1
  name := (idAndName entry.1 entry.2 m).2
  sha256 := entry.1
  category := m.category
  severity := m.severity
  ruleVersion := 1

def importDocument (hashes : HashGroups) (m : HashImport) : ImportDocument where
  format := "abyssal-warden.hash-signatures"
  formatVersion := 1
  database := ⟨m.dbName, m.dbVersion, m.license, m.description⟩
  signatures := hashes.entries.map (signatureValue m)

/-- A validated hash database. -/
def hashDatabase (codec : ImportCodec) (hashes : HashGroups) (m : HashImport) : Except ImportError Bytes := do
  let data ← (codec.toVecPretty (importDocument hashes m)).mapError .write
  let _ ← (fromSlice codec.serde data).mapError .wouldNotLoad
  .ok data

/-- One entry of a map, alone. -/
def HashGroups.single (entry : String × String) : HashGroups where
  entries := [entry]
  sorted := List.pairwise_singleton _ _

/-! ### Identifiers -/

section

variable {m : HashImport} {hash hash' group group' : String}

/-- What stands in an identifier before the digits of the hash. -/
def idStem (group : String) (m : HashImport) : List Char :=
  m.idPrefix.toList ++ '-' :: (if idPart group = "" then [] else (idPart group).toList ++ ['-'])

theorem id_toList : (idAndName hash group m).1.toList = idStem group m ++ hash.toList.take 16 := by
  rw [idAndName, idStem]
  split
  · simp [shortHash]
  · simp [shortHash]

theorem idStem_eq_iff : idStem group m = idStem group' m ↔ idPart group = idPart group' := by
  constructor
  · intro h
    have hrest := (List.cons.inj (List.append_cancel_left h)).2
    split at hrest
    · split at hrest
      case isTrue hnil hnil' => rw [hnil, hnil']
      case isFalse => exact absurd (congrArg List.length hrest) (by simp)
    · split at hrest
      case isTrue => exact absurd (congrArg List.length hrest) (by simp)
      case isFalse => exact String.ext (List.append_cancel_right hrest)
  · intro h
    rw [idStem, idStem, h]

/-- Identifiers of hashes are equal exactly when the groups reduce to the same part and the hashes start alike. -/
theorem id_eq_iff (hlength : 16 ≤ hash.toList.length) (hlength' : 16 ≤ hash'.toList.length) :
    (idAndName hash group m).1 = (idAndName hash' group' m).1 ↔
      idPart group = idPart group' ∧ shortHash hash = shortHash hash' := by
  rw [← String.toList_inj, id_toList, id_toList, ← idStem_eq_iff (m := m), shortHash, shortHash, String.ofList_inj]
  constructor
  · intro h
    exact List.append_inj' h (by simp; omega)
  · rintro ⟨hstem, hshort⟩
    rw [hstem, hshort]

end

/-! ### Digests -/

section

variable {digest : Sha256Digest} {bytes : Bytes} {n : ℕ}

theorem hexDigit_ascii (hn : n < 16) : (hexDigit false n).toNat < 0x80 ∧
    hexValue (UInt8.ofNat (hexDigit false n).toNat) = some (UInt8.ofNat n) := by
  have hall : ∀ i : Fin 16, (hexDigit false i.val).toNat < 0x80 ∧
      hexValue (UInt8.ofNat (hexDigit false i.val).toNat) = some (UInt8.ofNat i.val) := by decide
  exact hall ⟨n, hn⟩

/-- The two bytes of a written byte. -/
theorem hexByte_utf8 (b : UInt8) : (hexByte false b).flatMap String.utf8EncodeChar =
    [UInt8.ofNat (hexDigit false (b.toNat / 16)).toNat, UInt8.ofNat (hexDigit false (b.toNat % 16)).toNat] := by
  have hlt := b.toNat_lt
  have hhi := (hexDigit_ascii (n := b.toNat / 16) (by omega)).1
  have hlo := (hexDigit_ascii (n := b.toNat % 16) (by omega)).1
  simp only [hexByte, List.flatMap_cons, List.flatMap_nil, Json.utf8EncodeChar_ascii hhi,
    Json.utf8EncodeChar_ascii hlo, List.cons_append, List.nil_append]

theorem hexPairs_hexEncode (bytes : Bytes) :
    hexPairs ((hexEncode bytes).flatMap String.utf8EncodeChar) = some bytes := by
  induction bytes with
  | nil => rfl
  | cons b bytes ih =>
    have hlt := b.toNat_lt
    have hhi := (hexDigit_ascii (n := b.toNat / 16) (by omega)).2
    have hlo := (hexDigit_ascii (n := b.toNat % 16) (by omega)).2
    have hcons : hexEncode (b :: bytes) = hexByte false b ++ hexEncode bytes := rfl
    rw [hcons, List.flatMap_append, hexByte_utf8]
    simp only [List.cons_append, List.nil_append, hexPairs, hhi, hlo, ih, Option.bind_eq_bind, Option.bind_some]
    have hall : ∀ n : Fin 256, UInt8.ofNat (n.val / 16) <<< 4 ||| UInt8.ofNat (n.val % 16) = UInt8.ofNat n.val := by
      decide +kernel
    rw [hall ⟨b.toNat, hlt⟩, UInt8.ofNat_toNat]

theorem hexEncode_length (bytes : Bytes) : (hexEncode bytes).length = 2 * bytes.length := by
  induction bytes with
  | nil => rfl
  | cons b bytes ih =>
    have hcons : hexEncode (b :: bytes) = hexByte false b ++ hexEncode bytes := rfl
    rw [hcons, List.length_append, ih, List.length_cons]
    simp only [hexByte, List.length_cons, List.length_nil]
    omega

theorem hexEncode_utf8_length (bytes : Bytes) :
    ((hexEncode bytes).flatMap String.utf8EncodeChar).length = 2 * bytes.length := by
  induction bytes with
  | nil => rfl
  | cons b bytes ih =>
    have hcons : hexEncode (b :: bytes) = hexByte false b ++ hexEncode bytes := rfl
    rw [hcons, List.flatMap_append, hexByte_utf8, List.length_append, ih]
    simp only [List.length_cons, List.length_nil]
    omega

/-- A digest is read back from its lower-case text. -/
theorem digestFromStr_toHex : digestFromStr digest.toHex = some digest := by
  have hbytes : utf8Bytes digest.toHex = (hexEncode digest.bytes).flatMap String.utf8EncodeChar := by
    rw [Json.utf8Bytes_eq, Sha256Digest.toHex, String.toList_ofList]
  have hlength : (utf8Bytes digest.toHex).length = 64 := by
    rw [hbytes, hexEncode_utf8_length, digest.length_eq]
  rw [digestFromStr, if_neg (by rw [hlength]; decide), hbytes, hexPairs_hexEncode, Option.bind_some,
    dif_pos digest.length_eq]

theorem toHex_length (digest : Sha256Digest) : digest.toHex.toList.length = 64 := by
  rw [Sha256Digest.toHex, String.toList_ofList, hexEncode_length, digest.length_eq]

end

end AbyssalWarden.Signatures

import AbyssalWarden.AutomaticRemoval
import AbyssalWarden.JsonStrings

/-! Recorded paths identify files: a path as it is recorded, and the same after it was written as JSON and read back,
leads to the file that was observed, wherever a file is quarantined, restored or recovered. -/
namespace AbyssalWarden

/-! ### The JSON of a recorded path -/

namespace Json

/-- The value of a member that stands at most once in an object; `none` where it is repeated. -/
def memberOf (name : String) (fields : List (String × Json)) : Option (Option Json) :=
  match fields.filter (·.1 = name) with
  | [] => some none
  | [f] => some (some f.2)
  | _ => none

/-- A string that may be null. -/
def optionalStr : Json → Option (Option String)
  | .null => some none
  | .str s => some (some s)
  | _ => none

end Json

namespace ObservedPath

/-- The members of a recorded path: without native bytes there is no member for them. -/
def members (p : ObservedPath) : List (String × String) :=
  ("text", p.text) :: (p.rawHex.map fun h => ("raw_hex", h)).toList

def toJson (p : ObservedPath) : Json := .strings p.members

/-- A recorded path as an object, or as a sequence of its fields. -/
def ofJson : Json → Option ObservedPath
  | .obj fields => do
    let text ← Json.memberOf "text" fields
    let rawHex ← Json.memberOf "raw_hex" fields
    match text, rawHex with
    | some (.str text), some h => (Json.optionalStr h).map (⟨text, ·⟩)
    | some (.str text), none => some ⟨text, none⟩
    | _, _ => none
  | .arr [.str text] => some ⟨text, none⟩
  | .arr [.str text, h] => (Json.optionalStr h).map (⟨text, ·⟩)
  | _ => none

/-- The path after it was written as JSON and read back. -/
def reread (json : Json.Reader) (p : ObservedPath) : Option ObservedPath := (json.read p.toJson.encode).bind ofJson

variable {json : Json.Reader} {p : ObservedPath}

theorem ofJson_toJson (p : ObservedPath) : ofJson p.toJson = some p := by
  obtain ⟨text, rawHex⟩ := p
  cases rawHex with
  | none => rfl
  | some h => rfl

theorem reread_eq : reread json p = some p := by
  have hread : json.read p.toJson.encode = some p.toJson := json.read_strings p.members
  rw [reread, hread, Option.bind_some, ofJson_toJson]

end ObservedPath

/-! ### The file that a recorded path leads to -/

variable {path : NativePath} {p : ObservedPath} {finding : Finding} {sha256 : Sha256Digest}
  {metadata : Option FileMetadata} {record : QuarantineRecord} {id : QuarantineId} {host : Host}

theorem fromPath_injective : Function.Injective ObservedPath.fromPath := by
  intro path other h
  have hpath := nativePath_fromPath path
  rw [h, nativePath_fromPath other] at hpath
  exact (Option.some.inj hpath).symm

/-- What is quarantined for a finding is the file at the path it names. -/
theorem autoQuarantineTarget_path (hp : nativePath p = some path) (htarget : finding.target = .file p (some sha256) metadata)
    {t : NativePath × Sha256Digest} (h : autoQuarantineTarget finding = .ok t) : t = (path, sha256) := by
  obtain ⟨observed, metadata', htarget', hobserved⟩ := (autoQuarantineTarget_eq_ok.mp h).target
  rw [htarget, FindingTarget.file.injEq, Option.some.injEq] at htarget'
  rw [← htarget'.1, hp, Option.some.injEq] at hobserved
  exact Prod.ext hobserved.symm htarget'.2.1.symm

/-- What is restored goes to the path its record names. -/
theorem restoreTarget_path (hp : nativePath record.original.path = some path) {t : NativePath × Bytes × NativePath}
    (h : Host.restoreTarget id record none = .ok t) : fileKey path = some (t.1.components ++ [t.2.1]) := by
  unfold Host.restoreTarget at h
  rw [hp] at h
  simp only [except_bind_eq_ok, Except.ok.injEq] at h
  obtain ⟨⟨parent, name⟩, hsplit, dir, hdir, ht⟩ := h
  rw [fileKey, hsplit, ← ht, ← hdir]

/-- The file that recovery looks for is the one at the path its record names. -/
theorem originalKey_path (hp : nativePath record.original.path = some path) {key : FileKey}
    (h : host.originalKey record = some key) : fileKey path = some key := by
  unfold Host.originalKey at h
  rw [hp] at h
  cases hsplit : splitChecked path with
  | error e =>
    simp only [hsplit] at h
    cases h
  | ok split =>
    simp only [hsplit] at h
    rw [fileKey, hsplit]
    cases hdir : host.openDirNoSymlinks split.1 with
    | error e =>
      simp only [hdir] at h
      cases h
    | ok dir =>
      simp only [hdir] at h
      exact h

/-- A path as it is recorded, and as it is read back from JSON, leads to the file that was observed, and to no other:
that is the file a finding has quarantined, the place an item is restored to and the file recovery looks for. -/
theorem observed_path_exact (json : Json.Reader) (path : NativePath) :
    nativePath (.fromPath path) = some path ∧
    (∀ other, ObservedPath.fromPath other = .fromPath path → other = path) ∧
    (∀ host req d st sha256 copied, req.path = path →
      (Host.pendingRecord host req d st sha256 copied).original.path = .fromPath path) ∧
    ∃ stored, ObservedPath.reread json (.fromPath path) = some stored ∧ stored = .fromPath path ∧
      nativePath stored = some path ∧
      (∀ (finding : Finding) sha256 metadata, finding.target = .file stored (some sha256) metadata →
        ∀ t, autoQuarantineTarget finding = .ok t → t = (path, sha256)) ∧
      (∀ id record t, record.original.path = stored → Host.restoreTarget id record none = .ok t →
        fileKey path = some (t.1.components ++ [t.2.1])) ∧
      (∀ (host : Host) record key, record.original.path = stored → host.originalKey record = some key →
        fileKey path = some key) := by
  have hnative := nativePath_fromPath path
  have hrecorded : ∀ host req d st sha256 copied, req.path = path →
      (Host.pendingRecord host req d st sha256 copied).original.path = .fromPath path := by
    intro host req d st sha256 copied hreq
    rw [← hreq]
    rfl
  refine ⟨hnative, fun other h => fromPath_injective h, hrecorded, .fromPath path, ObservedPath.reread_eq, rfl, hnative,
    ?_, ?_, ?_⟩
  · intro finding sha256 metadata htarget t ht
    exact autoQuarantineTarget_path hnative htarget ht
  · intro id record t hrecord ht
    exact restoreTarget_path ((congrArg nativePath hrecord).trans hnative) ht
  · intro host record key hrecord hkey
    exact originalKey_path ((congrArg nativePath hrecord).trans hnative) hkey

/-- A name that is no text. -/
theorem observed_path_exact_sample :
    ∃ stored, ObservedPath.reread .ofStrings (.fromPath [0x2F, 0x74, 0xFF]) = some stored ∧
      nativePath stored = some [0x2F, 0x74, 0xFF] := by
  obtain ⟨-, -, -, stored, hread, -, hnative, -⟩ := observed_path_exact .ofStrings [0x2F, 0x74, 0xFF]
  exact ⟨stored, hread, hnative⟩

end AbyssalWarden

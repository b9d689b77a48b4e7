import AbyssalWarden.Checked
import AbyssalWarden.Clock
import AbyssalWarden.Text

/-! The trusted keys: added one by one or from keyrings, revoked, and asked whether a
signature verifies for a role at a time. -/
namespace AbyssalWarden

/-- A minisign key ID. -/
structure KeyId where
  bytes : Bytes
  length_eq : bytes.length = 8
  deriving DecidableEq

/-- As minisign prints it: the bytes are a little-endian number, shown with sixteen
upper-case hexadecimal digits. -/
def KeyId.toString (id : KeyId) : String := String.ofList (id.bytes.reverse.flatMap (hexByte true))

/-- The minisign library. A key and a signature both name a key ID, and a signature made
with another key ID never verifies. -/
structure Minisign where
  PublicKey : Type
  Signature : Type
  fromBase64 : List Char → Except String PublicKey
  decode : String → Except String Signature
  /-- Verification with legacy (not prehashed) signatures refused. -/
  verify : PublicKey → Bytes → Signature → Bool
  trustedComment : Signature → String
  keyId : PublicKey → KeyId
  signatureKeyId : Signature → KeyId
  verify_keyId : ∀ k data sig, verify k data sig = true → signatureKeyId sig = keyId k
  fromBase64_keyId : ∀ s k raw, fromBase64 s = .ok k → base64Decode s = some raw →
    (raw.drop 2).take 8 = (keyId k).bytes

inductive KeyRole where
  | content
  | timestamp
  deriving DecidableEq, Repr

structure KeyError where
  sourceName : String
  reason : String
  deriving DecidableEq, Repr

/-- What a keyring is refused for; indices count its `keys` and `bundles` arrays. -/
inductive KeyringProblem where
  | json (reason : String)
  | format
  | formatVersion (found : ℕ)
  | tooManyKeys
  | threshold
  | bundleName (i : ℕ)
  | description (i : ℕ)
  | window (i : ℕ)
  | noRoles (i : ℕ)
  | key (i : ℕ) (e : KeyError)
  | idMismatch (i : ℕ) (given : String) (id : KeyId)
  deriving DecidableEq

inductive IoKind where
  | notFound
  | other (reason : String)
  deriving DecidableEq, Repr

inductive TrustError where
  | io (path : String) (source : IoKind)
  | tooLarge (path : String) (limit : ℕ)
  | invalidKey (e : KeyError)
  | invalidSignature (path reason : String)
  | untrusted (path : String)
  | noTrustedKeys
  | keyRevoked (path : String) (id : String)
  | keyOutsideValidity (path : String) (id : String) (notBefore notAfter : Option OffsetDateTime)
  | invalidKeyring (sourceName : String) (problem : KeyringProblem)
  deriving DecidableEq

structure TrustedKey (ms : Minisign) where
  id : KeyId
  key : ms.PublicKey
  roles : List KeyRole
  notBefore : Option OffsetDateTime
  notAfter : Option OffsetDateTime
  revoked : Bool
  id_eq : ms.keyId key = id

structure KeyringPolicy where
  threshold : ℕ

structure BundleFloor where
  name : String
  minSequence : ℕ

structure KeyringEntry where
  id : String
  publicKey : String
  description : Option String
  notBefore : Option OffsetDateTime
  notAfter : Option OffsetDateTime
  revoked : Bool
  roles : List KeyRole

structure KeyringFile where
  format : String
  formatVersion : ℕ
  keys : List KeyringEntry
  policy : Option KeyringPolicy
  bundles : List BundleFloor

def keyringFormat : String := "abyssal-warden.keyring"
def maxKeyringKeys : ℕ := 256
def maxThreshold : ℕ := 16
def contentRole : List KeyRole := [.content]

/-- The keys whose signatures are accepted, no two with one ID, and the policy of the
keyrings they came from. -/
structure TrustedKeys (ms : Minisign) where
  keys : List (TrustedKey ms)
  threshold : ℕ
  minSequences : String → Option ℕ
  ids_nodup : (keys.map TrustedKey.id).Nodup

variable {ms : Minisign}

/-- `t.is_none_or(..)` on both ends of the window. -/
def withinWindow (notBefore notAfter : Option OffsetDateTime) (now : OffsetDateTime) : Bool :=
  notBefore.all (fun t => decide (now ≥ t)) && notAfter.all (fun t => decide (now ≤ t))

def TrustedKey.validAt (k : TrustedKey ms) (now : OffsetDateTime) : Bool :=
  withinWindow k.notBefore k.notAfter now

namespace TrustedKeys

def new : TrustedKeys ms := ⟨[], 0, fun _ => none, List.nodup_nil⟩

def isEmpty (keys : TrustedKeys ms) : Bool := keys.keys.isEmpty

/-- Distinct valid signatures a bundle manifest needs (at least 1). -/
def requiredSignatures (keys : TrustedKeys ms) : ℕ := max keys.threshold 1

def minSequence (keys : TrustedKeys ms) (name : String) : Option ℕ := keys.minSequences name

/-- Changes keys in place, each into one with its ID. -/
def mapKeys (keys : TrustedKeys ms) (f : TrustedKey ms → TrustedKey ms)
    (hf : ∀ k, (f k).id = k.id) : TrustedKeys ms :=
  { keys with
    keys := keys.keys.map f
    ids_nodup := by
      have hid : TrustedKey.id ∘ f = TrustedKey.id := funext hf
      rw [List.map_map, hid]
      exact keys.ids_nodup }

/-- Appends a key unless its ID is present. -/
def pushNew (keys : TrustedKeys ms) (k : TrustedKey ms) : TrustedKeys ms :=
  if h : k.id ∈ keys.keys.map TrustedKey.id then keys
  else
    { keys with
      keys := keys.keys ++ [k]
      ids_nodup := by
        rw [List.map_append, List.nodup_append]
        refine ⟨keys.ids_nodup, List.nodup_singleton _, ?_⟩
        intro a ha b hb hab
        exact h (by simpa [hab, List.mem_singleton.mp hb] using ha) }

end TrustedKeys

def TrustedKey.revokeIf (id : String) (k : TrustedKey ms) : TrustedKey ms :=
  if eqIgnoreAsciiCase k.id.toString id then { k with revoked := true } else k

theorem TrustedKey.revokeIf_id (id : String) (k : TrustedKey ms) : (k.revokeIf id).id = k.id := by
  unfold TrustedKey.revokeIf
  split <;> rfl

/-- Mark the key with ID `id` (as minisign prints it) revoked. -/
def TrustedKeys.revoke (keys : TrustedKeys ms) (id : String) : TrustedKeys ms :=
  keys.mapKeys (TrustedKey.revokeIf id) (TrustedKey.revokeIf_id id)

def TrustedKeys.revokeAll (keys : TrustedKeys ms) (ids : List String) : TrustedKeys ms :=
  ids.foldl TrustedKeys.revoke keys

def commentPrefix : List Char := "untrusted comment:".toList

/-- The line of a `.pub` text that holds the key. -/
def keyLine (text : List Char) : Option (List Char) :=
  ((lines text).map trim).find? fun l =>
    l ≠ [] && !(commentPrefix.isPrefixOf l)

/-- `raw.get(2..10)` -/
def rawKeyId (raw : Bytes) : Option KeyId :=
  if h : ((raw.drop 2).take 8).length = 8 then some ⟨(raw.drop 2).take 8, h⟩ else none

/-- The key of one line of text, as it is added: a content key without restrictions. -/
def newKey (ms : Minisign) (b64 : List Char) : Except String (TrustedKey ms) :=
  match hkey : ms.fromBase64 b64 with
  | .error e => .error e
  | .ok key =>
    match hraw : base64Decode b64 with
    | none => .error "not valid base64"
    | some raw =>
      if h : ((raw.drop 2).take 8).length = 8 then
        .ok {
          id := ⟨(raw.drop 2).take 8, h⟩
          key := key
          roles := contentRole
          notBefore := none
          notAfter := none
          revoked := false
          id_eq := by
            have hb := ms.fromBase64_keyId b64 key raw hkey hraw
            cases hid : ms.keyId key
            rw [hid] at hb
            simp [hb] }
      else .error "key too short"

/-- Add a key from the text of a minisign `.pub` file, or from a bare base64 public key. -/
def TrustedKeys.addKeyText (keys : TrustedKeys ms) (text sourceName : String) :
    Except KeyError (TrustedKeys ms × KeyId) :=
  match keyLine text.toList with
  | none => .error ⟨sourceName, "no key found"⟩
  | some b64 =>
    match newKey ms b64 with
    | .error reason => .error ⟨sourceName, reason⟩
    | .ok k => .ok (keys.pushNew k, k.id)

/-- Whether the entry names a key already present, as `add_keyring` decides it: from the raw
text of `public_key`. -/
def TrustedKeys.existed (keys : TrustedKeys ms) (entry : KeyringEntry) : Bool :=
  keys.keys.any fun k => (base64Decode entry.publicKey.toList).bind rawKeyId = some k.id

/-- `Option::max`, where `None` is below every time. -/
def optionMax (a b : Option OffsetDateTime) : Option OffsetDateTime :=
  match a, b with
  | none, b => b
  | a, none => a
  | some a, some b => some (max a b)

/-- The restrictions of a keyring entry on the key it names. -/
def TrustedKey.applyEntry (existed : Bool) (entry : KeyringEntry) (k : TrustedKey ms) :
    TrustedKey ms :=
  { k with
    roles := if existed then k.roles.filter (· ∈ entry.roles) else entry.roles
    revoked := k.revoked || entry.revoked
    notBefore := optionMax k.notBefore entry.notBefore
    notAfter :=
      match k.notAfter, entry.notAfter with
      | some a, some b => some (min a b)
      | a, b => a.or b }

/-- `iter_mut().find(..)`: IDs are distinct, so the first key with the ID is the only one. -/
def TrustedKeys.restrict (keys : TrustedKeys ms) (id : KeyId) (existed : Bool)
    (entry : KeyringEntry) : TrustedKeys ms :=
  keys.mapKeys (fun k => if k.id = id then k.applyEntry existed entry else k) (by
    intro k
    split <;> rfl)

def addEntry (sourceName : String) (acc : TrustedKeys ms × List KeyId)
    (item : KeyringEntry × ℕ) : Except TrustError (TrustedKeys ms × List KeyId) := do
  let (keys, ids) := acc
  let (entry, i) := item
  let invalid := TrustError.invalidKeyring sourceName
  -- the checks on the entry alone come first
  refuseIf (entry.description.any fun d => d.utf8ByteSize > 1024 || hasUnsafeChars d false)
    (invalid (.description i))
  refuseIf (entry.notBefore.any fun a => entry.notAfter.any fun b => decide (a > b))
    (invalid (.window i))
  refuseIf (entry.roles = []) (invalid (.noRoles i))
  let existed := keys.existed entry
  let (keys, id) ← (keys.addKeyText entry.publicKey sourceName).mapError (invalid ∘ .key i)
  refuseIf (eqIgnoreAsciiCase id.toString entry.id = false) (invalid (.idMismatch i entry.id id))
  .ok (keys.restrict id existed entry, ids ++ [id])

/-- Several keyrings: the strictest threshold wins. -/
def TrustedKeys.addPolicy (keys : TrustedKeys ms) (sourceName : String) :
    Option KeyringPolicy → Except TrustError (TrustedKeys ms)
  | none => .ok keys
  | some policy => do
    refuseIf (¬ (1 ≤ policy.threshold ∧ policy.threshold ≤ maxThreshold))
      (.invalidKeyring sourceName .threshold)
    .ok { keys with threshold := max keys.threshold policy.threshold }

def validFloorName (name : String) : Bool :=
  name ≠ "" && name.utf8ByteSize ≤ 128 &&
    name.toList.all fun c => c.isAlphanum || c = '.' || c = '_' || c = '-'

def addFloor (sourceName : String) (keys : TrustedKeys ms) (item : BundleFloor × ℕ) :
    Except TrustError (TrustedKeys ms) := do
  let (floor, i) := item
  refuseIf (validFloorName floor.name = false) (.invalidKeyring sourceName (.bundleName i))
  let e := max ((keys.minSequences floor.name).getD 0) floor.minSequence
  .ok { keys with minSequences := Function.update keys.minSequences floor.name (some e) }

/-- Add the keys of a keyring file (JSON, read by `parse`). A key already present takes the
keyring's restrictions. -/
def TrustedKeys.addKeyring (parse : Bytes → Except String KeyringFile) (keys : TrustedKeys ms)
    (json : Bytes) (sourceName : String) : Except TrustError (TrustedKeys ms × List KeyId) := do
  let invalid := TrustError.invalidKeyring sourceName
  let file ← (parse json).mapError (invalid ∘ .json)
  refuseIf (file.format ≠ keyringFormat) (invalid .format)
  refuseIf (file.formatVersion ≠ 1) (invalid (.formatVersion file.formatVersion))
  refuseIf (file.keys.length > maxKeyringKeys) (invalid .tooManyKeys)
  let keys ← keys.addPolicy sourceName file.policy
  let keys ← checkEach (addFloor sourceName) keys file.bundles.zipIdx
  checkEach (addEntry sourceName) (keys, []) file.keys.zipIdx

/-- Verify `data` against the text of a `.minisig` file at time `now`, with a key holding
`role`: the key that verified it and the signed trusted comment. -/
def TrustedKeys.verifyRole (keys : TrustedKeys ms) (data : Bytes) (signatureText path : String)
    (now : OffsetDateTime) (role : KeyRole) : Except TrustError (KeyId × String) :=
  match ms.decode signatureText with
  | .error e => .error (.invalidSignature path e)
  | .ok sig =>
    match (keys.keys.filter (role ∈ ·.roles)).find? (ms.verify ·.key data sig) with
    | none => .error (.untrusted path)
    | some k =>
      if k.revoked then .error (.keyRevoked path k.id.toString)
      else if k.validAt now = false then
        .error (.keyOutsideValidity path k.id.toString k.notBefore k.notAfter)
      else .ok (k.id, ms.trustedComment sig)

def TrustedKeys.verify (keys : TrustedKeys ms) (data : Bytes) (signatureText path : String)
    (now : OffsetDateTime) : Except TrustError (KeyId × String) :=
  keys.verifyRole data signatureText path now .content

/-- A library to compute with: a key is `Ed`, its ID and 32 bytes, and a signature is the key's ID
and a sum of what it signs. -/
def plainMinisign : Minisign where
  PublicKey := { raw : Bytes // raw.length = 42 ∧ raw.take 2 = [0x45, 0x64] }
  Signature := { raw : Bytes // 8 ≤ raw.length }
  fromBase64 s :=
    match base64Decode s with
    | none => .error "invalid base64"
    | some raw =>
      if h : raw.length = 42 ∧ raw.take 2 = [0x45, 0x64] then .ok ⟨raw, h⟩
      else .error "invalid key"
  decode text :=
    match base64Decode text.toList with
    | none => .error "invalid base64"
    | some raw => if h : 8 ≤ raw.length then .ok ⟨raw, h⟩ else .error "invalid signature"
  -- the ID stands after the algorithm
  verify k data sig := sig.val = (k.val.drop 2).take 8 ++ [data.sum]
  trustedComment _ := ""
  keyId k := ⟨(k.val.drop 2).take 8, by simp [k.property.1]⟩
  signatureKeyId sig := ⟨sig.val.take 8, by simpa using sig.property⟩
  verify_keyId := by
    intro k data sig h
    have hlen : ((k.val.drop 2).take 8).length = 8 := by simp [k.property.1]
    simp [of_decide_eq_true h, hlen]
  fromBase64_keyId := by
    intro s k raw hkey hraw
    simp only [hraw] at hkey
    split at hkey
    · cases hkey
      rfl
    · cases hkey

def zeroId : KeyId := ⟨List.replicate 8 0, rfl⟩

def zeroKeys (roles : List KeyRole) : TrustedKeys plainMinisign where
  keys := [{
    id := zeroId
    key := ⟨[0x45, 0x64] ++ List.replicate 40 0, by decide⟩
    roles := roles
    notBefore := none
    notAfter := none
    revoked := false
    id_eq := rfl }]
  threshold := 0
  minSequences _ := none
  ids_nodup := List.nodup_singleton _

end AbyssalWarden

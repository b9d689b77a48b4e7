import AbyssalWarden.Bundle

/-! The timestamp of the update channel: a short-lived file, signed by a key with the timestamp
role, that names the newest release of a bundle. -/
namespace AbyssalWarden

structure Timestamp where
  format : String
  formatVersion : ℕ
  version : ℕ
  bundle : String
  sequence : ℕ
  manifestSha256 : Sha256Digest
  manifestSize : ℕ
  issued : OffsetDateTime
  expires : OffsetDateTime
  deriving DecidableEq

inductive FreshnessError where
  | signature (e : TrustError)
  | invalid (reason : String)
  | expired (expires : OffsetDateTime)
  deriving DecidableEq

def timestampFile : String := "timestamp.json"
def timestampFormat : String := "abyssal-warden.content-timestamp"
def maxTimestampBytes : ℕ := 64 * 1024
def maxTimestampLifetime : Duration := Duration.days 31
def clockSkew : Duration := Duration.minutes 10

/-- The lifetime and the tolerated clock are compared in nanoseconds, so that the year 9999 needs
no case of its own. -/
def Timestamp.validate (ts : Timestamp) (now : OffsetDateTime) : Except FreshnessError Unit := do
  refuseIf (ts.format ≠ timestampFormat ∨ ts.formatVersion ≠ 1)
    (.invalid "unknown format or format_version")
  refuseIf (ts.version = 0 ∨ ts.sequence = 0) (.invalid "version and sequence must be at least 1")
  refuseIf (validName ts.bundle = false)
    (.invalid "bundle name must be 1-128 characters of [A-Za-z0-9._-]")
  refuseIf (ts.manifestSize = 0 ∨ ts.manifestSize > maxManifestBytes)
    (.invalid "manifest_size out of range")
  refuseIf (ts.expires ≤ ts.issued ∨ ts.expires.nanos - ts.issued.nanos > maxTimestampLifetime)
    (.invalid "expires must be after issued and within 31 days of it")
  refuseIf (ts.issued.nanos > now.nanos + clockSkew)
    (.invalid "issued in the future (check the clock)")

structure VerifiedTimestamp where
  timestamp : Timestamp
  signer : KeyId
  sha256 : Sha256Digest
  deriving DecidableEq

variable {ms : Minisign}

/-- Verifies a `timestamp.json` with a timestamp-role key. -/
def verifyTimestamp (sha256 : Bytes → Sha256Digest)
    (parseTimestamp : Bytes → Except String Timestamp) (data : Bytes) (signatureText : String)
    (keys : TrustedKeys ms) (now : OffsetDateTime) (allowExpired : Bool) :
    Except FreshnessError VerifiedTimestamp := do
  refuseIf (data.length > maxTimestampBytes) (.invalid "larger than 64 KiB")
  let (signer, _) ← (keys.verifyRole data signatureText timestampFile now .timestamp).mapError
    .signature
  let timestamp ← (parseTimestamp data).mapError .invalid
  timestamp.validate now
  refuseIf (now > timestamp.expires ∧ allowExpired = false) (.expired timestamp.expires)
  .ok ⟨timestamp, signer, sha256 data⟩

end AbyssalWarden

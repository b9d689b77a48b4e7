import AbyssalWarden.AnchorText
import AbyssalWarden.SddlParse

/-! Security descriptors as they are printed, what they say, and what is read of them. -/
namespace AbyssalWarden

namespace Sddl

/-! ### The text -/

/-- A principal: a SID, or an alias of two capital letters. -/
inductive Principal where
  | sid (authority : ℕ) (subs : List ℕ)
  | letters (a b : Char) (upper : a.isUpper = true ∧ b.isUpper = true)

/-- The authority of a SID: from `2^32` on it is printed as twelve hexadecimal digits. -/
def authorityText (n : ℕ) : List Char :=
  if n < 2^32 then Nat.toDigits 10 n
  else "0x".toList ++ List.replicate (12 - (Nat.toDigits 16 n).length) '0' ++ Nat.toDigits 16 n

def subsText (subs : List ℕ) : List Char := subs.flatMap fun n => '-' :: Nat.toDigits 10 n

def Principal.text : Principal → List Char
  | .sid authority subs => "S-1-".toList ++ authorityText authority ++ subsText subs
  | .letters a b _ => [a, b]

/-- The SID that is meant; an alias that only the system knows stays. -/
def Principal.normal : Principal → String
  | .sid authority subs => String.ofList ((Principal.sid authority subs).text.map Char.toUpper)
  | .letters a b _ => (aliases.lookup (String.ofList [a, b])).getD (String.ofList [a, b])

inductive AceType where
  | a
  | oa
  | xa
  | za
  | d
  | od
  | xd
  deriving DecidableEq

def AceType.text : AceType → List Char
  | .a => "A".toList
  | .oa => "OA".toList
  | .xa => "XA".toList
  | .za => "ZA".toList
  | .d => "D".toList
  | .od => "OD".toList
  | .xd => "XD".toList

def AceType.allows : AceType → Bool
  | .a | .oa | .xa | .za => true
  | .d | .od | .xd => false

inductive AceFlag where
  | oi
  | ci
  | np
  | io
  | id
  | sa
  | fa
  | tp
  | cr
  deriving DecidableEq

def AceFlag.first : AceFlag → Char
  | .oi => 'O'
  | .ci => 'C'
  | .np => 'N'
  | .io => 'I'
  | .id => 'I'
  | .sa => 'S'
  | .fa => 'F'
  | .tp => 'T'
  | .cr => 'C'

def AceFlag.second : AceFlag → Char
  | .oi => 'I'
  | .ci => 'I'
  | .np => 'P'
  | .io => 'O'
  | .id => 'D'
  | .sa => 'A'
  | .fa => 'A'
  | .tp => 'P'
  | .cr => 'R'

def flagsText (flags : List AceFlag) : List Char := flags.flatMap fun f => [f.first, f.second]

/-- Rights, as a number or as codes. -/
inductive RightsText where
  | hex (mask : UInt32)
  | codes (codes : List {p : String × ℕ // p ∈ rightCodes})

def codesText (codes : List {p : String × ℕ // p ∈ rightCodes}) : List Char := codes.flatMap fun p => p.1.1.toList

def RightsText.text : RightsText → List Char
  | .hex mask => "0x".toList ++ Nat.toDigits 16 mask.toNat
  | .codes cs => codesText cs

def RightsText.mask : RightsText → ℕ
  | .hex mask => mask.toNat
  | .codes cs => cs.foldl (fun mask p => mask ||| p.1.2) 0

/-- Text of letters, digits and dashes. -/
def PlainText (s : List Char) : Prop := ∀ c ∈ s, c.isAlphanum = true ∨ c = '-'

instance (s : List Char) : Decidable (PlainText s) := inferInstanceAs (Decidable (∀ c ∈ s, _))

/-- An entry of a DACL; the identifiers of object types may be left out. -/
structure AceText where
  type : AceType
  flags : List AceFlag
  rights : RightsText
  objectGuid : {s : List Char // PlainText s}
  inheritGuid : {s : List Char // PlainText s}
  sid : Principal

def AceText.fields (ace : AceText) : List Char :=
  ace.type.text ++ ';' :: (flagsText ace.flags ++ ';' :: (ace.rights.text ++ ';' :: (ace.objectGuid.1 ++
    ';' :: (ace.inheritGuid.1 ++ ';' :: ace.sid.text))))

def AceText.text (ace : AceText) : List Char := '(' :: (ace.fields ++ [')'])

/-- Flags of a DACL: protected, and how it came to inherit. -/
inductive DaclFlag where
  | p
  | ar
  | ai
  deriving DecidableEq

def DaclFlag.text : DaclFlag → List Char
  | .p => "P".toList
  | .ar => "AR".toList
  | .ai => "AI".toList

def daclFlagsText (flags : List DaclFlag) : List Char := flags.flatMap DaclFlag.text

/-- A security descriptor as it is printed; a DACL that is absent gives everyone access. -/
structure DescriptorText where
  owner : Option Principal
  group : Option Principal
  flags : List DaclFlag
  dacl : Option (List AceText)

def DescriptorText.daclText (d : DescriptorText) : List Char :=
  match d.dacl with
  | none => "NO_ACCESS_CONTROL".toList
  | some aces => aces.flatMap AceText.text

def sidPart (tag : String) (sid : Option Principal) : List Char := sid.elim [] fun p => tag.toList ++ p.text

def DescriptorText.text (d : DescriptorText) : String :=
  String.ofList (sidPart "O:" d.owner ++ (sidPart "G:" d.group ++ ("D:".toList ++ (daclFlagsText d.flags ++ d.daclText))))

/-! ### What it says -/

/-- An entry; it does not apply to the object itself exactly if `IO` is among its flags. -/
def AceText.meaning (ace : AceText) : Ace := ⟨ace.type.allows, AceFlag.io ∈ ace.flags, ace.rights.mask, ace.sid.normal⟩

def DescriptorText.meaning (d : DescriptorText) : Descriptor where
  owner := d.owner.map Principal.normal
  isProtected := DaclFlag.p ∈ d.flags
  dacl := d.dacl.map fun aces => aces.map AceText.meaning

end Sddl

end AbyssalWarden

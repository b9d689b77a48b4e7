import Mathlib

/-! Security descriptors of Windows, and who besides some trusted principals they grant rights to. -/
namespace AbyssalWarden

namespace Sddl

def system : String := "S-1-5-18"
def administrators : String := "S-1-5-32-544"
def trustedInstaller : String := "S-1-5-80-956008885-3418522649-1831038044-1853292631-2271478464"

/-- OWNER RIGHTS: applies to whoever owns the object. -/
def ownerRights : String := "S-1-3-4"

/-- CREATOR OWNER: a placeholder in inheritable ACEs only. -/
def creatorOwner : String := "S-1-3-0"

/-- SDDL alias to SID. -/
def aliases : List (String × String) :=
  [("SY", system), ("BA", administrators), ("BU", "S-1-5-32-545"), ("BG", "S-1-5-32-546"),
    ("PU", "S-1-5-32-547"), ("WD", "S-1-1-0"), ("AU", "S-1-5-11"), ("IU", "S-1-5-4"), ("SU", "S-1-5-6"),
    ("NU", "S-1-5-2"), ("AN", "S-1-5-7"), ("LS", "S-1-5-19"), ("NS", "S-1-5-20"), ("OW", ownerRights),
    ("CO", creatorOwner), ("CG", "S-1-3-1"), ("AC", "S-1-15-2-1"), ("RC", "S-1-5-12"), ("PS", "S-1-5-10")]

/-- A SID or alias as a SID string (unknown aliases are kept as they are). -/
def normalizeSid (s : String) : String :=
  (aliases.lookup s).getD (String.ofList (s.toList.map Char.toUpper))

structure Ace where
  allow : Bool
  /-- Applies only to children, not to the object itself. -/
  inheritOnly : Bool
  mask : ℕ
  sid : String
  deriving DecidableEq

structure Descriptor where
  owner : Option String
  isProtected : Bool
  /-- `none`: no DACL (everyone has full access). -/
  dacl : Option (List Ace)
  deriving DecidableEq

/-- Whom an entry is effectively about: OWNER RIGHTS applies to the owner. -/
def Descriptor.effective (d : Descriptor) (ace : Ace) : String :=
  if ace.sid = ownerRights then d.owner.getD ownerRights else ace.sid

/-- SIDs, other than `trusted`, that some allow-ACE effective on the object grants any of `rights`. With no
DACL, everyone has access. -/
def grantedToOthers (d : Descriptor) (rights : ℕ) (trusted : List String) : List String :=
  match d.dacl with
  | none => ["S-1-1-0"]
  | some dacl => dacl.foldl (fun out ace =>
      if ace.allow = false ∨ ace.inheritOnly = true ∨ ace.mask &&& rights = 0 then out
      else if d.effective ace ∈ trusted.map normalizeSid ∨ d.effective ace ∈ out then out
      else out ++ [d.effective ace]) []

end Sddl

end AbyssalWarden

import AbyssalWarden.Server
import AbyssalWarden.TaskXml

/-! User and group lookups from `/etc/passwd` and `/etc/group`, the administrator decision, and the peer that a
connection is identified with. -/
namespace AbyssalWarden

open TaskXml (parseU32)

structure User where
  name : String
  uid : ℕ
  gid : ℕ
  deriving DecidableEq, Repr

structure Group where
  name : String
  gid : ℕ
  members : List String
  deriving DecidableEq, Repr

/-- The settings that name accounts. -/
structure AccountSettings where
  adminUsers : List String
  adminGroup : Option String
  scannerUser : String

def maxAccountLines : ℕ := 200000

/-- A line of `/etc/passwd`, of at least seven fields. -/
def passwdUser (line : List Char) : Option User :=
  match line.splitOn ':' with
  | name :: _ :: uid :: gid :: _ :: _ :: _ :: _ =>
    if name = [] then none
    else do
      let uid ← parseU32 uid
      let gid ← parseU32 gid
      some ⟨String.ofList name, uid, gid⟩
  | _ => none

def parsePasswd (text : List Char) : List User := ((lines text).take maxAccountLines).filterMap passwdUser

/-- A line of `/etc/group`, of at least four fields. -/
def groupLine (line : List Char) : Option Group :=
  match line.splitOn ':' with
  | name :: _ :: gid :: members :: _ =>
    if name = [] then none
    else do
      let gid ← parseU32 gid
      some ⟨String.ofList name, gid, ((members.splitOn ',').filter (· ≠ [])).map String.ofList⟩
  | _ => none

def parseGroup (text : List Char) : List Group := ((lines text).take maxAccountLines).filterMap groupLine

structure Accounts where
  users : List User
  groups : List Group

namespace Accounts

/-- Reads the system databases; one that cannot be read is empty. -/
def load (passwd group : Except String (List Char)) : Accounts where
  users := parsePasswd (passwd.toOption.getD [])
  groups := parseGroup (group.toOption.getD [])

def user (a : Accounts) (uid : ℕ) : Option User := a.users.find? (·.uid = uid)

def userByName (a : Accounts) (name : String) : Option User := a.users.find? (·.name = name)

def groupByName (a : Accounts) (name : String) : Option Group := a.groups.find? (·.name = name)

/-- Root, a listed administrator (name or uid), or a member of the admin group (listed member, or primary
group). -/
def isAdmin (a : Accounts) (uid : ℕ) (settings : AccountSettings) : Bool :=
  if uid = 0 then true
  else
    let user := a.user uid
    if settings.adminUsers.any fun admin => parseU32 admin.toList = some uid || user.any (·.name = admin) then true
    else
      match settings.adminGroup.bind a.groupByName, user with
      | some group, some user => user.gid = group.gid || group.members.contains user.name
      | _, _ => false

/-- The client of a connection, as the kernel and the databases know it when it connects. -/
def peer (a : Accounts) (settings : AccountSettings) (uid gid : ℕ) : Peer where
  caller := ⟨toString uid, a.isAdmin uid settings⟩
  uid := uid
  gid := ((a.user uid).map User.gid).getD gid

end Accounts

/-- Whoever is no administrator is not root. -/
theorem Accounts.uid_ne_zero {a : Accounts} {settings : AccountSettings} {uid gid : ℕ}
    (h : (a.peer settings uid gid).caller.admin = false) : uid ≠ 0 := by
  rintro rfl
  exact Bool.noConfusion h

end AbyssalWarden

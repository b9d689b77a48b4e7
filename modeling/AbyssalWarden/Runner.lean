import AbyssalWarden.Accounts

/-! How the service starts the scanner for a job: who the child runs as, its arguments, and the command. -/
namespace AbyssalWarden

/-- Who a child runs as. -/
inductive Identity where
  /-- The service's own identity (only when the service is not root). -/
  | inherit
  /-- A service account with only the listed capabilities. -/
  | account (uid gid : ℕ) (caps : List String)
  /-- A local user, with their groups and no capabilities. -/
  | user (uid gid : ℕ)
  deriving DecidableEq, Repr

def scanCaps : List String := ["dac_read_search"]
def systemCheckCaps : List String := ["dac_read_search", "sys_ptrace"]
def updateCaps : List String := []

/-- The capabilities of a job that runs as the scanner account. -/
def JobKind.caps : JobKind → List String
  | .scan => scanCaps
  | .systemCheck => systemCheckCaps
  | .update => updateCaps

/-- All capabilities go but the listed ones. -/
def capsText (caps : List String) : String := caps.foldl (fun s c => s ++ ",+" ++ c) "-all"

/-- `setpriv` arguments for an identity, ending with `--`. -/
def setprivArgs : Identity → List String
  | .inherit => []
  | .account uid gid caps =>
    ["--reuid=" ++ toString uid, "--regid=" ++ toString gid, "--clear-groups", "--inh-caps=" ++ capsText caps] ++
      (if caps = [] then [] else ["--ambient-caps=" ++ capsText caps]) ++
      ["--bounding-set=" ++ capsText caps, "--no-new-privs", "--"]
  | .user uid gid =>
    ["--reuid=" ++ toString uid, "--regid=" ++ toString gid, "--init-groups", "--inh-caps=-all", "--bounding-set=-all",
      "--no-new-privs", "--"]

/-- A command, with the whole of its environment. It starts in `/`, in a process group of its own. -/
structure Command where
  program : String
  args : List String
  env : List (String × String)
  deriving DecidableEq, Repr

/-- Children never quarantine, so they never write audit anchors. -/
def childEnv : List (String × String) :=
  [("ABYSSAL_WARDEN_SYSLOG_SOCKET", ""), ("PATH", "/usr/bin:/bin:/usr/sbin:/sbin"), ("LC_ALL", "C")]

/-- The command for `binary args` as an identity. `setpriv` is required for any identity other than the service's
own. -/
def runnerCommand (setpriv : Option String) (binary : String) (identity : Identity) (args : List String) :
    Except String Command :=
  match identity, setpriv with
  | .inherit, _ => .ok ⟨binary, args, childEnv⟩
  | _, some sp => .ok ⟨sp, setprivArgs identity ++ binary :: args, childEnv⟩
  | _, none => .error "changing identity needs setpriv (util-linux)"

/-- `dir.join(name)`, for a relative name -/
def joinDir (dir name : String) : String :=
  if dir.toList.getLast? = some '/' then dir ++ name else dir ++ "/" ++ name

/-- What scans and system checks are told of heuristics and signed content. -/
def contentArgs (heuristics : Bool) (cfg : ServiceConfig) (stateFile installed : String) (useInstalled : Bool) :
    List String :=
  (if heuristics then ["--heuristics"] else []) ++ (cfg.content.flatMap fun c => ["--content", c]) ++
    (cfg.keyrings.flatMap fun k => ["--keyring", k]) ++
    (if useInstalled then ["--installed", "--content-dir", installed] else []) ++
    (if cfg.content ≠ [] ∨ useInstalled then ["--content-state", stateFile] else [])

/-- Arguments for the `abyssal-warden` child. `installed` is where `update` jobs install bundles; other jobs use it
when `useInstalled`. -/
def childArgs (spec : JobSpec) (cfg : ServiceConfig) (stateFile installed : String) (useInstalled : Bool)
    (timeoutSecs : ℕ) : List String :=
  match spec.kind with
  | .update =>
    ["update", "--format", "json", "--source", cfg.updateSource.getD "", "--content-dir", installed,
      "--content-state", stateFile] ++ cfg.keyrings.flatMap fun k => ["--keyring", k]
  | .scan =>
    ["scan", "--format", "json", "--no-progress", "--no-allowlist", "--scan-timeout", toString timeoutSecs] ++
      (if spec.noArchives then ["--no-archives"] else []) ++
      contentArgs spec.heuristics cfg stateFile installed useInstalled ++ "--" :: spec.paths
  | .systemCheck =>
    ["system-check", "--format", "json"] ++ contentArgs spec.heuristics cfg stateFile installed useInstalled

/-- How children are started. `setpriv` and the scanner account are there when the service runs as root. -/
structure Environment where
  cfg : ServiceConfig
  binary : String
  setpriv : Option String
  scanner : Option (ℕ × ℕ)
  /-- The uid of the service. -/
  euid : ℕ

namespace Environment

def identity (env : Environment) (spec : JobSpec) : Except String Identity :=
  match spec.runAs, env.scanner with
  | .service, some (uid, gid) => .ok (.account uid gid spec.kind.caps)
  | .caller uid gid, some _ => .ok (.user uid gid)
  | .service, none => .ok .inherit
  | .caller uid _, none =>
    if uid = env.euid then .ok .inherit
    else .error "the service is not running as root, so it cannot scan as another user"

/-- The uid that the child's state directory is named after. -/
def childUid (env : Environment) : Identity → ℕ
  | .account uid _ _ | .user uid _ => uid
  | .inherit => env.euid

/-- `Store::child_dir` -/
def childDir (env : Environment) (identity : Identity) : String :=
  joinDir (joinDir env.cfg.stateDir "children") (toString (env.childUid identity))

def timeoutSecs (env : Environment) : ℕ := env.cfg.jobTimeoutMinutes * 60

/-- The arguments of a job's child. -/
def args (env : Environment) (spec : JobSpec) (identity : Identity) (hasInstalledContent : Bool) : List String :=
  let dir := env.childDir identity
  childArgs spec env.cfg (joinDir dir "content-state.json") (joinDir dir "content") hasInstalledContent
    env.timeoutSecs

/-- The command that `execute` starts for a job. `prepared` is what preparing the child's directory answered. -/
def child (env : Environment) (spec : JobSpec) (prepared : Except String Unit) (hasInstalledContent : Bool) :
    Except String Command := do
  let identity ← env.identity spec
  prepared.mapError ("cannot prepare the job's state directory: " ++ ·)
  runnerCommand env.setpriv env.binary identity (env.args spec identity hasInstalledContent)

end Environment

/-- What the service finds on its host when it starts. `debug` is how a string is shown quoted. -/
structure ServiceHost where
  euid : ℕ
  binary : String
  isFile : String → Bool
  accounts : Accounts
  debug : String → String

/-- `setpriv` and the scanner account, as the service looks them up before it claims its socket. -/
def ServiceHost.environment (host : ServiceHost) (cfg : ServiceConfig) (settings : AccountSettings) :
    Except String Environment :=
  if host.euid = 0 then
    match ["/usr/bin/setpriv", "/bin/setpriv"].find? host.isFile with
    | none => .error "setpriv (util-linux) is required to run scans with reduced privileges"
    | some sp =>
      match host.accounts.userByName settings.scannerUser with
      | none => .error ("scanner account " ++ host.debug settings.scannerUser ++
          " does not exist (see packaging/linux/abyssal-warden.sysusers)")
      | some user =>
        if user.uid = 0 then .error "the scanner account must not be root"
        else .ok ⟨cfg, host.binary, some sp, some (user.uid, user.gid), host.euid⟩
  else .ok ⟨cfg, host.binary, none, none, host.euid⟩

/-! ### What the environment decides -/

variable {env : Environment} {host : ServiceHost} {cfg : ServiceConfig} {settings : AccountSettings}

/-- A service that is root has `setpriv` and a scanner account that is not root; another has neither. -/
structure Environment.Prepared (env : Environment) : Prop where
  root : env.euid = 0 → ∃ sp uid gid, env.setpriv = some sp ∧ env.scanner = some (uid, gid) ∧ uid ≠ 0
  other : env.euid ≠ 0 → env.setpriv = none ∧ env.scanner = none

theorem environment_prepared (h : host.environment cfg settings = .ok env) : env.Prepared ∧ env.cfg = cfg := by
  unfold ServiceHost.environment at h
  split at h
  · rename_i hroot
    split at h
    · cases h
    · split at h
      · cases h
      · split at h
        · cases h
        · rename_i hne
          cases h
          exact ⟨⟨fun _ => ⟨_, _, _, rfl, rfl, hne⟩, fun hother => absurd hroot hother⟩, rfl⟩
  · rename_i hother
    cases h
    exact ⟨⟨fun hroot => absurd hroot hother, fun _ => ⟨rfl, rfl⟩⟩, rfl⟩

end AbyssalWarden

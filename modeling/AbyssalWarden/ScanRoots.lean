import AbyssalWarden.FileScan
import AbyssalWarden.PrefixFree
import AbyssalWarden.StableSort

/-! How the roots of a scan are resolved, and which of them are walked. -/
namespace AbyssalWarden.ScanRoots

/-! ### Components -/

/-- `std::path::Component` on Linux, in the order of its variants -/
inductive Component where
  | rootDir
  | curDir
  | parentDir
  | normal (name : Bytes)
  deriving DecidableEq

/-- The variant, then the name byte by byte. -/
def Component.rank : Component → ℕ ×ₗ List ℕ
  | rootDir => toLex (0, [])
  | curDir => toLex (1, [])
  | parentDir => toLex (2, [])
  | normal name => toLex (3, name.map UInt8.toNat)

theorem Component.rank_injective : Function.Injective Component.rank := by
  intro a b h
  have hpair : ofLex a.rank = ofLex b.rank := congrArg ofLex h
  cases a with
  | normal name =>
    cases b with
    | normal name' =>
      have hnames : name.map UInt8.toNat = name'.map UInt8.toNat := congrArg Prod.snd hpair
      have hinj : Function.Injective UInt8.toNat := fun x y hxy => UInt8.toNat_inj.mp hxy
      rw [List.map_injective_iff.mpr hinj hnames]
    | _ => cases congrArg Prod.fst hpair
  | _ =>
    cases b with
    | normal name' => cases congrArg Prod.fst hpair
    | _ => first | rfl | cases congrArg Prod.fst hpair

instance : LinearOrder Component := LinearOrder.lift' Component.rank Component.rank_injective

/-- A part between separators: nothing and `.` are left out. -/
def componentOf (part : Bytes) : Option Component :=
  if part = [] ∨ part = [NativePath.dot] then none
  else if part = [NativePath.dot, NativePath.dot] then some .parentDir
  else some (.normal part)

/-- `Path::components`: only a leading `.` of a relative path is kept. -/
def pathComponents (path : NativePath) : List Component :=
  let parts := path.splitOn NativePath.slash
  let names := parts.filterMap componentOf
  if path.isAbsolute then .rootDir :: names
  else if parts.head? = some [NativePath.dot] then .curDir :: names
  else names

/-- `Path::starts_with`, for any two paths -/
def startsWith (path base : NativePath) : Bool := (pathComponents base).isPrefixOf (pathComponents path)

/-! ### The roots -/

/-- Resolved roots and excludes. -/
structure Targets where
  roots : List NativePath
  excludes : List NativePath
  issues : List ScanIssue

variable (canonicalize absolute : NativePath → Except IoError NativePath)

/-- The loop over the configured roots. -/
def resolveRoots : List NativePath → List NativePath × List ScanIssue
  | [] => ([], [])
  | root :: roots =>
    let (resolved, issues) := resolveRoots roots
    match canonicalize root with
    | .ok p => (p :: resolved, issues)
    | .error e => (resolved, ioIssue (some root) e :: issues)

def resolveExclude (p : NativePath) : NativePath :=
  match canonicalize p with
  | .ok resolved => resolved
  | .error _ =>
    match absolute p with
    | .ok resolved => resolved
    | .error _ => p

def resolveTargets (roots excludes : List NativePath) : Targets :=
  let (resolved, issues) := resolveRoots canonicalize roots
  { roots := keepOutermost pathComponents [] (stableSort pathComponents resolved)
    excludes := excludes.map (resolveExclude canonicalize absolute)
    issues := issues }

variable {canonicalize absolute} {roots excludes : List NativePath} {p : NativePath}

theorem mem_resolveRoots : p ∈ (resolveRoots canonicalize roots).1 ↔ ∃ root ∈ roots, canonicalize root = .ok p := by
  induction roots with
  | nil => simp [resolveRoots]
  | cons root roots ih =>
    cases h : canonicalize root with
    | ok q => simp [resolveRoots, h, ih, eq_comm]
    | error e => simp [resolveRoots, h, ih]

/-- The issue of a root that cannot be resolved. -/
def rootIssue (canonicalize : NativePath → Except IoError NativePath) (root : NativePath) : Option ScanIssue :=
  match canonicalize root with
  | .ok _ => none
  | .error e => some (ioIssue (some root) e)

theorem resolveRoots_issues : (resolveRoots canonicalize roots).2 = roots.filterMap (rootIssue canonicalize) := by
  induction roots with
  | nil => rfl
  | cons root roots ih =>
    cases h : canonicalize root with
    | ok q => simp [resolveRoots, h, ih, rootIssue]
    | error e => simp [resolveRoots, h, ih, rootIssue]

theorem mem_targets_roots (h : p ∈ (resolveTargets canonicalize absolute roots excludes).roots) :
    ∃ root ∈ roots, canonicalize root = .ok p := by
  rcases mem_keepOutermost h with hnil | hsorted
  · cases hnil
  · exact mem_resolveRoots.mp ((List.mem_insertionSort _).mp hsorted)

theorem targets_roots_apart :
    (resolveTargets canonicalize absolute roots excludes).roots.Pairwise (Apart pathComponents) := by
  apply keepOutermost_apart List.Pairwise.nil
  · exact List.pairwise_insertionSort _ _
  · intro k hk
    cases hk

/-- Everything below a resolved root lies under one kept root only. -/
theorem targets_roots_countP {root file : NativePath} (hroot : root ∈ roots) (hp : canonicalize root = .ok p)
    (hfile : startsWith file p = true) :
    (resolveTargets canonicalize absolute roots excludes).roots.countP (startsWith file ·) = 1 := by
  have hmem : p ∈ stableSort pathComponents (resolveRoots canonicalize roots).1 :=
    (List.mem_insertionSort _).mpr (mem_resolveRoots.mpr ⟨root, hroot, hp⟩)
  have hcover : ∃ k ∈ (resolveTargets canonicalize absolute roots excludes).roots,
      pathComponents k <+: pathComponents p := keepOutermost_covers hmem
  obtain ⟨k, hk, hunder⟩ := hcover
  have hprefix : pathComponents k <+: pathComponents file := hunder.trans (List.isPrefixOf_iff_prefix.mp hfile)
  exact countP_of_apart targets_roots_apart hk hprefix

/-- The kept roots are resolved roots, none of them below another; every resolved root, and every file below one, is
below exactly one of them; and each root that cannot be resolved has one issue, in order. -/
theorem scan_roots_partition (canonicalize absolute : NativePath → Except IoError NativePath)
    (roots excludes : List NativePath) :
    (resolveTargets canonicalize absolute roots excludes).roots.Pairwise
      (fun a b => startsWith a b = false ∧ startsWith b a = false) ∧
    (∀ k ∈ (resolveTargets canonicalize absolute roots excludes).roots, ∃ root ∈ roots, canonicalize root = .ok k) ∧
    (∀ root ∈ roots, ∀ p, canonicalize root = .ok p →
      (resolveTargets canonicalize absolute roots excludes).roots.countP (startsWith p ·) = 1) ∧
    (∀ file, (∃ root ∈ roots, ∃ p, canonicalize root = .ok p ∧ startsWith file p = true) →
      (resolveTargets canonicalize absolute roots excludes).roots.countP (startsWith file ·) = 1) ∧
    (resolveTargets canonicalize absolute roots excludes).issues =
      roots.filterMap fun root => match canonicalize root with
        | .ok _ => none
        | .error e => some (ioIssue (some root) e) := by
  refine ⟨?_, fun k hk => mem_targets_roots hk, ?_, ?_, resolveRoots_issues⟩
  · apply targets_roots_apart.imp
    intro a b hapart
    constructor
    · exact Bool.eq_false_iff.mpr fun h => hapart.2 (List.isPrefixOf_iff_prefix.mp h)
    · exact Bool.eq_false_iff.mpr fun h => hapart.1 (List.isPrefixOf_iff_prefix.mp h)
  · intro root hroot p hp
    exact targets_roots_countP hroot hp (List.isPrefixOf_iff_prefix.mpr (List.prefix_refl _))
  · intro file hfile
    obtain ⟨root, hroot, p, hp, hunder⟩ := hfile
    exact targets_roots_countP hroot hp hunder

end AbyssalWarden.ScanRoots

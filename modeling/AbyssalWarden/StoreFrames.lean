import AbyssalWarden.StoreSystem

/-! What a call of the store leaves alone: every file but the ones it names, and of other names of these
at most the number of links. -/
namespace AbyssalWarden

namespace StoreCall

/-- The files in `items/` that the call may change. -/
def WritesItem : StoreCall → ItemFile → Prop
  | .createItem f, g | .truncateItem f, g | .appendItem f _, g | .removeItem f, g => g = f
  | .renameItem source target, g => g = source ∨ g = target
  | _, _ => False

/-- The files outside the store that the call may change. -/
def WritesFile : StoreCall → FileKey → Prop
  | .removeFile k, key | .createFile k _, key | .appendFile k _, key | .chmodFile k _, key
  | .chownFile k _ _, key | .linkFile _ k, key => key = k
  | .renameNew source target, key => key = source ∨ key = target
  | _, _ => False

/-- The call, with only a part of its data. -/
def cut (n : ℕ) : StoreCall → StoreCall
  | .appendFile key data => .appendFile key (data.take n)
  | .appendItem f data => .appendItem f (data.take n)
  | .appendAudit data => .appendAudit (data.take n)
  | c => c

theorem cut_writesItem {c : StoreCall} {n : ℕ} {f : ItemFile} :
    (c.cut n).WritesItem f ↔ c.WritesItem f := by
  cases c <;> rfl

theorem cut_writesFile {c : StoreCall} {n : ℕ} {key : FileKey} :
    (c.cut n).WritesFile key ↔ c.WritesFile key := by
  cases c <;> rfl

end StoreCall

namespace Disk

variable {w : Disk} {c : StoreCall} {n : ℕ} {f : ItemFile} {key : FileKey}

/-- The content of a file outside the store. -/
def contentAt (w : Disk) (key : FileKey) : Option Bytes := (w.outside key).map FileNode.content

theorem contentAt_eq_none {w : Disk} {key : FileKey} : w.contentAt key = none ↔ w.outside key = none :=
  Option.map_eq_none_iff

theorem torn_cases (w : Disk) (n : ℕ) (c : StoreCall) :
    w.torn n c = w ∨ w.torn n c = (w.apply (c.cut n)).2 := by
  cases c with
  | appendFile key data => exact .inr rfl
  | appendItem f data => exact .inr rfl
  | appendAudit data => exact .inr rfl
  | _ =>
    by_cases hn : n = 0
    · exact .inl (if_pos hn)
    · exact .inr (if_neg hn)

theorem failed_cases (w : Disk) (n : ℕ) (c : StoreCall) :
    w.failed n c = w ∨ w.failed n c = (w.apply (c.cut n)).2 := by
  cases c with
  | appendFile key data => exact .inr rfl
  | appendItem f data => exact .inr rfl
  | appendAudit data => exact .inr rfl
  | _ => exact .inl rfl

/-! ### Files in `items/` -/

@[simp] theorem setItem_lookup (w : Disk) (f g : ItemFile) (data : Bytes) :
    (w.setItem f data).items.lookup g = if g = f then some data else w.items.lookup g := by
  unfold setItem
  split
  · rename_i h
    rw [h, AList.lookup_insert]
  · rename_i h
    rw [AList.lookup_insert_ne h]

theorem createdItem_lookup (w : Disk) (f : ItemFile) : (w.setItem f []).items.lookup f = some [] := by
  rw [setItem_lookup, if_pos rfl]

@[simp] theorem eraseItem_lookup (w : Disk) (f g : ItemFile) :
    (w.eraseItem f).items.lookup g = if g = f then none else w.items.lookup g := by
  unfold eraseItem
  split
  · rename_i h
    rw [h, AList.lookup_erase]
  · rename_i h
    rw [AList.lookup_erase_ne h]

theorem apply_items (h : ¬ c.WritesItem f) : (w.apply c).2.items.lookup f = w.items.lookup f := by
  cases c with
  | createItem g =>
    simp only [apply, createItem]
    split
    · rfl
    · rw [setItem_lookup]
      exact if_neg h
  | truncateItem g =>
    rw [apply, setItem_lookup]
    exact if_neg h
  | appendItem g data =>
    simp only [apply, appendItem]
    split
    · rw [setItem_lookup]
      exact if_neg h
    · rfl
  | renameItem source target =>
    simp only [StoreCall.WritesItem, not_or] at h
    simp only [apply, renameItem]
    split
    · rfl
    · rw [setItem_lookup, if_neg h.2, eraseItem_lookup, if_neg h.1]
  | removeItem g =>
    simp only [apply, removeItem]
    split
    · rfl
    · rw [eraseItem_lookup]
      exact if_neg h
  | removeFile key => simp only [apply, removeFile]; split <;> rfl
  | createFile key node => simp only [apply, createFile]; split <;> rfl
  | renameNew source target => simp only [apply, renameNew]; split <;> rfl
  | linkFile source target => simp only [apply, linkFile]; split <;> rfl
  | _ => rfl

/-! ### Files outside the store -/

@[simp] theorem relink_contentAt (w : Disk) (node : FileNode) (g : ℕ → ℕ) (key : FileKey) :
    (w.relink node g).contentAt key = w.contentAt key := by
  simp only [contentAt, relink, Option.map_map]
  congr 1
  funext other
  simp only [Function.comp]
  split <;> rfl

theorem setFile_outside (w : Disk) (k : FileKey) (node : Option FileNode) :
    (w.setFile k node).outside k = node := by
  simp [setFile]

@[simp] theorem setFile_contentAt (w : Disk) (k key : FileKey) (node : Option FileNode) :
    (w.setFile k node).contentAt key =
      if key = k then node.map FileNode.content else w.contentAt key := by
  simp only [contentAt, setFile, Function.update_apply]
  split <;> rfl

theorem apply_contentAt (h : ¬ c.WritesFile key) : (w.apply c).2.contentAt key = w.contentAt key := by
  cases c with
  | removeFile k =>
    simp only [apply, removeFile]
    split
    · rfl
    · rw [relink_contentAt, setFile_contentAt]
      exact if_neg h
  | createFile k node =>
    simp only [apply, createFile]
    split
    · rfl
    · rw [setFile_contentAt]
      exact if_neg h
  | appendFile k data =>
    rw [apply, appendFile, mapFile, setFile_contentAt]
    exact if_neg h
  | chmodFile k mode =>
    rw [apply, mapFile, setFile_contentAt]
    exact if_neg h
  | chownFile k uid gid =>
    rw [apply, mapFile, setFile_contentAt]
    exact if_neg h
  | renameNew source target =>
    simp only [StoreCall.WritesFile, not_or] at h
    simp only [apply, renameNew]
    split
    · rfl
    · rfl
    -- both names are written, and neither is this one
    · rw [setFile_contentAt, if_neg h.2, setFile_contentAt, if_neg h.1]
  | linkFile source target =>
    simp only [apply, linkFile]
    split
    · rfl
    · rfl
    · rw [relink_contentAt, setFile_contentAt]
      exact if_neg h
  | createItem f => simp only [apply, createItem]; split <;> rfl
  | appendItem f data => simp only [apply, appendItem]; split <;> rfl
  | renameItem source target => simp only [apply, renameItem]; split <;> rfl
  | removeItem f => simp only [apply, removeItem]; split <;> rfl
  | _ => rfl

theorem apply_outside (h : ∀ key, ¬ c.WritesFile key) : (w.apply c).2.outside = w.outside := by
  cases c with
  | removeFile k | createFile k node | appendFile k data | chmodFile k mode | chownFile k uid gid
  | linkFile source k => exact absurd rfl (h k)
  | renameNew source target => exact absurd (.inl rfl) (h source)
  | createItem f => simp only [apply, createItem]; split <;> rfl
  | appendItem f data => simp only [apply, appendItem]; split <;> rfl
  | renameItem source target => simp only [apply, renameItem]; split <;> rfl
  | removeItem f => simp only [apply, removeItem]; split <;> rfl
  | _ => rfl

/-- What looking at a file, and removing it, comes to. -/
theorem statFile_apply {key : FileKey} {node : FileNode} (h : w.outside key = some node) :
    w.apply (.statFile key) = (.ok (node.dev, node.ino), w) := by
  rw [apply, h]
  rfl

theorem removeFile_apply {key : FileKey} {node : FileNode} (h : w.outside key = some node) :
    w.apply (.removeFile key) = (.ok (), (w.setFile key none).relink node (· - 1)) := by
  rw [apply, removeFile, h]

end Disk

/-- Something is kept by a call in all its ways if it is kept by its whole, and by the whole of its parts. -/
theorem keeps_of_apply {P : StoreCall → Prop} {J : Disk → Prop} (hcut : ∀ c n, P c → P (c.cut n))
    (happly : ∀ c w, P c → J w → J (w.apply c).2) (c : StoreCall) (hc : P c) :
    Prog.Keeps storeSystem J c where
  torn n w hw := by
    change J (w.torn n c)
    rcases w.torn_cases n c with h | h
    · rwa [h]
    · rw [h]
      exact happly _ w (hcut c n hc) hw
  failed n w hw := by
    change J (w.failed n c)
    rcases w.failed_cases n c with h | h
    · rwa [h]
    · rw [h]
      exact happly _ w (hcut c n hc) hw
  apply w hw := happly c w hc hw

/-- The call is about the files of one item. -/
structure StoreCall.OfItem (id : QuarantineId) (c : StoreCall) : Prop where
  items : ∀ f, c.WritesItem f → f.id = id
  files : ∀ key, ¬ c.WritesFile key

/-- Nothing but files of the item and the audit log differs. -/
structure SameButItem (id : QuarantineId) (w w' : Disk) : Prop where
  outside : w'.outside = w.outside
  items : ∀ f : ItemFile, f.id ≠ id → w'.items.lookup f = w.items.lookup f

theorem keeps_sameButItem {id : QuarantineId} (w : Disk) (c : StoreCall) (hc : c.OfItem id) :
    Prog.Keeps storeSystem (SameButItem id w) c := by
  refine keeps_of_apply (P := StoreCall.OfItem id) ?_ ?_ c hc
  · intro c n hc
    exact ⟨fun f hf => hc.items f (StoreCall.cut_writesItem.mp hf),
      fun key hkey => hc.files key (StoreCall.cut_writesFile.mp hkey)⟩
  · intro c w' hc hw
    refine ⟨(Disk.apply_outside hc.files).trans hw.outside, fun f hf => ?_⟩
    rw [Disk.apply_items fun h => hf (hc.items f h), hw.items f hf]

/-- The call is about one file outside the store. -/
structure StoreCall.OfFile (key : FileKey) (c : StoreCall) : Prop where
  items : ∀ f, ¬ c.WritesItem f
  files : ∀ k, c.WritesFile k → k = key

/-- Nothing but the content of one file outside the store and the audit log differs. -/
structure SameButFile (key : FileKey) (w w' : Disk) : Prop where
  content : ∀ k, k ≠ key → w'.contentAt k = w.contentAt k
  items : ∀ f, w'.items.lookup f = w.items.lookup f

theorem keeps_sameButFile {key : FileKey} (w : Disk) (c : StoreCall) (hc : c.OfFile key) :
    Prog.Keeps storeSystem (SameButFile key w) c := by
  refine keeps_of_apply (P := StoreCall.OfFile key) ?_ ?_ c hc
  · intro c n hc
    exact ⟨fun f hf => hc.items f (StoreCall.cut_writesItem.mp hf),
      fun k hk => hc.files k (StoreCall.cut_writesFile.mp hk)⟩
  · intro c w' hc hw
    refine ⟨fun k hk => ?_, fun f => ?_⟩
    · rw [Disk.apply_contentAt fun h => hk (hc.files k h), hw.content k hk]
    · rw [Disk.apply_items (hc.items f), hw.items f]

theorem SameButItem.refl (id : QuarantineId) (w : Disk) : SameButItem id w w := ⟨rfl, fun _ _ => rfl⟩

theorem SameButFile.refl (key : FileKey) (w : Disk) : SameButFile key w w :=
  ⟨fun _ _ => rfl, fun _ => rfl⟩

end AbyssalWarden

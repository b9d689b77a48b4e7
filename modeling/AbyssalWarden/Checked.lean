import Mathlib

/-! Guard clauses. A function that checks its input one rule after the other, and returns at
the first rule that fails, is a chain of binds in `Except`; the lemmas here take such a chain
apart, so that a proof sees one hypothesis for each rule that passed. -/
namespace AbyssalWarden

variable {ε α β : Type}

/-- `if bad { return Err(e) }` -/
def refuseIf (bad : Prop) [Decidable bad] (e : ε) : Except ε Unit :=
  if bad then .error e else .ok ()

/-- `if let Some(a) = found { return Err(e(a)) }` -/
def refuseSome (found : Option α) (e : α → ε) : Except ε Unit :=
  match found with
  | some a => .error (e a)
  | none => .ok ()

@[simp] theorem refuseIf_eq_ok {bad : Prop} [Decidable bad] {e : ε} {u : Unit} :
    refuseIf bad e = .ok u ↔ ¬ bad := by
  unfold refuseIf
  split <;> simp [*]

@[simp] theorem refuseSome_eq_ok {found : Option α} {e : α → ε} {u : Unit} :
    refuseSome found e = .ok u ↔ found = none := by
  cases found <;> simp [refuseSome]

@[simp] theorem except_bind_eq_ok {x : Except ε α} {f : α → Except ε β} {b : β} :
    (x >>= f) = .ok b ↔ ∃ a, x = .ok a ∧ f a = .ok b := by
  cases x with
  | error e => simp [bind, Except.bind]
  | ok a => simp [bind, Except.bind]

theorem except_ok_bind {a : α} {f : α → Except ε β} : (.ok a >>= f) = f a := rfl

@[simp] theorem mapError_eq_ok {ε' : Type} {x : Except ε α} {f : ε → ε'} {a : α} :
    x.mapError f = .ok a ↔ x = .ok a := by
  cases x <;> simp [Except.mapError]

@[simp] theorem except_map_eq_ok {x : Except ε α} {f : α → β} {b : β} :
    x.map f = .ok b ↔ ∃ a, x = .ok a ∧ f a = b := by
  cases x <;> simp [Except.map]

/-- The checks of a list of items, each seeing what was recorded of the items before it. -/
def checkEach (check : β → α → Except ε β) : β → List α → Except ε β
  | acc, [] => .ok acc
  | acc, a :: rest => check acc a >>= fun acc' => checkEach check acc' rest

theorem checkEach_cons_eq_ok {check : β → α → Except ε β} {acc b : β} {a : α} {rest : List α} :
    checkEach check acc (a :: rest) = .ok b ↔
      ∃ acc', check acc a = .ok acc' ∧ checkEach check acc' rest = .ok b :=
  except_bind_eq_ok

/-- What an accepted item satisfies whatever came before it, all accepted items satisfy. -/
theorem checkEach_forall {check : β → α → Except ε β} {P : α → Prop}
    (hcheck : ∀ acc a acc', check acc a = .ok acc' → P a) {acc b : β} {as : List α}
    (h : checkEach check acc as = .ok b) : ∀ a ∈ as, P a := by
  induction as generalizing acc with
  | nil => simp
  | cons a rest ih =>
    obtain ⟨acc', ha, hrest⟩ := checkEach_cons_eq_ok.mp h
    intro x hx
    rcases List.mem_cons.mp hx with rfl | hx
    · exact hcheck acc x acc' ha
    · exact ih hrest x hx

/-- Where the acceptance of an item does not depend on the accumulator, that of a list does not. -/
theorem checkEach_accepts {check : β → α → Except ε β}
    (hcheck : ∀ acc a acc', check acc a = .ok acc' → ∀ other, ∃ other', check other a = .ok other')
    {acc b : β} {as : List α} (h : checkEach check acc as = .ok b) (other : β) :
    ∃ b', checkEach check other as = .ok b' := by
  induction as generalizing acc other with
  | nil => exact ⟨other, rfl⟩
  | cons a as ih =>
    obtain ⟨acc', ha, hrest⟩ := checkEach_cons_eq_ok.mp h
    obtain ⟨other', hother⟩ := hcheck acc a acc' ha other
    obtain ⟨b', hb'⟩ := ih hrest other'
    exact ⟨b', checkEach_cons_eq_ok.mpr ⟨other', hother, hb'⟩⟩

/-- An invariant of the accumulator survives the whole list. -/
theorem checkEach_invariant {check : β → α → Except ε β} {I : β → Prop}
    (hcheck : ∀ acc a acc', I acc → check acc a = .ok acc' → I acc') {acc b : β} {as : List α}
    (hacc : I acc) (h : checkEach check acc as = .ok b) : I b := by
  induction as generalizing acc with
  | nil =>
    cases h
    exact hacc
  | cons a rest ih =>
    obtain ⟨acc', ha, hrest⟩ := checkEach_cons_eq_ok.mp h
    exact ih (hcheck acc a acc' hacc ha) hrest

end AbyssalWarden

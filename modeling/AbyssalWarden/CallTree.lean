import Mathlib

/-! Programs as trees of calls. A program hands a call to a system and goes on with the answer. A call
may fail, and everything may stop in the middle of a call. The rules take a program apart call by call
into what holds after it and what holds wherever it may stop. -/
namespace AbyssalWarden

/-- A system with state `σ`: what its calls answer, and what they do. -/
structure System (σ E : Type) where
  Call : Type
  Answer : Call → Type
  apply : (c : Call) → σ → Except E (Answer c) × σ
  /-- What is left of a call that is stopped on its way; the number says how far it came. -/
  torn : Call → ℕ → σ → σ
  /-- What is left of a call that returns an error. -/
  failed : Call → ℕ → σ → σ

variable {σ E : Type} {S : System σ E} {ε ε' α β : Type}

inductive Prog (S : System σ E) (ε α : Type) where
  | ret (a : α)
  | throw (e : ε)
  | call (c : S.Call) (next : Except E (S.Answer c) → Prog S ε α)

namespace Prog

def bind : Prog S ε α → (α → Prog S ε β) → Prog S ε β
  | ret a, f => f a
  | throw e, _ => throw e
  | call c next, f => call c fun r => (next r).bind f

instance : Monad (Prog S ε) where
  pure := ret
  bind := bind

/-- `result?` -/
def ofExcept : Except ε α → Prog S ε α
  | .ok a => ret a
  | .error e => throw e

/-- A call whose error is returned, as `onError` words it. -/
def request (c : S.Call) (onError : E → ε) : Prog S ε (S.Answer c) :=
  call c fun r => ofExcept (r.mapError onError)

/-- A call whose error is looked at. -/
def ask (c : S.Call) : Prog S ε (Except E (S.Answer c)) := call c ret

/-- `let _ = call` -/
def ignore (c : S.Call) : Prog S ε Unit := call c fun _ => ret ()

/-- The result of a program, whether it is an error or not. -/
def attempt : Prog S ε α → Prog S ε' (Except ε α)
  | ret a => ret (.ok a)
  | throw e => ret (.error e)
  | call c next => call c fun r => (next r).attempt

/-- `p`, with `cleanup` before its error is returned. -/
def orCleanup (p : Prog S ε α) (cleanup : Prog S ε Unit) : Prog S ε α :=
  p.attempt.bind fun r => match r with
    | .ok a => ret a
    | .error e => cleanup.bind fun _ => throw e

/-- A program for each item of a list, one after the other. -/
def forEach (f : β → α → Prog S ε β) : β → List α → Prog S ε β
  | b, [] => ret b
  | b, a :: as => (f b a).bind fun b => forEach f b as

end Prog

/-- What happens to one call. -/
inductive Fault (E : Type) where
  | none
  | fails (e : E) (reached : ℕ)
  | stops (reached : ℕ)

inductive Outcome (ε α : Type) where
  | ok (a : α)
  | error (e : ε)
  | stopped

/-- Runs a program, its calls meeting the faults in turn. Only calls of `mayFail` fail. -/
def Prog.run (mayFail : S.Call → Bool) : Prog S ε α → List (Fault E) → σ → Outcome ε α × σ
  | ret a, _, s => (.ok a, s)
  | throw e, _, s => (.error e, s)
  | call c next, [], s => (next (S.apply c s).1).run mayFail [] (S.apply c s).2
  | call c next, f :: faults, s =>
    match f with
    | .none => (next (S.apply c s).1).run mayFail faults (S.apply c s).2
    | .fails e n =>
      if mayFail c then (next (.error e)).run mayFail faults (S.failed c n s)
      else (next (S.apply c s).1).run mayFail faults (S.apply c s).2
    | .stops n => (.stopped, S.torn c n s)

/-- The conditions at the end of a run. -/
def Outcome.Ends (stop : σ → Prop) (err : ε → σ → Prop) (post : α → σ → Prop) :
    Outcome ε α × σ → Prop
  | (.ok a, s) => post a s
  | (.error e, s) => err e s
  | (.stopped, s) => stop s

/-- Whatever the faults: `stop` holds where the program stops, `err` where it returns an error and
`post` where it returns a value. -/
def Prog.Meets (mayFail : S.Call → Bool) (stop : σ → Prop) :
    Prog S ε α → (ε → σ → Prop) → (α → σ → Prop) → σ → Prop
  | ret a, _, post, s => post a s
  | throw e, err, _, s => err e s
  | call c next, err, post, s => (∀ n, stop (S.torn c n s)) ∧
      (mayFail c = true → ∀ e n, (next (.error e)).Meets mayFail stop err post (S.failed c n s)) ∧
      (next (S.apply c s).1).Meets mayFail stop err post (S.apply c s).2

/-- What holds where the program returns a value. -/
def Prog.Returns (mayFail : S.Call → Bool) (p : Prog S ε α) (post : α → σ → Prop) (s : σ) : Prop :=
  p.Meets mayFail (fun _ => True) (fun _ _ => True) post s

namespace Prog

variable {mayFail : S.Call → Bool} {stop stop' : σ → Prop} {err err₁ : ε → σ → Prop}
  {err' : ε' → σ → Prop} {post post₁ : α → σ → Prop} {post' : β → σ → Prop} {s : σ}

/-- Every run ends in a state that the conditions allow. -/
theorem run_ends {p : Prog S ε α} (h : p.Meets mayFail stop err post s) (faults : List (Fault E)) :
    Outcome.Ends stop err post (p.run mayFail faults s) := by
  induction p generalizing s faults with
  | ret a => exact h
  | throw e => exact h
  | call c next ih =>
    obtain ⟨hstop, hfail, hnext⟩ := h
    cases faults with
    | nil => exact ih _ hnext []
    | cons f faults =>
      cases f with
      | none => exact ih _ hnext faults
      | fails e n =>
        rw [run]
        by_cases hc : mayFail c = true
        · rw [if_pos hc]
          exact ih _ (hfail hc e n) faults
        · rw [if_neg hc]
          exact ih _ hnext faults
      | stops n => exact hstop n

/-- Without faults a program that returns no error returns a value. -/
theorem Meets.run_nil {p : Prog S ε α} (h : p.Meets mayFail stop (fun _ _ => False) post s) :
    ∃ a s', p.run mayFail [] s = (.ok a, s') ∧ post a s' := by
  induction p generalizing s with
  | ret a => exact ⟨a, s, rfl, h⟩
  | throw e => exact h.elim
  | call c next ih => exact ih _ h.2.2

/-- The order in which programs are put together does not matter. -/
theorem bind_assoc {γ : Type} (p : Prog S ε α) (f : α → Prog S ε β) (g : β → Prog S ε γ) :
    (p.bind f).bind g = p.bind fun a => (f a).bind g := by
  induction p with
  | ret a => rfl
  | throw e => rfl
  | call c next ih => simp only [bind, ih]

@[simp] theorem meets_ret {a : α} : (ret a : Prog S ε α).Meets mayFail stop err post s ↔ post a s :=
  Iff.rfl

@[simp] theorem meets_pure {a : α} :
    (pure a : Prog S ε α).Meets mayFail stop err post s ↔ post a s :=
  Iff.rfl

@[simp] theorem meets_throw {e : ε} :
    (throw e : Prog S ε α).Meets mayFail stop err post s ↔ err e s :=
  Iff.rfl

theorem meets_bind {p : Prog S ε α} {f : α → Prog S ε β} :
    (p.bind f).Meets mayFail stop err post' s ↔
      p.Meets mayFail stop err (fun a s => (f a).Meets mayFail stop err post' s) s := by
  induction p generalizing s with
  | ret a => exact Iff.rfl
  | throw e => exact Iff.rfl
  | call c next ih => simp only [bind, Meets, ih]

@[simp] theorem meets_monad_bind {p : Prog S ε α} {f : α → Prog S ε β} :
    (p >>= f).Meets mayFail stop err post' s ↔
      p.Meets mayFail stop err (fun a s => (f a).Meets mayFail stop err post' s) s :=
  meets_bind

@[simp] theorem meets_attempt {p : Prog S ε α} {post'' : Except ε α → σ → Prop} :
    (p.attempt : Prog S ε' (Except ε α)).Meets mayFail stop err' post'' s ↔
      p.Meets mayFail stop (fun e => post'' (.error e)) (fun a => post'' (.ok a)) s := by
  induction p generalizing s with
  | ret a => exact Iff.rfl
  | throw e => exact Iff.rfl
  | call c next ih => simp only [attempt, Meets, ih]

theorem Meets.mono {p : Prog S ε α} (h : p.Meets mayFail stop err post s)
    (hstop : ∀ s, stop s → stop' s) (herr : ∀ e s, err e s → err₁ e s)
    (hpost : ∀ a s, post a s → post₁ a s) : p.Meets mayFail stop' err₁ post₁ s := by
  induction p generalizing s with
  | ret a => exact hpost a s h
  | throw e => exact herr e s h
  | call c next ih =>
    obtain ⟨hs, hfail, hnext⟩ := h
    exact ⟨fun n => hstop _ (hs n), fun hc e n => ih _ (hfail hc e n), ih _ hnext⟩

theorem Meets.and {p : Prog S ε α} (h : p.Meets mayFail stop err post s)
    (h' : p.Meets mayFail stop' err₁ post₁ s) :
    p.Meets mayFail (fun s => stop s ∧ stop' s) (fun e s => err e s ∧ err₁ e s)
      (fun a s => post a s ∧ post₁ a s) s := by
  induction p generalizing s with
  | ret a => exact ⟨h, h'⟩
  | throw e => exact ⟨h, h'⟩
  | call c next ih =>
    obtain ⟨hs, hfail, hnext⟩ := h
    obtain ⟨hs', hfail', hnext'⟩ := h'
    exact ⟨fun n => ⟨hs n, hs' n⟩, fun hc e n => ih _ (hfail hc e n) (hfail' hc e n),
      ih _ hnext hnext'⟩

@[simp] theorem meets_ofExcept {r : Except ε α} :
    (ofExcept r : Prog S ε α).Meets mayFail stop err post s ↔
      (∀ a, r = .ok a → post a s) ∧ ∀ e, r = .error e → err e s := by
  cases r <;> simp [ofExcept]

/-- One call, by what it can come to. -/
theorem meets_request {c : S.Call} {onError : E → ε} {post : S.Answer c → σ → Prop}
    (hstop : ∀ n, stop (S.torn c n s))
    (hfail : mayFail c = true → ∀ e n, err (onError e) (S.failed c n s))
    (herror : ∀ e, (S.apply c s).1 = .error e → err (onError e) (S.apply c s).2)
    (hok : ∀ a, (S.apply c s).1 = .ok a → post a (S.apply c s).2) :
    (request c onError).Meets mayFail stop err post s := by
  refine ⟨hstop, hfail, ?_⟩
  cases h : (S.apply c s).1 with
  | error e => exact herror e h
  | ok a => exact hok a h

theorem Returns.bind {p : Prog S ε α} {f : α → Prog S ε β}
    (h : p.Returns mayFail (fun a s => (f a).Returns mayFail post' s) s) :
    (p >>= f).Returns mayFail post' s :=
  meets_bind.mpr h

theorem returns_request {c : S.Call} {onError : E → ε} {post : S.Answer c → σ → Prop}
    (h : ∀ a s', S.apply c s = (.ok a, s') → post a s') :
    (request c onError).Returns mayFail post s :=
  meets_request (fun _ => trivial) (fun _ _ _ => trivial) (fun _ _ => trivial)
    fun a ha => h a _ (Prod.ext ha rfl)

theorem returns_ofExcept {r : Except ε α} (h : ∀ a, r = .ok a → post a s) :
    (ofExcept r : Prog S ε α).Returns mayFail post s :=
  meets_ofExcept.mpr ⟨h, fun _ _ => trivial⟩

theorem Returns.mono {p : Prog S ε α} (h : p.Returns mayFail post s)
    (hpost : ∀ a s, post a s → post₁ a s) : p.Returns mayFail post₁ s :=
  Meets.mono h (fun _ h => h) (fun _ _ h => h) hpost

/-- What is known of a value holds of the one a run returns. -/
theorem Returns.of_run {p : Prog S ε α} {faults : List (Fault E)} {a : α} {s' : σ}
    (h : p.Returns mayFail post s) (hrun : p.run mayFail faults s = (.ok a, s')) : post a s' := by
  have hends := run_ends h faults
  rw [hrun] at hends
  exact hends

theorem returns_forEach {f : β → α → Prog S ε β} {I : β → List α → σ → Prop} {b : β}
    {as : List α}
    (hf : ∀ b a as s, I b (a :: as) s → (f b a).Returns mayFail (fun b s => I b as s) s)
    (hs : I b as s) : (forEach f b as).Returns mayFail (fun b s => I b [] s) s := by
  induction as generalizing b s with
  | nil => exact hs
  | cons a as ih => exact meets_bind.mpr ((hf b a as s hs).mono fun _ _ h => ih h)

/-! ### Programs that leave something alone -/

/-- Every call of the program satisfies `P`. -/
def Calls (P : S.Call → Prop) : Prog S ε α → Prop
  | ret _ => True
  | throw _ => True
  | call c next => P c ∧ ∀ r, (next r).Calls P

/-- The call keeps `J`, however far it comes. -/
structure Keeps (S : System σ E) (J : σ → Prop) (c : S.Call) : Prop where
  torn : ∀ n s, J s → J (S.torn c n s)
  failed : ∀ n s, J s → J (S.failed c n s)
  apply : ∀ s, J s → J (S.apply c s).2

variable {P : S.Call → Prop} {J : σ → Prop}

/-- A call that keeps `J`, whatever it answers. -/
theorem meets_ask {c : S.Call} {post : Except E (S.Answer c) → σ → Prop} (hJ : Keeps S J c) (hs : J s)
    (hstop : ∀ s, J s → stop s) (hfail : mayFail c = true → ∀ e s, J s → post (.error e) s)
    (hok : ∀ r s', S.apply c s = (r, s') → J s' → post r s') :
    (ask c : Prog S ε _).Meets mayFail stop err post s :=
  ⟨fun n => hstop _ (hJ.torn n s hs), fun hm e n => hfail hm e _ (hJ.failed n s hs),
    hok _ _ rfl (hJ.apply s hs)⟩

theorem ask_returns {c : S.Call} : (ask c : Prog S ε _).Returns mayFail
    (fun r s' => S.apply c s = (r, s') ∨ ∃ e, r = .error e) s :=
  ⟨fun _ => trivial, fun _ e _ => .inr ⟨e, rfl⟩, .inl rfl⟩

theorem meets_ignore {c : S.Call} {post : Unit → σ → Prop} (hJ : Keeps S J c) (hs : J s)
    (hstop : ∀ s, J s → stop s) (hpost : ∀ s, J s → post () s) :
    (ignore c : Prog S ε Unit).Meets mayFail stop err post s :=
  ⟨fun n => hstop _ (hJ.torn n s hs), fun _ _ n => hpost _ (hJ.failed n s hs), hpost _ (hJ.apply s hs)⟩

theorem Keeps.and {J J' : σ → Prop} {c : S.Call} (h : Keeps S J c) (h' : Keeps S J' c) :
    Keeps S (fun s => J s ∧ J' s) c where
  torn n s hs := ⟨h.torn n s hs.1, h'.torn n s hs.2⟩
  failed n s hs := ⟨h.failed n s hs.1, h'.failed n s hs.2⟩
  apply s hs := ⟨h.apply s hs.1, h'.apply s hs.2⟩

/-- A call whose answer is looked at, by all it can come to. -/
theorem meets_ask_bind {c : S.Call} {f : Except E (S.Answer c) → Prog S ε β}
    (hstop : ∀ n, stop (S.torn c n s))
    (hfail : mayFail c = true → ∀ e n, (f (.error e)).Meets mayFail stop err post' (S.failed c n s))
    (happly : ∀ r s', S.apply c s = (r, s') → (f r).Meets mayFail stop err post' s') :
    (ask c >>= f).Meets mayFail stop err post' s :=
  ⟨hstop, hfail, happly _ _ rfl⟩

/-- A call that keeps `J` and has no error of its own. -/
theorem meets_keeping {c : S.Call} {onError : E → ε} {post : S.Answer c → σ → Prop}
    (hJ : Keeps S J c) (hs : J s) (hstop : ∀ s, J s → stop s)
    (hfail : mayFail c = true → ∀ e s, J s → err (onError e) s)
    (hnever : ∀ e, (S.apply c s).1 ≠ .error e)
    (hok : ∀ a s', S.apply c s = (.ok a, s') → J s' → post a s') :
    (request c onError).Meets mayFail stop err post s :=
  meets_request (fun n => hstop _ (hJ.torn n s hs)) (fun hm e n => hfail hm e _ (hJ.failed n s hs))
    (fun e h => absurd h (hnever e)) (fun a h => hok a _ (Prod.ext h rfl) (hJ.apply s hs))

theorem Calls.bind {p : Prog S ε α} {f : α → Prog S ε β} (hp : p.Calls P)
    (hf : ∀ a, (f a).Calls P) : (p.bind f).Calls P := by
  induction p with
  | ret a => exact hf a
  | throw e => trivial
  | call c next ih => exact ⟨hp.1, fun r => ih r (hp.2 r)⟩

theorem Calls.ofExcept (r : Except ε α) : (ofExcept r : Prog S ε α).Calls P := by
  cases r <;> trivial

theorem Calls.request {c : S.Call} {onError : E → ε} (hc : P c) : (request c onError).Calls P :=
  ⟨hc, fun _ => Calls.ofExcept _⟩

theorem Calls.ignore {c : S.Call} (hc : P c) : (ignore c : Prog S ε Unit).Calls P :=
  ⟨hc, fun _ => trivial⟩

theorem Calls.ask {c : S.Call} (hc : P c) : (ask c : Prog S ε _).Calls P :=
  ⟨hc, fun _ => trivial⟩

theorem Calls.mono {Q : S.Call → Prop} {p : Prog S ε α} (hp : p.Calls P) (h : ∀ c, P c → Q c) :
    p.Calls Q := by
  induction p with
  | ret a => trivial
  | throw e => trivial
  | call c next ih => exact ⟨h c hp.1, fun r => ih r (hp.2 r)⟩

theorem Calls.attempt {p : Prog S ε α} (hp : p.Calls P) :
    (p.attempt : Prog S ε' (Except ε α)).Calls P := by
  induction p with
  | ret a => trivial
  | throw e => trivial
  | call c next ih => exact ⟨hp.1, fun r => ih r (hp.2 r)⟩

theorem Calls.orCleanup {p : Prog S ε α} {cleanup : Prog S ε Unit} (hp : p.Calls P)
    (hcleanup : cleanup.Calls P) : (p.orCleanup cleanup).Calls P := by
  refine hp.attempt.bind fun r => ?_
  cases r with
  | ok a => trivial
  | error e => exact hcleanup.bind fun _ => trivial

theorem Calls.forEach {f : β → α → Prog S ε β} (hf : ∀ b a, (f b a).Calls P) (b : β) (as : List α) :
    (forEach f b as).Calls P := by
  induction as generalizing b with
  | nil => trivial
  | cons a as ih => exact (hf b a).bind ih

/-- A program whose calls keep `J` keeps it. -/
theorem Calls.meets {p : Prog S ε α} (hp : p.Calls P) (hJ : ∀ c, P c → Keeps S J c) (hs : J s) :
    p.Meets mayFail J (fun _ => J) (fun _ => J) s := by
  induction p generalizing s with
  | ret a => exact hs
  | throw e => exact hs
  | call c next ih =>
    have hc := hJ c hp.1
    exact ⟨fun n => hc.torn n s hs, fun _ e n => ih _ (hp.2 _) (hc.failed n s hs),
      ih _ (hp.2 _) (hc.apply s hs)⟩

/-- However a run ends, it keeps what its calls keep. -/
theorem Calls.run_keeps {p : Prog S ε α} {faults : List (Fault E)} (hp : p.Calls P) (hJ : ∀ c, P c → Keeps S J c)
    (hs : J s) : J (p.run mayFail faults s).2 := by
  have hmeets : p.Meets mayFail J (fun _ => J) (fun _ => J) s := hp.meets hJ hs
  have hends := run_ends hmeets faults
  generalize p.run mayFail faults s = ended at hends ⊢
  obtain ⟨outcome, s'⟩ := ended
  cases outcome <;> exact hends

/-- What is known of a program's result, with what its calls keep. -/
theorem Calls.meets_and {p : Prog S ε α} (hp : p.Calls P) (hJ : ∀ c, P c → Keeps S J c) (hs : J s)
    (h : p.Returns mayFail post s) :
    p.Meets mayFail J (fun _ => J) (fun a s => J s ∧ post a s) s :=
  ((hp.meets hJ hs).and h).mono (fun _ h => h.1) (fun _ _ h => h.1) (fun _ _ h => h)

theorem calls_true (p : Prog S ε α) : p.Calls fun _ => True := by
  induction p with
  | ret a => trivial
  | throw e => trivial
  | call c next ih => exact ⟨trivial, ih⟩

/-- A program that ends in an error returns nothing. -/
theorem returns_bind_throw (p : Prog S ε β) (e : ε) :
    (p >>= fun _ => throw e : Prog S ε α).Returns mayFail post s := by
  refine meets_bind.mpr ?_
  exact p.calls_true.meets (J := fun _ => True) (fun _ _ => ⟨fun _ _ _ => trivial, fun _ _ _ => trivial,
    fun _ _ => trivial⟩) trivial

theorem Returns.orCleanup {p : Prog S ε α} (h : p.Returns mayFail post s) (cleanup : Prog S ε Unit) :
    (p.orCleanup cleanup).Returns mayFail post s := by
  unfold Prog.orCleanup
  refine meets_bind.mpr (meets_attempt.mpr ?_)
  exact Meets.mono h (fun _ h => h) (fun e _ _ => returns_bind_throw cleanup e) fun _ _ h => h

/-- An invariant of the loop. -/
theorem meets_forEach {f : β → α → Prog S ε β} {I : β → List α → σ → Prop} {b : β} {as : List α}
    (hf : ∀ b a as s, I b (a :: as) s →
      (f b a).Meets mayFail stop err (fun b s => I b as s) s)
    (hs : I b as s) : (forEach f b as).Meets mayFail stop err (fun b s => I b [] s) s := by
  induction as generalizing b s with
  | nil => exact hs
  | cons a as ih =>
    rw [forEach, meets_bind]
    exact (hf b a as s hs).mono (fun _ h => h) (fun _ _ h => h) (fun _ _ h => ih h)

/-! ### Programs that keep something -/

/-- The program keeps `J`, however it ends. -/
def Preserves (mayFail : S.Call → Bool) (J : σ → Prop) (p : Prog S ε α) : Prop :=
  ∀ s, J s → p.Meets mayFail J (fun _ => J) (fun _ => J) s

theorem Calls.preserves {P : S.Call → Prop} {p : Prog S ε α} (hp : p.Calls P) (hJ : ∀ c, P c → Keeps S J c) :
    p.Preserves mayFail J := fun _ hs => hp.meets hJ hs

theorem Preserves.throw (e : ε) : (throw e : Prog S ε α).Preserves mayFail J := fun _ hs => hs

theorem Preserves.ret (a : α) : (ret a : Prog S ε α).Preserves mayFail J := fun _ hs => hs

theorem Preserves.ofExcept (r : Except ε α) : (ofExcept r : Prog S ε α).Preserves mayFail J :=
  fun _ hs => meets_ofExcept.mpr ⟨fun _ _ => hs, fun _ _ => hs⟩

theorem Preserves.bind {p : Prog S ε α} {f : α → Prog S ε β} (hp : p.Preserves mayFail J)
    (hf : ∀ a, (f a).Preserves mayFail J) : (p.bind f).Preserves mayFail J :=
  fun s hs => meets_bind.mpr ((hp s hs).mono (fun _ h => h) (fun _ _ h => h) fun a s' hs' => hf a s' hs')

theorem Preserves.attempt {p : Prog S ε α} (hp : p.Preserves mayFail J) :
    (p.attempt : Prog S ε' (Except ε α)).Preserves mayFail J :=
  fun s hs => meets_attempt.mpr (hp s hs)

/-- However a run ends, it keeps what the program preserves. -/
theorem Preserves.run {p : Prog S ε α} {s : σ} (hp : p.Preserves mayFail J) (hs : J s) (faults : List (Fault E)) :
    J (p.run mayFail faults s).2 := by
  have hends := run_ends (hp s hs) faults
  generalize p.run mayFail faults s = ended at hends ⊢
  obtain ⟨outcome, s'⟩ := ended
  cases outcome <;> exact hends

end Prog

end AbyssalWarden

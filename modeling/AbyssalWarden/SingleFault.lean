import AbyssalWarden.CallTrace

/-! A program one of whose calls fails, or in one of whose calls everything stops. The rules take the program
apart call by call into what it comes to when that happens and nothing else does. -/
namespace AbyssalWarden

variable {σ E : Type} {S : System σ E} {ε ε' α β : Type}

/-- The faults of a run in which one call fails. -/
def failsAt (k : ℕ) (e : E) (reached : ℕ) : List (Fault E) :=
  List.replicate k .none ++ [.fails e reached]

/-- The faults of a run that stops in one call. -/
def stopsAt (k : ℕ) (reached : ℕ) : List (Fault E) := List.replicate k .none ++ [.stops reached]

namespace Prog

/-- Whichever call of the run fails, `Q` holds of it and of what the program comes to. -/
def FailsOnce (mayFail : S.Call → Bool) (Q : S.Call → Outcome ε α × σ → Prop) : Prog S ε α → σ → Prop
  | ret _, _ => True
  | throw _, _ => True
  | call c next, s =>
    (mayFail c = true → ∀ e n, Q c ((next (.error e)).run mayFail [] (S.failed c n s))) ∧
      (next (S.apply c s).1).FailsOnce mayFail Q (S.apply c s).2

/-- How the rest of a program goes on with what its first part came to. -/
def goOn (mayFail : S.Call → Bool) (f : α → Prog S ε β) : Outcome ε α × σ → Outcome ε β × σ
  | (.ok a, s) => (f a).run mayFail [] s
  | (.error e, s) => (.error e, s)
  | (.stopped, s) => (.stopped, s)

/-- What `attempt` makes of an outcome. -/
def attempted : Outcome ε α × σ → Outcome ε' (Except ε α) × σ
  | (.ok a, s) => (.ok (.ok a), s)
  | (.error e, s) => (.ok (.error e), s)
  | (.stopped, s) => (.stopped, s)

variable {mayFail : S.Call → Bool} {Q Q' : S.Call → Outcome ε α × σ → Prop} {s : σ}

/-- What is known of every failing call holds of each run with one failing call. -/
theorem FailsOnce.run {p : Prog S ε α} (h : p.FailsOnce mayFail Q s) {k : ℕ} {st : Step S}
    (hst : (p.trace mayFail [] s)[k]? = some st) (hmay : mayFail st.call = true) (e : E) (n : ℕ) :
    Q st.call (p.run mayFail (failsAt k e n) s) := by
  induction p generalizing k s with
  | ret a => cases hst
  | throw e' => cases hst
  | call c next ih =>
    obtain ⟨hfail, hnext⟩ := h
    cases k with
    | zero =>
      cases hst
      change Q c (if mayFail c then _ else _)
      rw [if_pos hmay]
      exact hfail hmay e n
    | succ k => exact ih _ hnext hst

/-- The failing call is the last fault of the run. -/
theorem left_failsAt {p : Prog S ε α} {k : ℕ} {st : Step S} (hst : (p.trace mayFail [] s)[k]? = some st)
    (hmay : mayFail st.call = true) (e : E) (n : ℕ) : p.left mayFail (failsAt k e n) s = [] := by
  induction p generalizing k s with
  | ret a => cases hst
  | throw e' => cases hst
  | call c next ih =>
    cases k with
    | zero =>
      cases hst
      change List.drop (List.length (if mayFail c then _ else _)) _ = _
      rw [if_pos hmay]
      exact List.drop_eq_nil_of_le (by simp [failsAt])
    | succ k => exact ih _ hst

theorem FailsOnce.mono {p : Prog S ε α} (h : p.FailsOnce mayFail Q s) (hQ : ∀ c r, Q c r → Q' c r) :
    p.FailsOnce mayFail Q' s := by
  induction p generalizing s with
  | ret a => trivial
  | throw e => trivial
  | call c next ih => exact ⟨fun hmay e n => hQ c _ (h.1 hmay e n), ih _ h.2⟩

/-- Without faults it does not matter which calls may fail. -/
theorem run_nil_congr (mayFail mayFail' : S.Call → Bool) (p : Prog S ε α) :
    p.run mayFail [] s = p.run mayFail' [] s := by
  induction p generalizing s with
  | ret a => rfl
  | throw e => rfl
  | call c next ih => exact ih _

/-- What holds anyway holds of every value that is returned. -/
theorem returns_const {C : Prop} (h : C) (p : Prog S ε α) : p.Returns mayFail (fun _ _ => C) s := by
  have hkeeps (c : S.Call) (_ : True) : Keeps S (fun _ : σ => C) c := ⟨fun _ _ h => h, fun _ _ h => h, fun _ h => h⟩
  exact (p.calls_true.meets hkeeps h).mono (fun _ _ => trivial) (fun _ _ _ => trivial) fun _ _ h => h

/-- What holds wherever the last part returns. -/
theorem returns_of_last {p : Prog S ε α} {f : α → Prog S ε β} {post : β → σ → Prop}
    (h : ∀ a s, (f a).Returns mayFail post s) : (p >>= f).Returns mayFail post s :=
  Returns.bind ((returns_const trivial p).mono fun a s _ => h a s)

/-! ### Programs put together -/

theorem run_nil_bind {p : Prog S ε α} {f : α → Prog S ε β} :
    (p.bind f).run mayFail [] s = goOn mayFail f (p.run mayFail [] s) := by
  induction p generalizing s with
  | ret a => rfl
  | throw e => rfl
  | call c next ih => exact ih _

theorem run_nil_request_bind {c : S.Call} {onError : E → ε} {f : S.Answer c → Prog S ε β} {a : S.Answer c} {s' : σ}
    (happly : S.apply c s = (.ok a, s')) :
    ((request c onError).bind f).run mayFail [] s = (f a).run mayFail [] s' := by
  change ((ofExcept ((S.apply c s).1.mapError onError)).bind f).run mayFail [] (S.apply c s).2 = _
  rw [happly]
  rfl

theorem failsOnce_bind {p : Prog S ε α} {f : α → Prog S ε β} {Q : S.Call → Outcome ε β × σ → Prop}
    (hp : p.FailsOnce mayFail (fun c r => Q c (goOn mayFail f r)) s)
    (hf : ∀ a s', p.run mayFail [] s = (.ok a, s') → (f a).FailsOnce mayFail Q s') :
    (p.bind f).FailsOnce mayFail Q s := by
  induction p generalizing s with
  | ret a => exact hf a s rfl
  | throw e => trivial
  | call c next ih =>
    refine ⟨fun hmay e n => ?_, ih _ hp.2 hf⟩
    rw [run_nil_bind]
    exact hp.1 hmay e n

theorem run_nil_attempt {p : Prog S ε α} :
    (p.attempt : Prog S ε' (Except ε α)).run mayFail [] s = attempted (p.run mayFail [] s) := by
  induction p generalizing s with
  | ret a => rfl
  | throw e => rfl
  | call c next ih => exact ih _

theorem failsOnce_attempt {p : Prog S ε α} {Q : S.Call → Outcome ε' (Except ε α) × σ → Prop}
    (hp : p.FailsOnce mayFail (fun c r => Q c (attempted r)) s) :
    (p.attempt : Prog S ε' (Except ε α)).FailsOnce mayFail Q s := by
  induction p generalizing s with
  | ret a => trivial
  | throw e => trivial
  | call c next ih =>
    refine ⟨fun hmay e n => ?_, ih _ hp.2⟩
    rw [run_nil_attempt]
    exact hp.1 hmay e n

theorem failsOnce_request_bind {c : S.Call} {onError : E → ε} {f : S.Answer c → Prog S ε β}
    {Q : S.Call → Outcome ε β × σ → Prop}
    (hfail : ∀ e n, Q c (.error (onError e), S.failed c n s))
    (hok : ∀ a s', S.apply c s = (.ok a, s') → (f a).FailsOnce mayFail Q s') :
    ((request c onError).bind f).FailsOnce mayFail Q s := by
  refine ⟨fun _ => hfail, ?_⟩
  cases h : (S.apply c s).1 with
  | error e => trivial
  | ok a => exact hok a _ (Prod.ext h rfl)

theorem failsOnce_ask_bind {c : S.Call} {f : Except E (S.Answer c) → Prog S ε β}
    {Q : S.Call → Outcome ε β × σ → Prop}
    (hfail : ∀ e n, Q c ((f (.error e)).run mayFail [] (S.failed c n s)))
    (happly : ∀ r s', S.apply c s = (r, s') → (f r).FailsOnce mayFail Q s') :
    ((ask c).bind f).FailsOnce mayFail Q s :=
  ⟨fun _ => hfail, happly _ _ rfl⟩

/-! ### Programs that are stopped -/

/-- In whichever call of the run everything stops, and however far the call came, `R` holds of what is left;
and of a run that is not stopped `err` or `post` holds in the end. -/
def Stops (R : S.Call → ℕ → σ → Prop) : Prog S ε α → (ε → σ → Prop) → (α → σ → Prop) → σ → Prop
  | ret a, _, post, s => post a s
  | throw e, err, _, s => err e s
  | call c next, err, post, s =>
    (∀ n, R c n (S.torn c n s)) ∧ (next (S.apply c s).1).Stops R err post (S.apply c s).2

variable {R : S.Call → ℕ → σ → Prop} {err err₁ : ε → σ → Prop} {err' : ε' → σ → Prop} {post post₁ : α → σ → Prop}

theorem Stops.run {p : Prog S ε α} (h : p.Stops R err post s) {k : ℕ} {st : Step S}
    (hst : (p.trace mayFail [] s)[k]? = some st) (n : ℕ) : R st.call n (p.run mayFail (stopsAt k n) s).2 := by
  induction p generalizing k s with
  | ret a => cases hst
  | throw e' => cases hst
  | call c next ih =>
    cases k with
    | zero =>
      cases hst
      exact h.1 n
    | succ k => exact ih _ h.2 hst

theorem Stops.mono {p : Prog S ε α} (h : p.Stops R err post s) (herr : ∀ e s', err e s' → err₁ e s')
    (hpost : ∀ a s', post a s' → post₁ a s') : p.Stops R err₁ post₁ s := by
  induction p generalizing s with
  | ret a => exact hpost a s h
  | throw e => exact herr e s h
  | call c next ih => exact ⟨h.1, ih _ h.2⟩

theorem stops_bind {p : Prog S ε α} {f : α → Prog S ε β} {post' : β → σ → Prop} :
    (p.bind f).Stops R err post' s ↔ p.Stops R err (fun a s' => (f a).Stops R err post' s') s := by
  induction p generalizing s with
  | ret a => exact Iff.rfl
  | throw e => exact Iff.rfl
  | call c next ih => exact and_congr_right fun _ => ih _

theorem stops_attempt {p : Prog S ε α} {post' : Except ε α → σ → Prop} :
    (p.attempt : Prog S ε' (Except ε α)).Stops R err' post' s ↔
      p.Stops R (fun e => post' (.error e)) (fun a => post' (.ok a)) s := by
  induction p generalizing s with
  | ret a => exact Iff.rfl
  | throw e => exact Iff.rfl
  | call c next ih => exact and_congr_right fun _ => ih _

theorem Stops.orCleanup {p : Prog S ε α} (h : p.Stops R (fun _ _ => False) post s) (cleanup : Prog S ε Unit) :
    (p.orCleanup cleanup).Stops R err post s :=
  stops_bind.mpr (stops_attempt.mpr (h.mono (fun _ _ h => h.elim) fun _ _ h => h))

theorem stops_request_bind {c : S.Call} {onError : E → ε} {f : S.Answer c → Prog S ε β} {post' : β → σ → Prop}
    (hstop : ∀ n, R c n (S.torn c n s)) (herr : ∀ e s', S.apply c s = (.error e, s') → err (onError e) s')
    (hok : ∀ a s', S.apply c s = (.ok a, s') → (f a).Stops R err post' s') :
    ((request c onError).bind f).Stops R err post' s := by
  refine ⟨hstop, ?_⟩
  cases h : (S.apply c s).1 with
  | error e => exact herr e _ (Prod.ext h rfl)
  | ok a => exact hok a _ (Prod.ext h rfl)

theorem stops_ask_bind {c : S.Call} {f : Except E (S.Answer c) → Prog S ε β} {post' : β → σ → Prop}
    (hstop : ∀ n, R c n (S.torn c n s)) (happly : ∀ r s', S.apply c s = (r, s') → (f r).Stops R err post' s') :
    ((ask c).bind f).Stops R err post' s :=
  ⟨hstop, happly _ _ rfl⟩

/-- A run that nothing disturbs, by how it ends. -/
theorem Stops.outcome {p : Prog S ε α} (h : p.Stops R err post s) (mayFail : S.Call → Bool) :
    (∃ a s', p.run mayFail [] s = (.ok a, s') ∧ post a s') ∨ ∃ e s', p.run mayFail [] s = (.error e, s') ∧ err e s' := by
  induction p generalizing s with
  | ret a => exact .inl ⟨a, s, rfl, h⟩
  | throw e => exact .inr ⟨e, s, rfl, h⟩
  | call c next ih => exact ih _ h.2

/-! ### Programs that give up at the first error -/

/-- An error of a call is the program's. -/
def Strict : Prog S ε α → Prop
  | ret _ => True
  | throw _ => True
  | call _ next => (∀ e, ∃ e', next (.error e) = throw e') ∧ ∀ r, (next r).Strict

theorem Strict.bind {p : Prog S ε α} {f : α → Prog S ε β} (hp : p.Strict) (hf : ∀ a, (f a).Strict) :
    (p.bind f).Strict := by
  induction p with
  | ret a => exact hf a
  | throw e => trivial
  | call c next ih =>
    refine ⟨fun e => ?_, fun r => ih r (hp.2 r)⟩
    obtain ⟨e', he⟩ := hp.1 e
    refine ⟨e', ?_⟩
    change (next (.error e)).bind f = _
    rw [he, Prog.bind]

theorem Strict.ofExcept (r : Except ε α) : (ofExcept r : Prog S ε α).Strict := by
  cases r <;> trivial

theorem Strict.request {c : S.Call} {onError : E → ε} : (request c onError).Strict :=
  ⟨fun e => ⟨onError e, rfl⟩, fun _ => Strict.ofExcept _⟩

theorem Strict.forEach {f : β → α → Prog S ε β} (hf : ∀ b a, (f b a).Strict) (b : β) (as : List α) :
    (forEach f b as).Strict := by
  induction as generalizing b with
  | nil => trivial
  | cons a as ih => exact (hf b a).bind ih

variable {P : S.Call → Prop} {J : σ → Prop}

/-- A strict program keeps what its calls keep, and returns an error when one of them fails. -/
theorem Strict.failsOnce {p : Prog S ε α} (hp : p.Strict) (hcalls : p.Calls P)
    (hJ : ∀ c, P c → Keeps S J c) (hs : J s) (hQ : ∀ c e s', P c → J s' → Q c (.error e, s')) :
    p.FailsOnce mayFail Q s := by
  induction p generalizing s with
  | ret a => trivial
  | throw e => trivial
  | call c next ih =>
    have hc := hJ c hcalls.1
    refine ⟨fun _ e n => ?_, ih _ (hp.2 _) (hcalls.2 _) (hc.apply s hs)⟩
    obtain ⟨e', he⟩ := hp.1 e
    rw [he]
    exact hQ c e' _ hcalls.1 (hc.failed n s hs)

/-! ### Programs that succeed -/

/-- Without faults the program returns a value. -/
abbrev Total (p : Prog S ε α) (post : α → σ → Prop) (s : σ) : Prop :=
  p.Meets (fun _ => false) (fun _ => True) (fun _ _ => False) post s

theorem Total.run {p : Prog S ε α} {post : α → σ → Prop} (h : p.Total post s) (mayFail : S.Call → Bool) :
    ∃ a s', p.run mayFail [] s = (.ok a, s') ∧ post a s' := by
  induction p generalizing s with
  | ret a => exact ⟨a, s, rfl, h⟩
  | throw e => exact h.elim
  | call c next ih => exact ih _ h.2.2

theorem total_ofExcept_bind {r : Except ε α} {f : α → Prog S ε β} {post : β → σ → Prop} {a : α} (hr : r = .ok a)
    (h : (f a).Total post s) : ((ofExcept r : Prog S ε α).bind f).Total post s := by
  rw [hr]
  exact h

theorem total_request_bind {c : S.Call} {onError : E → ε} {f : S.Answer c → Prog S ε β} {post : β → σ → Prop}
    {a : S.Answer c} {s' : σ} (happly : S.apply c s = (.ok a, s')) (h : (f a).Total post s') :
    ((request c onError).bind f).Total post s := by
  refine meets_bind.mpr (meets_request (fun _ => trivial) nofun (fun e he => ?_) fun b hb => ?_)
  · rw [happly] at he
    cases he
  · rw [happly] at hb ⊢
    cases hb
    exact h

/-- A program that succeeds, with what its calls keep. -/
theorem Total.stops {p : Prog S ε α} (h : p.Total post s) (hcalls : p.Calls P) (hJ : ∀ c, P c → Keeps S J c)
    (hs : J s) (hR : ∀ c n s', P c → J s' → R c n s') : p.Stops R err (fun a s' => J s' ∧ post a s') s := by
  induction p generalizing s with
  | ret a => exact ⟨hs, h⟩
  | throw e => exact h.elim
  | call c next ih =>
    have hc := hJ c hcalls.1
    exact ⟨fun n => hR c n _ hcalls.1 (hc.torn n s hs), ih _ h.2.2 (hcalls.2 _) (hc.apply s hs)⟩

end Prog

end AbyssalWarden

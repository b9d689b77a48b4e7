import AbyssalWarden.CallTrace

/-! Programs with others at work on the same state: before a call, one of them may change something. A call that
is said to be guarded follows the one before it at once. -/
namespace AbyssalWarden

variable {σ E ι : Type} {S : System σ E} {ε ε' α β : Type}

/-- What a call meets: the next of the others is through, unless the call is guarded. -/
def metBy (acts : ι → σ → σ) (guarded : Bool) : σ × List ι → σ × List ι
  | (s, []) => (s, [])
  | (s, i :: others) => if guarded then (s, i :: others) else (acts i s, others)

theorem metBy_others (acts : ι → σ → σ) (guarded : Bool) (t : σ × List ι) : (metBy acts guarded t).2 ⊆ t.2 := by
  obtain ⟨s, others⟩ := t
  cases others with
  | nil => exact List.Subset.refl _
  | cons i others =>
    rw [metBy]
    split
    · exact List.Subset.refl _
    · exact List.subset_cons_self i others

@[simp] theorem metBy_guarded (acts : ι → σ → σ) (t : σ × List ι) : metBy acts true t = t := by
  obtain ⟨s, others⟩ := t
  cases others <;> rfl

/-- The system with others at work. -/
abbrev System.amid (S : System σ E) (acts : ι → σ → σ) (guarded : S.Call → Bool) : System (σ × List ι) E where
  Call := S.Call
  Answer := S.Answer
  apply c s :=
    let (s, others) := metBy acts (guarded c) s
    ((S.apply c s).1, (S.apply c s).2, others)
  torn c n s :=
    let (s, others) := metBy acts (guarded c) s
    (S.torn c n s, others)
  failed c n s :=
    let (s, others) := metBy acts (guarded c) s
    (S.failed c n s, others)

variable {acts : ι → σ → σ} {guarded : S.Call → Bool}

namespace Prog

/-- The same calls, made with others at work. -/
def amid (acts : ι → σ → σ) (guarded : S.Call → Bool) : Prog S ε α → Prog (S.amid acts guarded) ε α
  | ret a => ret a
  | throw e => throw e
  | call c next => call c fun r => (next r).amid acts guarded

@[simp] theorem amid_bind (p : Prog S ε α) (f : α → Prog S ε β) :
    (p.bind f).amid acts guarded = (p.amid acts guarded).bind fun a => (f a).amid acts guarded := by
  induction p with
  | ret a => rfl
  | throw e => rfl
  | call c next ih => simp only [bind, amid, ih]

@[simp] theorem amid_monad_bind (p : Prog S ε α) (f : α → Prog S ε β) :
    (p >>= f).amid acts guarded = p.amid acts guarded >>= fun a => (f a).amid acts guarded :=
  amid_bind p f

@[simp] theorem amid_ofExcept (r : Except ε α) :
    (ofExcept r : Prog S ε α).amid acts guarded = ofExcept r := by
  cases r <;> rfl

@[simp] theorem amid_request (c : S.Call) (onError : E → ε) :
    (request c onError).amid acts guarded = request (S := S.amid acts guarded) c onError := by
  simp only [request, amid, amid_ofExcept]

@[simp] theorem amid_attempt (p : Prog S ε α) :
    (p.attempt : Prog S ε' (Except ε α)).amid acts guarded = (p.amid acts guarded).attempt := by
  induction p with
  | ret a => rfl
  | throw e => rfl
  | call c next ih => simp only [attempt, amid, ih]

theorem Calls.amid {P : S.Call → Prop} {p : Prog S ε α} (hp : p.Calls P) :
    Calls (S := S.amid acts guarded) P (p.amid acts guarded) := by
  induction p with
  | ret a => trivial
  | throw e => trivial
  | call c next ih => exact ⟨hp.1, fun r => ih r (hp.2 r)⟩

variable {mayFail : S.Call → Bool}

/-- One call, by what it can come to. -/
theorem meetsWith_amid_request {γ : Type} {upd : γ → Step (S.amid acts guarded) → γ} {stop : γ → σ × List ι → Prop}
    {err : ε → γ → σ × List ι → Prop} {c : S.Call} {onError : E → ε} {post : S.Answer c → γ → σ × List ι → Prop}
    {g : γ} {t : σ × List ι}
    (hstop : ∀ n, stop (upd g ⟨c, t, (S.amid acts guarded).torn c n t⟩) ((S.amid acts guarded).torn c n t))
    (hfail : mayFail c = true → ∀ e n, err (onError e)
      (upd g ⟨c, t, (S.amid acts guarded).failed c n t⟩) ((S.amid acts guarded).failed c n t))
    (herror : ∀ e t', (S.amid acts guarded).apply c t = (.error e, t') → err (onError e) (upd g ⟨c, t, t'⟩) t')
    (hok : ∀ a t', (S.amid acts guarded).apply c t = (.ok a, t') → post a (upd g ⟨c, t, t'⟩) t') :
    MeetsWith (S := S.amid acts guarded) mayFail upd stop ((request c onError).amid acts guarded) err post g t := by
  rw [amid_request]
  exact meetsWith_request (S := S.amid acts guarded) hstop hfail herror hok

/-- Nobody is at work. -/
theorem run_amid_nil (p : Prog S ε α) (faults : List (Fault E)) (s : σ) :
    run (S := S.amid acts guarded) mayFail (p.amid acts guarded) faults (s, []) =
      ((p.run mayFail faults s).1, (p.run mayFail faults s).2, []) := by
  induction p generalizing s faults with
  | ret a => rfl
  | throw e => rfl
  | call c next ih =>
    cases faults with
    | nil => exact ih _ [] _
    | cons fault faults =>
      cases fault with
      | none => exact ih _ faults _
      | fails e n =>
        simp only [Prog.amid, run]
        split
        · exact ih _ faults _
        · exact ih _ faults _
      | stops n => rfl

/-- The calls of `P` do not tell two states apart that `R` relates, and what the others do is not seen in them. -/
structure Blind (S : System σ E) (acts : ι → σ → σ) (P : S.Call → Prop) (R : σ → σ → Prop) : Prop where
  acts : ∀ i s t, R s t → R s (acts i t)
  answer : ∀ c, P c → ∀ s t, R s t → (S.apply c t).1 = (S.apply c s).1
  apply : ∀ c, P c → ∀ s t, R s t → R (S.apply c s).2 (S.apply c t).2
  failed : ∀ c, P c → ∀ n s t, R s t → R (S.failed c n s) (S.failed c n t)

variable {P : S.Call → Prop} {R : σ → σ → Prop}

theorem Blind.met (h : Blind S acts P R) {s : σ} {t : σ × List ι} (ht : R s t.1) (b : Bool) :
    R s (metBy acts b t).1 := by
  obtain ⟨t, others⟩ := t
  cases others with
  | nil => exact ht
  | cons i others =>
    rw [metBy]
    split
    · exact ht
    · exact h.acts i s t ht

/-- What such a program returns alone, it returns with others at work. -/
theorem Blind.returns (h : Blind S acts P R) {p : Prog S ε α} {post : α → σ → Prop} {s : σ} {t : σ × List ι}
    (hp : p.Calls P) (hs : p.Returns mayFail post s) (ht : R s t.1) :
    Returns (S := S.amid acts guarded) mayFail (p.amid acts guarded)
      (fun a t' => ∃ s', R s' t'.1 ∧ post a s') t := by
  induction p generalizing s t with
  | ret a => exact ⟨s, ht, hs⟩
  | throw e => trivial
  | call c next ih =>
    obtain ⟨-, hfail, hnext⟩ := hs
    have hmet := h.met ht (guarded c)
    refine ⟨fun _ => trivial, fun hc e n => ?_, ?_⟩
    · exact ih _ (hp.2 _) (hfail hc e n) (h.failed c hp.1 n _ _ hmet)
    · have hanswer := h.answer c hp.1 _ _ hmet
      change Returns (S := S.amid acts guarded) mayFail ((next (S.apply c _).1).amid acts guarded) _ _
      rw [hanswer]
      exact ih _ (hp.2 _) hnext (h.apply c hp.1 _ _ hmet)

end Prog

end AbyssalWarden

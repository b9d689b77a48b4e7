import AbyssalWarden.CallTree

/-! A system that is a part of a larger one. Its programs are made programs of the larger one, and what was proved
of them holds of that part of the state. -/
namespace AbyssalWarden

variable {σ τ E : Type} {ε ε' α β : Type}

/-- The calls of a part are calls of the whole, which see and change only a part of the state. -/
structure Part (S : System σ E) (T : System τ E) where
  call : S.Call → T.Call
  answer : ∀ c, T.Answer (call c) → S.Answer c
  view : τ → σ
  apply_answer : ∀ c t, (T.apply (call c) t).1.map (answer c) = (S.apply c (view t)).1
  apply_view : ∀ c t, view (T.apply (call c) t).2 = (S.apply c (view t)).2
  torn_view : ∀ c n t, view (T.torn (call c) n t) = S.torn c n (view t)
  failed_view : ∀ c n t, view (T.failed (call c) n t) = S.failed c n (view t)

variable {S : System σ E} {T : System τ E}

namespace Prog

/-- A program of the part, its errors worded by `relabel`. -/
def within (part : Part S T) (relabel : ε → ε') : Prog S ε α → Prog T ε' α
  | ret a => ret a
  | throw e => throw (relabel e)
  | call c next => call (part.call c) fun r => (next (r.map (part.answer c))).within part relabel

variable {relabel : ε → ε'} {mayFail : S.Call → Bool} {mayFail' : T.Call → Bool}
  {stop : σ → Prop} {err : ε → σ → Prop} {post : α → σ → Prop} {t : τ}

/-- What holds of a program holds of it as a part. -/
theorem Meets.within {p : Prog S ε α} (part : Part S T)
    (hmay : ∀ c, mayFail' (part.call c) = true → mayFail c = true) (h : p.Meets mayFail stop err post (part.view t)) :
    (p.within part relabel).Meets mayFail' (fun t => stop (part.view t))
      (fun e' t => ∃ e, e' = relabel e ∧ err e (part.view t)) (fun a t => post a (part.view t)) t := by
  induction p generalizing t with
  | ret a => exact h
  | throw e => exact ⟨e, rfl, h⟩
  | call c next ih =>
    obtain ⟨hstop, hfail, hnext⟩ := h
    refine ⟨fun n => ?_, fun hc e n => ih _ ?_, ih _ ?_⟩
    · dsimp only
      rw [part.torn_view]
      exact hstop n
    · rw [part.failed_view]
      exact hfail (hmay c hc) e n
    · rw [part.apply_answer, part.apply_view]
      exact hnext

theorem Calls.within {P : S.Call → Prop} {p : Prog S ε α} (hp : p.Calls P) (part : Part S T) :
    (p.within part relabel).Calls fun c => ∃ c', c = part.call c' ∧ P c' := by
  induction p with
  | ret a => trivial
  | throw e => trivial
  | call c next ih => exact ⟨⟨c, rfl, hp.1⟩, fun r => ih _ (hp.2 _)⟩

end Prog

/-- A call of the part keeps in it what it kept. -/
theorem Prog.Keeps.within {J : σ → Prop} {c : S.Call} (h : Prog.Keeps S J c) (part : Part S T) :
    Prog.Keeps T (fun t => J (part.view t)) (part.call c) where
  torn n t ht := by
    rw [part.torn_view]
    exact h.torn n _ ht
  failed n t ht := by
    rw [part.failed_view]
    exact h.failed n _ ht
  apply t ht := by
    rw [part.apply_view]
    exact h.apply _ ht

end AbyssalWarden

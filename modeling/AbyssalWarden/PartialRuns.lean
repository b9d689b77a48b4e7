import Mathlib

/-! Runs of a machine that takes a step at each event it is ready for. -/
namespace AbyssalWarden

variable {σ ε : Type} {step : σ → ε → Option σ} {s s' : σ} {e : ε} {es es' pre : List ε}

/-- The state after some events; `none` if one of them cannot happen. -/
def runFrom (step : σ → ε → Option σ) (s : σ) (es : List ε) : Option σ := es.foldlM step s

theorem runFrom_append : runFrom step s (es ++ es') = (runFrom step s es).bind fun s' => runFrom step s' es' := by
  rw [runFrom, List.foldlM_append]
  rfl

theorem runFrom_concat : runFrom step s (es ++ [e]) = (runFrom step s es).bind fun s' => step s' e := by
  rw [runFrom_append]
  congr 1
  funext s'
  rw [runFrom, List.foldlM_cons]
  cases step s' e with
  | none => rfl
  | some s₁ => rfl

/-- What holds at the start and is kept by every step, with what happened so far, holds after every run. -/
theorem runFrom_invariant (inv : List ε → σ → Prop) (hstart : inv [] s)
    (hstep : ∀ es s₁ e s₂, inv es s₁ → step s₁ e = some s₂ → inv (es ++ [e]) s₂)
    (h : runFrom step s es = some s') : inv es s' := by
  induction es using List.reverseRecOn generalizing s' with
  | nil =>
    rw [← Option.some.inj h]
    exact hstart
  | append_singleton es e ih =>
    rw [runFrom_concat] at h
    obtain ⟨s₁, hs₁, hlast⟩ := Option.bind_eq_some_iff.mp h
    exact hstep es s₁ e s' (ih hs₁) hlast

end AbyssalWarden

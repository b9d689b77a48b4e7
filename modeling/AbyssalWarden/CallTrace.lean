import AbyssalWarden.CallTree

/-! What a run of a program of calls has done so far. The steps of a run are its calls with the states
before and after each; a value is carried along that every step updates, and the conditions of the rules
may speak of it. -/
namespace AbyssalWarden

variable {σ E : Type} {S : System σ E} {ε ε' α β γ : Type}

/-- One call of a run. -/
structure Step (S : System σ E) where
  call : S.Call
  before : σ
  after : σ

/-- What a call can lead to. -/
def System.Leads (S : System σ E) (c : S.Call) (s s' : σ) : Prop :=
  s' = (S.apply c s).2 ∨ (∃ n, s' = S.torn c n s) ∨ ∃ n, s' = S.failed c n s

namespace Prog

/-- The steps of a run, the last one being the one it is stopped in, if it is. -/
def trace (mayFail : S.Call → Bool) : Prog S ε α → List (Fault E) → σ → List (Step S)
  | ret _, _, _ => []
  | throw _, _, _ => []
  | call c next, [], s =>
    ⟨c, s, (S.apply c s).2⟩ :: (next (S.apply c s).1).trace mayFail [] (S.apply c s).2
  | call c next, f :: faults, s =>
    match f with
    | .none =>
      ⟨c, s, (S.apply c s).2⟩ :: (next (S.apply c s).1).trace mayFail faults (S.apply c s).2
    | .fails e n =>
      if mayFail c then ⟨c, s, S.failed c n s⟩ :: (next (.error e)).trace mayFail faults (S.failed c n s)
      else ⟨c, s, (S.apply c s).2⟩ :: (next (S.apply c s).1).trace mayFail faults (S.apply c s).2
    | .stops n => [⟨c, s, S.torn c n s⟩]

/-- `Meets`, with a value that every step updates. -/
def MeetsWith (mayFail : S.Call → Bool) (upd : γ → Step S → γ) (stop : γ → σ → Prop) :
    Prog S ε α → (ε → γ → σ → Prop) → (α → γ → σ → Prop) → γ → σ → Prop
  | ret a, _, post, g, s => post a g s
  | throw e, err, _, g, s => err e g s
  | call c next, err, post, g, s =>
    (∀ n, stop (upd g ⟨c, s, S.torn c n s⟩) (S.torn c n s)) ∧
    (mayFail c = true → ∀ e n, (next (.error e)).MeetsWith mayFail upd stop err post
      (upd g ⟨c, s, S.failed c n s⟩) (S.failed c n s)) ∧
    (next (S.apply c s).1).MeetsWith mayFail upd stop err post (upd g ⟨c, s, (S.apply c s).2⟩)
      (S.apply c s).2

variable {mayFail : S.Call → Bool} {upd : γ → Step S → γ} {stop stop' : γ → σ → Prop}
  {err err₁ : ε → γ → σ → Prop} {err' : ε' → γ → σ → Prop} {post post₁ : α → γ → σ → Prop}
  {post' : β → γ → σ → Prop} {g : γ} {s : σ}

/-- Every run ends in a state that the conditions allow, for the value its steps come to. -/
theorem run_trace_ends {p : Prog S ε α} (h : p.MeetsWith mayFail upd stop err post g s)
    (faults : List (Fault E)) :
    Outcome.Ends (stop ((p.trace mayFail faults s).foldl upd g))
      (fun e => err e ((p.trace mayFail faults s).foldl upd g))
      (fun a => post a ((p.trace mayFail faults s).foldl upd g)) (p.run mayFail faults s) := by
  induction p generalizing g s faults with
  | ret a => exact h
  | throw e => exact h
  | call c next ih =>
    obtain ⟨hstop, hfail, hnext⟩ := h
    cases faults with
    | nil => exact ih _ hnext []
    | cons f faults =>
      cases f with
      | none => exact ih _ hnext faults
      | fails e n =>
        rw [run, trace]
        by_cases hc : mayFail c = true
        · simp only [if_pos hc]
          exact ih _ (hfail hc e n) faults
        · simp only [if_neg hc]
          exact ih _ hnext faults
      | stops n => exact hstop n

theorem meetsWith_bind {p : Prog S ε α} {f : α → Prog S ε β} :
    (p.bind f).MeetsWith mayFail upd stop err post' g s ↔
      p.MeetsWith mayFail upd stop err (fun a g s => (f a).MeetsWith mayFail upd stop err post' g s)
        g s := by
  induction p generalizing g s with
  | ret a => exact Iff.rfl
  | throw e => exact Iff.rfl
  | call c next ih => simp only [bind, MeetsWith, ih]

theorem meetsWith_attempt {p : Prog S ε α} {post'' : Except ε α → γ → σ → Prop} :
    (p.attempt : Prog S ε' (Except ε α)).MeetsWith mayFail upd stop err' post'' g s ↔
      p.MeetsWith mayFail upd stop (fun e => post'' (.error e)) (fun a => post'' (.ok a)) g s := by
  induction p generalizing g s with
  | ret a => exact Iff.rfl
  | throw e => exact Iff.rfl
  | call c next ih => simp only [attempt, MeetsWith, ih]

theorem meetsWith_ofExcept {r : Except ε α} :
    (ofExcept r : Prog S ε α).MeetsWith mayFail upd stop err post g s ↔
      (∀ a, r = .ok a → post a g s) ∧ ∀ e, r = .error e → err e g s := by
  cases r <;> simp [ofExcept, MeetsWith]

theorem MeetsWith.mono {p : Prog S ε α} (h : p.MeetsWith mayFail upd stop err post g s)
    (hstop : ∀ g s, stop g s → stop' g s) (herr : ∀ e g s, err e g s → err₁ e g s)
    (hpost : ∀ a g s, post a g s → post₁ a g s) :
    p.MeetsWith mayFail upd stop' err₁ post₁ g s := by
  induction p generalizing g s with
  | ret a => exact hpost a g s h
  | throw e => exact herr e g s h
  | call c next ih =>
    obtain ⟨hs, hfail, hnext⟩ := h
    exact ⟨fun n => hstop _ _ (hs n), fun hc e n => ih _ (hfail hc e n), ih _ hnext⟩

theorem MeetsWith.and {stop₁ : σ → Prop} {err₂ : ε → σ → Prop} {post₂ : α → σ → Prop} {p : Prog S ε α}
    (h : p.MeetsWith mayFail upd stop err post g s) (h' : p.Meets mayFail stop₁ err₂ post₂ s) :
    p.MeetsWith mayFail upd (fun g s => stop g s ∧ stop₁ s) (fun e g s => err e g s ∧ err₂ e s)
      (fun a g s => post a g s ∧ post₂ a s) g s := by
  induction p generalizing g s with
  | ret a => exact ⟨h, h'⟩
  | throw e => exact ⟨h, h'⟩
  | call c next ih =>
    obtain ⟨hs, hfail, hnext⟩ := h
    obtain ⟨hs', hfail', hnext'⟩ := h'
    exact ⟨fun n => ⟨hs n, hs' n⟩, fun hc e n => ih _ (hfail hc e n) (hfail' hc e n), ih _ hnext hnext'⟩

/-- An invariant of the loop, for the value that the steps come to. -/
theorem meetsWith_forEach {f : β → α → Prog S ε β} {I : β → List α → γ → σ → Prop} {b : β} {as : List α}
    (hf : ∀ b a as g s, I b (a :: as) g s → (f b a).MeetsWith mayFail upd stop err (fun b => I b as) g s)
    (hs : I b as g s) : (forEach f b as).MeetsWith mayFail upd stop err (fun b => I b []) g s := by
  induction as generalizing b g s with
  | nil => exact hs
  | cons a as ih =>
    rw [forEach, meetsWith_bind]
    exact (hf b a as g s hs).mono (fun _ _ h => h) (fun _ _ _ h => h) fun _ _ _ h => ih h

/-- One call, by what it can come to. -/
theorem meetsWith_request {c : S.Call} {onError : E → ε} {post : S.Answer c → γ → σ → Prop}
    (hstop : ∀ n, stop (upd g ⟨c, s, S.torn c n s⟩) (S.torn c n s))
    (hfail : mayFail c = true → ∀ e n, err (onError e) (upd g ⟨c, s, S.failed c n s⟩) (S.failed c n s))
    (herror : ∀ e s', S.apply c s = (.error e, s') → err (onError e) (upd g ⟨c, s, s'⟩) s')
    (hok : ∀ a s', S.apply c s = (.ok a, s') → post a (upd g ⟨c, s, s'⟩) s') :
    (request c onError).MeetsWith mayFail upd stop err post g s := by
  refine ⟨hstop, hfail, ?_⟩
  cases h : (S.apply c s).1 with
  | error e => exact herror e _ (Prod.ext h rfl)
  | ok a => exact hok a _ (Prod.ext h rfl)

variable {P : S.Call → Prop} {J : σ → Prop}

/-- A program whose calls keep `J` and do not touch the value, with what is known of its result. -/
theorem Calls.meetsWith {p : Prog S ε α} {returned : α → σ → Prop} (hp : p.Calls P)
    (hJ : ∀ c, P c → Keeps S J c)
    (hquiet : ∀ c, P c → ∀ g s s', J s → S.Leads c s s' → upd g ⟨c, s, s'⟩ = g) (hs : J s)
    (h : p.Returns mayFail returned s) :
    p.MeetsWith mayFail upd (fun g' s => g' = g ∧ J s) (fun _ g' s => g' = g ∧ J s)
      (fun a g' s => g' = g ∧ J s ∧ returned a s) g s := by
  induction p generalizing s with
  | ret a => exact ⟨rfl, hs, h⟩
  | throw e => exact ⟨rfl, hs⟩
  | call c next ih =>
    have hc := hJ c hp.1
    obtain ⟨-, hfail, hnext⟩ := h
    refine ⟨fun n => ?_, fun hm e n => ?_, ?_⟩
    · exact ⟨hquiet c hp.1 g _ _ hs (.inr (.inl ⟨n, rfl⟩)), hc.torn n s hs⟩
    · rw [hquiet c hp.1 g _ _ hs (.inr (.inr ⟨n, rfl⟩))]
      exact ih _ (hp.2 _) (hc.failed n s hs) (hfail hm e n)
    · rw [hquiet c hp.1 g _ _ hs (.inl rfl)]
      exact ih _ (hp.2 _) (hc.apply s hs) hnext

/-! ### Steps of a run -/

/-- A run goes from state to state by its steps. -/
theorem exists_step_of_change {p : Prog S ε α} {R : σ → Prop} {faults : List (Fault E)} (hs : R s)
    (h : ¬ R (p.run mayFail faults s).2) :
    ∃ st ∈ p.trace mayFail faults s, R st.before ∧ ¬ R st.after := by
  induction p generalizing s faults with
  | ret a => exact absurd hs h
  | throw e => exact absurd hs h
  | call c next ih =>
    have hstep (r : Except E (S.Answer c)) (s' : σ) (faults : List (Fault E))
        (h : ¬ R ((next r).run mayFail faults s').2) :
        ∃ st ∈ ⟨c, s, s'⟩ :: (next r).trace mayFail faults s', R st.before ∧ ¬ R st.after := by
      -- the first step makes the change, or a later one does
      by_cases hs' : R s'
      · obtain ⟨st, hst, hchange⟩ := ih r hs' h
        exact ⟨st, List.mem_cons_of_mem _ hst, hchange⟩
      · exact ⟨⟨c, s, s'⟩, List.mem_cons_self, hs, hs'⟩
    cases faults with
    | nil => exact hstep _ _ [] h
    | cons f faults =>
      cases f with
      | none => exact hstep _ _ faults h
      | fails e n =>
        rw [run] at h
        rw [trace]
        split
        · rename_i hc
          rw [if_pos hc] at h
          exact hstep _ _ faults h
        · rename_i hc
          rw [if_neg hc] at h
          exact hstep _ _ faults h
      | stops n => exact ⟨⟨c, s, S.torn c n s⟩, List.mem_singleton_self _, hs, h⟩

/-- Every step of a run makes one of the program's calls, and leads where such a call can. -/
theorem Calls.trace {p : Prog S ε α} (hp : p.Calls P) {faults : List (Fault E)} :
    ∀ st ∈ p.trace mayFail faults s, P st.call ∧ S.Leads st.call st.before st.after := by
  induction p generalizing s faults with
  | ret a => exact fun st hst => absurd hst List.not_mem_nil
  | throw e => exact fun st hst => absurd hst List.not_mem_nil
  | call c next ih =>
    have hstep (r : Except E (S.Answer c)) (s' : σ) (faults : List (Fault E)) (hleads : S.Leads c s s') :
        ∀ st ∈ ⟨c, s, s'⟩ :: (next r).trace mayFail faults s', P st.call ∧ S.Leads st.call st.before st.after := by
      intro st hst
      cases List.mem_cons.mp hst with
      | inl heq =>
        rw [heq]
        exact ⟨hp.1, hleads⟩
      | inr hrest => exact ih r (hp.2 r) st hrest
    cases faults with
    | nil => exact hstep _ _ [] (.inl rfl)
    | cons f faults =>
      cases f with
      | none => exact hstep _ _ faults (.inl rfl)
      | fails e n =>
        rw [Prog.trace]
        split
        · exact hstep _ _ faults (.inr (.inr ⟨n, rfl⟩))
        · exact hstep _ _ faults (.inl rfl)
      | stops n =>
        intro st hst
        rw [List.mem_singleton.mp hst]
        exact ⟨hp.1, .inr (.inl ⟨n, rfl⟩)⟩

/-- Every call of a run is made in a state that the calls keep. -/
theorem trace_before {p : Prog S ε α} {faults : List (Fault E)} (hJ : ∀ c, Keeps S J c) (hs : J s) :
    ∀ st ∈ p.trace mayFail faults s, J st.before := by
  induction p generalizing s faults with
  | ret a => exact fun st hst => absurd hst List.not_mem_nil
  | throw e => exact fun st hst => absurd hst List.not_mem_nil
  | call c next ih =>
    have hstep (r : Except E (S.Answer c)) (s' : σ) (faults : List (Fault E)) (hs' : J s') :
        ∀ st ∈ ⟨c, s, s'⟩ :: (next r).trace mayFail faults s', J st.before := by
      intro st hst
      cases List.mem_cons.mp hst with
      | inl heq =>
        rw [heq]
        exact hs
      | inr hrest => exact ih r hs' st hrest
    cases faults with
    | nil => exact hstep _ _ [] ((hJ c).apply s hs)
    | cons f faults =>
      cases f with
      | none => exact hstep _ _ faults ((hJ c).apply s hs)
      | fails e n =>
        rw [Prog.trace]
        split
        · exact hstep _ _ faults ((hJ c).failed n s hs)
        · exact hstep _ _ faults ((hJ c).apply s hs)
      | stops n =>
        intro st hst
        rw [List.mem_singleton.mp hst]
        exact hs

/-- The faults that are left when a run ends. -/
def left (mayFail : S.Call → Bool) (p : Prog S ε α) (faults : List (Fault E)) (s : σ) : List (Fault E) :=
  faults.drop (p.trace mayFail faults s).length

theorem trace_bind {p : Prog S ε α} {f : α → Prog S ε β} {faults : List (Fault E)} :
    (p.bind f).trace mayFail faults s = p.trace mayFail faults s ++
      match p.run mayFail faults s with
      | (.ok a, s') => (f a).trace mayFail (p.left mayFail faults s) s'
      | _ => [] := by
  induction p generalizing s faults with
  | ret a => rfl
  | throw e => rfl
  | call c next ih =>
    cases faults with
    | nil =>
      have h := @ih (S.apply c s).1 (S.apply c s).2 []
      simp only [bind, trace, run, List.cons_append, left, List.drop_nil] at h ⊢
      rw [h]
    | cons fault faults =>
      cases fault with
      | none =>
        have h := @ih (S.apply c s).1 (S.apply c s).2 faults
        simp only [bind, trace, run, List.cons_append, left, List.length_cons, List.drop_succ_cons] at h ⊢
        rw [h]
      -- a call that cannot fail goes on as without the fault
      | fails e n =>
        by_cases hc : mayFail c = true
        · have h := @ih (.error e) (S.failed c n s) faults
          simp only [bind, trace, run, if_pos hc, List.cons_append, left, List.length_cons,
            List.drop_succ_cons] at h ⊢
          rw [h]
        · have h := @ih (S.apply c s).1 (S.apply c s).2 faults
          simp only [bind, trace, run, if_neg hc, List.cons_append, left, List.length_cons,
            List.drop_succ_cons] at h ⊢
          rw [h]
      | stops n => rfl

theorem run_bind {p : Prog S ε α} {f : α → Prog S ε β} {faults : List (Fault E)} :
    (p.bind f).run mayFail faults s =
      match p.run mayFail faults s with
      | (.ok a, s') => (f a).run mayFail (p.left mayFail faults s) s'
      | (.error e, s') => (.error e, s')
      | (.stopped, s') => (.stopped, s') := by
  induction p generalizing s faults with
  | ret a => rfl
  | throw e => rfl
  | call c next ih =>
    cases faults with
    | nil =>
      have h := @ih (S.apply c s).1 (S.apply c s).2 []
      simp only [bind, trace, run, left, List.drop_nil] at h ⊢
      rw [h]
    | cons fault faults =>
      cases fault with
      | none =>
        have h := @ih (S.apply c s).1 (S.apply c s).2 faults
        simp only [bind, trace, run, left, List.length_cons, List.drop_succ_cons] at h ⊢
        rw [h]
      | fails e n =>
        by_cases hc : mayFail c = true
        · have h := @ih (.error e) (S.failed c n s) faults
          simp only [bind, trace, run, if_pos hc, left, List.length_cons, List.drop_succ_cons] at h ⊢
          rw [h]
        · have h := @ih (S.apply c s).1 (S.apply c s).2 faults
          simp only [bind, trace, run, if_neg hc, left, List.length_cons, List.drop_succ_cons] at h ⊢
          rw [h]
      | stops n => rfl

theorem mem_trace_bind {p : Prog S ε α} {f : α → Prog S ε β} {faults : List (Fault E)} {st : Step S}
    (h : st ∈ (p.bind f).trace mayFail faults s) :
    st ∈ p.trace mayFail faults s ∨
      ∃ a s' left, p.run mayFail faults s = (.ok a, s') ∧ st ∈ (f a).trace mayFail left s' := by
  rw [trace_bind] at h
  cases List.mem_append.mp h with
  | inl hp => exact .inl hp
  | inr hf =>
    split at hf
    · rename_i a s' hrun
      exact .inr ⟨a, s', _, hrun, hf⟩
    · exact absurd hf List.not_mem_nil

theorem mem_trace_bind_left {p : Prog S ε α} {f : α → Prog S ε β} {faults : List (Fault E)} {st : Step S}
    (h : st ∈ p.trace mayFail faults s) : st ∈ (p.bind f).trace mayFail faults s := by
  rw [trace_bind]
  exact List.mem_append_left _ h

/-- The steps up to a returned value are those of the trace. -/
theorem MeetsWith.of_run {p : Prog S ε α} {stop : List (Step S) → σ → Prop} {err : ε → List (Step S) → σ → Prop}
    {returned : α → List (Step S) → σ → Prop} {faults : List (Fault E)} {a : α} {s' : σ}
    (h : p.MeetsWith mayFail (fun g st => g ++ [st]) stop err returned [] s)
    (hrun : p.run mayFail faults s = (.ok a, s')) : returned a (p.trace mayFail faults s) s' := by
  have hends := run_trace_ends h faults
  rw [hrun] at hends
  have hsteps : (p.trace mayFail faults s).foldl (fun g st => g ++ [st]) [] = p.trace mayFail faults s := by
    rw [List.foldl_append_eq_append, List.nil_append, ← List.flatMap_def, List.flatMap_singleton']
  rw [hsteps] at hends
  exact hends

theorem mem_trace_ask {c : S.Call} {faults : List (Fault E)} {st : Step S}
    (h : st ∈ (ask c : Prog S ε _).trace mayFail faults s) : st.call = c ∧ st.before = s := by
  have hone (s' : σ) (h : st ∈ [(⟨c, s, s'⟩ : Step S)]) : st.call = c ∧ st.before = s := by
    rw [List.mem_singleton.mp h]
    exact ⟨rfl, rfl⟩
  cases faults with
  | nil => exact hone _ h
  | cons fault faults =>
    cases fault with
    | none => exact hone _ h
    | fails e n =>
      rw [ask, trace] at h
      split at h
      · exact hone _ h
      · exact hone _ h
    | stops n => exact hone _ h

@[simp] theorem trace_attempt {p : Prog S ε α} {faults : List (Fault E)} :
    (p.attempt : Prog S ε' (Except ε α)).trace mayFail faults s = p.trace mayFail faults s := by
  induction p generalizing s faults with
  | ret a => rfl
  | throw e => rfl
  | call c next ih =>
    cases faults with
    | nil => simp only [attempt, trace, ih]
    | cons fault faults => cases fault <;> simp only [attempt, trace, ih]

theorem run_attempt {p : Prog S ε α} {faults : List (Fault E)} :
    (p.attempt : Prog S ε' (Except ε α)).run mayFail faults s =
      match p.run mayFail faults s with
      | (.ok a, s') => (.ok (.ok a), s')
      | (.error e, s') => (.ok (.error e), s')
      | (.stopped, s') => (.stopped, s') := by
  induction p generalizing s faults with
  | ret a => rfl
  | throw e => rfl
  | call c next ih =>
    cases faults with
    | nil => exact ih _
    | cons fault faults =>
      cases fault with
      | none => exact ih _
      | fails e n =>
        simp only [attempt, run]
        split
        · exact ih _
        · exact ih _
      | stops n => rfl

/-! ### Programs that need every call -/

/-- The program returns a value if nothing happens to its next `n` calls, and only then. -/
def NeedsAll (mayFail : S.Call → Bool) (p : Prog S ε α) (n : ℕ) (s : σ) : Prop :=
  ∀ faults : List (Fault E), (∃ a s', p.run mayFail faults s = (.ok a, s')) ↔ ∀ f ∈ faults.take n, f = .none

theorem NeedsAll.ret (a : α) : (ret a : Prog S ε α).NeedsAll mayFail 0 s := by
  intro faults
  simp [run]

theorem NeedsAll.request_bind {c : S.Call} {onError : E → ε} {f : S.Answer c → Prog S ε β} {a : S.Answer c}
    (n : ℕ) (s' : σ) (h : (f a).NeedsAll mayFail n s') (hmay : mayFail c = true) (happly : S.apply c s = (.ok a, s')) :
    ((request c onError).bind f).NeedsAll mayFail (n + 1) s := by
  have hnext (faults : List (Fault E)) :
      ((ofExcept ((S.apply c s).1.mapError onError)).bind f).run mayFail faults (S.apply c s).2 =
        (f a).run mayFail faults s' := by
    rw [happly]
    rfl
  intro faults
  cases faults with
  | nil =>
    change (∃ b s'', ((ofExcept ((S.apply c s).1.mapError onError)).bind f).run mayFail [] (S.apply c s).2 =
      (.ok b, s'')) ↔ _
    rw [hnext, h []]
    simp
  | cons fault faults =>
    cases fault with
    | none =>
      change (∃ b s'', ((ofExcept ((S.apply c s).1.mapError onError)).bind f).run mayFail faults (S.apply c s).2 =
        (.ok b, s'')) ↔ _
      rw [hnext, h faults]
      simp
    -- the call fails, and with it all that needs it
    | fails e k =>
      refine iff_of_false ?_ fun hnone => by cases hnone _ List.mem_cons_self
      rintro ⟨b, s'', hrun⟩
      simp only [request, bind, run, if_pos hmay] at hrun
      cases hrun
    | stops k =>
      refine iff_of_false ?_ fun hnone => by cases hnone _ List.mem_cons_self
      rintro ⟨b, s'', hrun⟩
      cases hrun

end Prog

/-! ### What is set and cleared -/

section
variable {sets clears : α → Prop} {f : List β → α → List β} {b : β} {l : List α} {x : α}

end

end AbyssalWarden

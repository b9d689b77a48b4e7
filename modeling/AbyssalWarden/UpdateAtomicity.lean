import AbyssalWarden.UpdateSteps

/-! Failed updates. Whatever stops an update before the swap is complete leaves the installed
bundle and no staging directory; a content state that cannot be saved after the swap does not. -/
namespace AbyssalWarden

variable {ms : Minisign}

/-- The bundle the timestamp names holds what it held, or what the recovery put back, and no
staging directory of the call is left. -/
structure Untouched (call : UpdateCall) (ts : Timestamp) (w w' : World) : Prop where
  installed : w'.contentDir[ts.bundle]? = w.contentDir[ts.bundle]? ∨
    w'.contentDir[ts.bundle]? = (recover w.contentDir ts.bundle)[ts.bundle]?
  staging : w'.contentDir[stagingName call ts]? = none ∨
    w'.contentDir[stagingName call ts]? = w.contentDir[stagingName call ts]?

/-- The channel is fresh, everything staged passes its checks, both renames of the swap go through,
and then the state is not saved. -/
def SaveFailsAfterSwap (c : Content ms) (opts : UpdateOptions ms) (call : UpdateCall) (w : World) :
    Prop :=
  ∃ state keys ts files verified hadOld d',
    checkChannel c opts call w.stateFile = .ok (state, keys, ts) ∧
    call.attempt .createContentDir = .ok () ∧
    Swapped c opts call state keys ts (recover w.contentDir ts.bundle) files verified hadOld d' ∧
    ((recordedState call state verified ts).save c.codec call.saveFault w.stateFile).1 ≠ .ok ()

/-- An update that fails leaves the installed bundle untouched exactly when it is not the save of the
state after the swap that fails. -/
theorem update_error_untouched_iff (c : Content ms) (opts : UpdateOptions ms) (call : UpdateCall)
    (w : World) :
    (∀ e w', update c opts call w = (.error e, w') →
      ∀ ts, NamedBy c opts ts → Untouched call ts w w') ↔ ¬ SaveFailsAfterSwap c opts call w := by
  constructor
  -- a save that fails after the swap leaves the new bundle installed: it was not there before
  · rintro h ⟨state, keys, ts, files, verified, hadOld, d', hchannel, hdir, hswapped, hsave⟩
    have hnamed := (checkChannel_eq_ok hchannel).2.2.1
    have hupdate : update c opts call w = updateBundle c opts call state keys ts
        { w with contentDir := recover w.contentDir ts.bundle } := by
      simp only [update, hchannel, hdir]
    rw [updateBundle_of_swapped hswapped] at hupdate
    split at hupdate
    · rename_i e file _
      obtain ⟨hold | hrec, _⟩ := h _ _ hupdate ts hnamed
      · have hex : w.contentDir.exists? ts.bundle = true := by
          simp [ContentDir.exists?, ← hold, hswapped.installed.1, Entry.resolve]
        have hcur := hswapped.alreadyCurrent ((recover_get_of_exists hex).trans hold.symm)
        rw [hswapped.not_current] at hcur
        cases hcur
      · have hcur := hswapped.alreadyCurrent hrec.symm
        rw [hswapped.not_current] at hcur
        cases hcur
    · rename_i hok
      exact hsave (by rw [hok])
  -- an error before the swap leaves the bundle; after it only the save can fail
  · intro hno e w' h ts hnamed
    unfold update at h
    split at h
    · cases h
      exact ⟨.inl rfl, .inr rfl⟩
    · rename_i state keys ts' hchannel
      have hts := (checkChannel_eq_ok hchannel).2.2.1.unique hnamed
      subst hts
      split at h
      · cases h
        exact ⟨.inl rfl, .inr rfl⟩
      · rename_i hdir
        have hrecovered := recover_get_or w.contentDir
          (show stagingName call ts' ≠ ts'.bundle from stagingName_ne_bundle)
        rcases updateBundle_cases h with ⟨_, hsame⟩ | ⟨_, hkept⟩ | ⟨files, verified, hadOld, d', hswapped⟩
        · exact ⟨.inr (by rw [hsame]), by rw [hsame]; exact hrecovered⟩
        · refine ⟨.inr hkept.installed, ?_⟩
          rcases hkept.staging with hgone | hsame
          · exact .inl hgone
          · rw [hsame]
            exact hrecovered
        · rw [updateBundle_of_swapped hswapped] at h
          split at h
          · rename_i e' file hsave
            refine absurd ⟨state, keys, ts', files, verified, hadOld, d', hchannel, hdir, hswapped, ?_⟩
              hno
            rw [hsave]
            simp
          · cases h

/-- A call in which the state cannot be renamed into place. -/
def renameFails : UpdateCall := ⟨epoch, "0", "1", some (.save .rename, .other "I/O error")⟩

/-- The release is installed, and then the call fails. -/
theorem update_error_installed :
    ¬ (∀ e w', update (officialContent releasedCodec) officialOptions renameFails ⟨∅, none⟩ = (.error e, w') →
      ∀ ts, NamedBy (officialContent releasedCodec) officialOptions ts →
        Untouched renameFails ts ⟨∅, none⟩ w') := by
  intro h
  have herror : (update (officialContent releasedCodec) officialOptions renameFails ⟨∅, none⟩).1 =
      .error (.state (.io "state.json" (.other "I/O error"))) := by
    decide +kernel
  have hinstalled : ((update (officialContent releasedCodec) officialOptions renameFails
      ⟨∅, none⟩).2.contentDir["official"]?).isSome = true := by
    decide +kernel
  have hrecover : ((recover ∅ "official")["official"]?).isSome = false := by decide
  have hnamed : NamedBy (officialContent releasedCodec) officialOptions channelTimestamp :=
    ⟨channelJson, rfl, by simp [officialContent]⟩
  generalize hupdate : update (officialContent releasedCodec) officialOptions renameFails ⟨∅, none⟩ = r
    at herror hinstalled
  obtain ⟨result, w'⟩ := r
  dsimp only at herror hinstalled
  subst herror
  rcases (h _ _ hupdate channelTimestamp hnamed).installed with heq | heq
  · have hsome := congrArg Option.isSome heq
    exact absurd (hinstalled.symm.trans hsome) (by decide)
  · have hsome := congrArg Option.isSome heq
    exact absurd ((hinstalled.symm.trans hsome).trans hrecover) (by decide)

end AbyssalWarden

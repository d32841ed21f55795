import PiFrame.Transition

/-!
# What the others do meanwhile

That a task leaves no trace means that the state is what it would be without
the task.  In an interleaving nothing stands still while the task runs, so the
state before is not the one to compare with.  A *shadow* is a value beside the
state that follows the steps of all others, by a rule that is a parameter here,
and takes no part in the steps of the task itself.  The task has left no trace
when the state agrees with its shadow again.
-/

namespace Shadow

open Transition

variable {σ ε γ : Type*} {step : σ → ε → σ → Prop} {own : ε → Prop} {follow : γ → σ → σ → γ}
  {x y : σ × γ} {tr : List ε}

/-- A step of the state, with the shadow beside it. -/
def ShadowStep (step : σ → ε → σ → Prop) (own : ε → Prop) (follow : γ → σ → σ → γ)
    (x : σ × γ) (e : ε) (y : σ × γ) : Prop :=
  step x.1 e y.1 ∧ (own e → y.2 = x.2) ∧ (¬ own e → y.2 = follow x.2 x.1 y.1)

/-- A step of the task itself. -/
theorem ShadowStep.mine {s t : σ} {g : γ} {e : ε} (hstep : step s e t) (he : own e) :
    ShadowStep step own follow (s, g) e (t, g) :=
  ⟨hstep, fun _ => rfl, fun hne => absurd he hne⟩

/-- A step of another task. -/
theorem ShadowStep.others {s t : σ} {g : γ} {e : ε} (hstep : step s e t) (he : ¬ own e) :
    ShadowStep step own follow (s, g) e (t, follow g s t) :=
  ⟨hstep, fun hmine => absurd hmine he, fun _ => rfl⟩

/-- Without its shadow the run is a run. -/
theorem run_fst (hrun : Run (ShadowStep step own follow) x tr y) : Run step x.1 tr y.1 := by
  induction hrun with
  | nil => exact Run.nil
  | snoc _ hlast ih => exact ih.snoc hlast.1

/-- A relation between state and shadow that survives the steps of the task,
with the shadow unchanged, and those of the others, with the shadow following,
holds along the run. -/
theorem run_invariant (inv : σ → γ → Prop) (hstart : inv x.1 x.2)
    (hown : ∀ s g e t, e ∈ tr → own e → inv s g → step s e t → inv t g)
    (hothers : ∀ s g e t, e ∈ tr → ¬ own e → inv s g → step s e t → inv t (follow g s t))
    (hrun : Run (ShadowStep step own follow) x tr y) : inv y.1 y.2 := by
  induction hrun with
  | nil => exact hstart
  | @snoc tr m y e _ hlast ih =>
      obtain ⟨hstep, hsame, hfollow⟩ := hlast
      have hm : inv m.1 m.2 := by
        apply ih
        · exact fun s g e t he => hown s g e t (List.mem_append_left _ he)
        · exact fun s g e t he => hothers s g e t (List.mem_append_left _ he)
      have he : e ∈ tr ++ [e] := List.mem_append_right _ (List.mem_singleton.mpr rfl)
      by_cases hmine : own e
      · rw [hsame hmine]
        exact hown _ _ _ _ he hmine hm hstep
      · rw [hfollow hmine]
        exact hothers _ _ _ _ he hmine hm hstep

end Shadow

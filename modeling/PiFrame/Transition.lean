import Mathlib.Data.List.Induction

/-!
# Labelled steps and their finite runs

A system is given by a labelled step relation `step : σ → ε → σ → Prop`.  A
run is recorded together with the list of its labels, oldest first, and is
extended at its end, so that a proof about every run is an induction whose
last case is one step of the system.

Two rules are all the later files need: `Run.invariant` for properties of the
reached state, and `Run.history` for properties that relate the reached state
to the labels seen on the way.
-/

namespace Transition

variable {σ ε : Type*}

/-- `Run step s tr t`: the labels `tr` lead from `s` to `t`. -/
inductive Run (step : σ → ε → σ → Prop) (s : σ) : List ε → σ → Prop
  | nil : Run step s [] s
  | snoc {tr : List ε} {t u : σ} {e : ε}
      (before : Run step s tr t) (last : step t e u) : Run step s (tr ++ [e]) u

variable {step : σ → ε → σ → Prop} {s t u : σ}

/-- One step is a run of length one. -/
theorem Run.single {e : ε} (h : step s e t) : Run step s [e] t :=
  Run.nil.snoc h

/-- Runs compose. -/
theorem Run.append {left right : List ε}
    (hleft : Run step s left t) (hright : Run step t right u) :
    Run step s (left ++ right) u := by
  induction hright with
  | nil => simpa using hleft
  | snoc _ hlast ih =>
      rw [← List.append_assoc]
      exact Run.snoc ih hlast

/-- Nothing happens in an empty run. -/
theorem Run.nil_inv (h : Run step s [] t) : t = s := by
  generalize htr : ([] : List ε) = tr at h
  cases h with
  | nil => rfl
  | snoc before last => simp at htr

/-- The last step of a run. -/
theorem Run.snoc_inv {tr : List ε} {e : ε} (h : Run step s (tr ++ [e]) u) :
    ∃ t, Run step s tr t ∧ step t e u := by
  generalize htr : tr ++ [e] = all at h
  cases h with
  | nil => simp at htr
  | snoc before last =>
      obtain ⟨rfl, he⟩ := List.append_inj' htr rfl
      rw [List.singleton_inj.mp he]
      exact ⟨_, before, last⟩

/-- A run can be cut at every position of its label list. -/
theorem Run.split {left right : List ε} (h : Run step s (left ++ right) u) :
    ∃ m, Run step s left m ∧ Run step m right u := by
  induction right using List.reverseRecOn generalizing u with
  | nil => exact ⟨u, by simpa using h, Run.nil⟩
  | append_singleton right e ih =>
      rw [← List.append_assoc] at h
      obtain ⟨t, before, last⟩ := h.snoc_inv
      obtain ⟨m, hleft, hright⟩ := ih before
      exact ⟨m, hleft, hright.snoc last⟩

/-- The first step of a run. -/
theorem Run.cons_inv {e : ε} {tr : List ε} (h : Run step s (e :: tr) u) :
    ∃ t, step s e t ∧ Run step t tr u := by
  have hcut : Run step s ([e] ++ tr) u := h
  obtain ⟨t, hfirst, hrest⟩ := hcut.split
  have hone : Run step s ([] ++ [e]) t := hfirst
  obtain ⟨s', hnil, hlast⟩ := hone.snoc_inv
  rw [hnil.nil_inv] at hlast
  exact ⟨t, hlast, hrest⟩

/-- **History rule.**  A relation between the labels so far and the current
state that holds at the start and survives every step holds along every run. -/
theorem Run.history (inv : List ε → σ → Prop) (hstart : inv [] s)
    (hstep : ∀ tr t e u, Run step s tr t → inv tr t → step t e u → inv (tr ++ [e]) u)
    {tr : List ε} (h : Run step s tr t) : inv tr t := by
  induction h with
  | nil => exact hstart
  | snoc before last ih => exact hstep _ _ _ _ before ih last

/-- **Invariant rule.**  A state predicate that holds at the start and
survives every step holds in every reached state. -/
theorem Run.invariant (inv : σ → Prop) (hstart : inv s)
    (hstep : ∀ t e u, inv t → step t e u → inv u)
    {tr : List ε} (h : Run step s tr t) : inv t :=
  h.history (fun _ t => inv t) hstart (fun _ t e u _ hinv hs => hstep t e u hinv hs)

/-- A run of a restricted system is a run of the larger one. -/
theorem Run.mono {step' : σ → ε → σ → Prop}
    (hsub : ∀ t e u, step t e u → step' t e u)
    {tr : List ε} (h : Run step s tr t) : Run step' s tr t := by
  induction h with
  | nil => exact Run.nil
  | snoc _ last ih => exact Run.snoc ih (hsub _ _ _ last)

end Transition

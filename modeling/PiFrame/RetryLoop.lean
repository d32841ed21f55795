import Mathlib.Data.Nat.Basic

/-!
# Loops that ask again

A loop asks its environment something in every pass, and goes on or returns
according to the answer.  The answers are an infinite sequence, since nobody knows
how many of them a run takes; a number of passes is given to a run so that it is
a function.

Such a loop returns when some measure goes down in every pass but the idle ones, and
the environment has only finitely many idle answers.  It does not return when there
is something that every pass leaves as it is.
-/

namespace RetryLoop

variable {ε σ ρ : Type*}

/-- The passes of a loop, at most `fuel` of them. -/
def run (pass : ε → σ → σ ⊕ ρ) : Nat → (Nat → ε) → σ → Option ρ
  | 0, _, _ => none
  | fuel + 1, answers, s =>
      match pass (answers 0) s with
      | .inl s => run pass fuel (fun i => answers (i + 1)) s
      | .inr r => some r

/-- The loop returns, and with this result. -/
def Returns (pass : ε → σ → σ ⊕ ρ) (answers : Nat → ε) (s : σ) (r : ρ) : Prop :=
  ∃ fuel, run pass fuel answers s = some r

variable {pass : ε → σ → σ ⊕ ρ} {answers : Nat → ε} {s s' : σ} {r r' : ρ}

theorem Returns.now (h : pass (answers 0) s = .inr r) : Returns pass answers s r :=
  ⟨1, by rw [run, h]⟩

/-- A loop whose pass goes on returns if the rest of it does. -/
theorem Returns.again (h : pass (answers 0) s = .inl s')
    (hrest : Returns pass (fun i => answers (i + 1)) s' r) : Returns pass answers s r := by
  obtain ⟨fuel, hfuel⟩ := hrest
  exact ⟨fuel + 1, by rw [run, h, ← hfuel]⟩

/-- More passes do not change a result. -/
theorem run_mono {fuel more : Nat} (hle : fuel ≤ more) (h : run pass fuel answers s = some r) :
    run pass more answers s = some r := by
  induction fuel generalizing more answers s with
  | zero => cases h
  | succ fuel ih =>
      obtain ⟨more, rfl⟩ : ∃ n, more = n + 1 := ⟨more - 1, by omega⟩
      rw [run] at h ⊢
      split at h
      · exact ih (Nat.le_of_succ_le_succ hle) h
      · exact h

/-- There is one result at most. -/
theorem Returns.unique (h : Returns pass answers s r) (h' : Returns pass answers s r') :
    r = r' := by
  obtain ⟨fuel, hfuel⟩ := h
  obtain ⟨more, hmore⟩ := h'
  have hmax := run_mono (Nat.le_max_left fuel more) hfuel
  rw [run_mono (Nat.le_max_right fuel more) hmore] at hmax
  exact (Option.some.inj hmax).symm

/-- **Return rule.**  Every pass that is not idle returns what it should or makes the
measure smaller, and from some answer on no pass is idle. -/
theorem returns_of_measure (inv : σ → Prop) (measure : σ → Nat) (idle : ε → Prop)
    (hidle : ∀ i s, inv s → idle (answers i) → pass (answers i) s = .inl s)
    (hpass : ∀ i s, inv s → ¬ idle (answers i) → pass (answers i) s = .inr r ∨
      ∃ s', pass (answers i) s = .inl s' ∧ inv s' ∧ measure s' < measure s)
    (hfinite : ∃ n, ∀ i ≥ n, ¬ idle (answers i)) (hs : inv s) :
    Returns pass answers s r := by
  obtain ⟨n, hn⟩ := hfinite
  induction hm : measure s using Nat.strongRecOn generalizing s answers n with
  | ind m ih =>
      subst hm
      induction n generalizing answers with
      | zero =>
          rcases hpass 0 s hs (hn 0 (Nat.zero_le 0)) with hr | ⟨s', hs', hinv, hless⟩
          · exact .now hr
          · exact .again hs' (ih _ hless (fun i => hidle (i + 1)) (fun i => hpass (i + 1)) hinv 0
              (fun i _ => hn (i + 1) (Nat.zero_le _)) rfl)
      | succ n ihn =>
          have hlater : ∀ i ≥ n, ¬ idle (answers (i + 1)) :=
            fun i hi => hn (i + 1) (Nat.succ_le_succ hi)
          by_cases hfirst : idle (answers 0)
          · exact .again (hidle 0 s hs hfirst)
              (ihn (fun i => hidle (i + 1)) (fun i => hpass (i + 1)) hlater)
          · rcases hpass 0 s hs hfirst with hr | ⟨s', hs', hinv, hless⟩
            · exact .now hr
            · exact .again hs' (ih _ hless (fun i => hidle (i + 1)) (fun i => hpass (i + 1)) hinv n
                hlater rfl)

/-- **Divergence rule.**  No pass returns as long as the invariant holds, and each
keeps it. -/
theorem not_returns_of_invariant (inv : σ → Prop)
    (hpass : ∀ i s, inv s → ∃ s', pass (answers i) s = .inl s' ∧ inv s') (hs : inv s) :
    ¬ Returns pass answers s r := by
  rintro ⟨fuel, hfuel⟩
  induction fuel generalizing answers s with
  | zero => cases hfuel
  | succ fuel ih =>
      obtain ⟨s', hs', hinv⟩ := hpass 0 s hs
      rw [run, hs'] at hfuel
      exact ih (fun i => hpass (i + 1)) hinv hfuel

/-- **Result rule.**  Every pass keeps the invariant or returns what it should. -/
theorem Returns.result {post : ρ → Prop} (inv : σ → Prop)
    (hpass : ∀ a s, inv s → (∀ s', pass a s = .inl s' → inv s') ∧ ∀ r, pass a s = .inr r → post r)
    (hs : inv s) (h : Returns pass answers s r) : post r := by
  obtain ⟨fuel, hfuel⟩ := h
  induction fuel generalizing answers s with
  | zero => cases hfuel
  | succ fuel ih =>
      obtain ⟨hagain, hnow⟩ := hpass (answers 0) s hs
      rw [run] at hfuel
      split at hfuel
      · next s' hs' => exact ih (hagain s' hs') hfuel
      · next r' hr' =>
          cases hfuel
          exact hnow r hr'

end RetryLoop

import Mathlib.Logic.ExistsUnique

/-!
# Custody

Things are handed around between keepers: nodes between lists and threads,
blocks of memory between records and their users.  `OneKeeper has there` says
that everything that is there has exactly one keeper, and that nobody keeps
what is not there.  It survives a move of one thing, which may be new, and the
loss of one thing.
-/

namespace Custody

variable {ω τ : Type*} {has has' : ω → τ → Prop} {there there' : τ → Prop} {o o' y : ω} {t : τ}

/-- Whatever is there has exactly one keeper. -/
structure OneKeeper (has : ω → τ → Prop) (there : τ → Prop) : Prop where
  exclusive : ∀ o o' t, has o t → has o' t → o = o'
  kept : ∀ t, there t ↔ ∃ o, has o t

namespace OneKeeper

/-- A thing that is there has one keeper and no second. -/
theorem existsUnique (h : OneKeeper has there) (ht : there t) : ∃! o, has o t := by
  obtain ⟨o, ho⟩ := (h.kept t).mp ht
  exact ⟨o, ho, fun o' ho' => h.exclusive o' o t ho' ho⟩

theorem there_of_has (h : OneKeeper has there) (ho : has o t) : there t :=
  (h.kept t).mpr ⟨o, ho⟩

/-- Nobody keeps what is not there. -/
theorem not_has (h : OneKeeper has there) (ht : ¬ there t) (o : ω) : ¬ has o t :=
  fun ho => ht (h.there_of_has ho)

/-- Nobody keeps what another keeps. -/
theorem not_has_of_ne (h : OneKeeper has there) (ho : has o t) (hne : o' ≠ o) : ¬ has o' t :=
  fun ho' => hne (h.exclusive o' o t ho' ho)

/-- The predicate is about the two relations only, however they are written. -/
theorem congr (h : OneKeeper has there) (hhas : ∀ o t, has' o t ↔ has o t)
    (hthere : ∀ t, there' t ↔ there t) : OneKeeper has' there' := by
  refine ⟨fun o o' t ho ho' => ?_, fun t => ?_⟩
  · exact h.exclusive o o' t ((hhas o t).mp ho) ((hhas o' t).mp ho')
  · rw [hthere, h.kept]
    exact exists_congr fun o => (hhas o t).symm

/-- One thing moves to keeper `y`, or comes to it. -/
theorem move (h : OneKeeper has there) (hself : ∀ o, has' o t ↔ o = y)
    (hother : ∀ u, u ≠ t → ∀ o, has' o u ↔ has o u) (ht : there' t)
    (hthere : ∀ u, u ≠ t → (there' u ↔ there u)) : OneKeeper has' there' := by
  refine ⟨fun o o' u ho ho' => ?_, fun u => ?_⟩
  · by_cases hu : u = t
    · subst hu
      rw [(hself o).mp ho, (hself o').mp ho']
    · exact h.exclusive o o' u ((hother u hu o).mp ho) ((hother u hu o').mp ho')
  · by_cases hu : u = t
    · subst hu
      exact iff_of_true ht ⟨y, (hself y).mpr rfl⟩
    · rw [hthere u hu, h.kept]
      exact exists_congr fun o => (hother u hu o).symm

/-- One thing is gone. -/
theorem lose (h : OneKeeper has there) (hself : ∀ o, ¬ has' o t)
    (hother : ∀ u, u ≠ t → ∀ o, has' o u ↔ has o u) (ht : ¬ there' t)
    (hthere : ∀ u, u ≠ t → (there' u ↔ there u)) : OneKeeper has' there' := by
  refine ⟨fun o o' u ho ho' => ?_, fun u => ?_⟩
  · by_cases hu : u = t
    · exact absurd (hu ▸ ho) (hself o)
    · exact h.exclusive o o' u ((hother u hu o).mp ho) ((hother u hu o').mp ho')
  · by_cases hu : u = t
    · subst hu
      exact iff_of_false ht fun ⟨o, ho⟩ => hself o ho
    · rw [hthere u hu, h.kept]
      exact exists_congr fun o => (hother u hu o).symm

end OneKeeper

end Custody

import Mathlib.Data.Set.Insert

/-!
# Blocks that are freed once

A ledger holds the blocks that have been allocated and not yet freed.  The argument of
`free` has to be the start of a block in the ledger, which is then struck out.

A list of arguments is in order exactly when all of them are starts of blocks in the
ledger and no block comes twice.  What is left are the other blocks.
-/

namespace FreeLedger

variable {α : Type*}

/-- A pointer into a block. -/
structure Pointer (α : Type*) where
  block : α
  offset : Nat
  deriving DecidableEq, Repr

/-- The pointer that the allocation returned. -/
def Pointer.start (block : α) : Pointer α := ⟨block, 0⟩

/-- The arguments are freed one after the other, and `rest` is left. -/
def Frees (ledger : Set α) : List (Pointer α) → Set α → Prop
  | [], rest => rest = ledger
  | p :: ps, rest => p.offset = 0 ∧ p.block ∈ ledger ∧ Frees (ledger \ {p.block}) ps rest

variable {ledger rest : Set α} {ps : List (Pointer α)}

/-- A row of `free`s succeeds if each is of the start of a live block and no two are of the same. -/
theorem frees_iff : Frees ledger ps rest ↔
    (∀ p ∈ ps, p.offset = 0 ∧ p.block ∈ ledger) ∧ (ps.map (·.block)).Nodup ∧
      rest = {a ∈ ledger | a ∉ ps.map (·.block)} := by
  induction ps generalizing ledger with
  | nil => simp [Frees]
  | cons p ps ih =>
      have hrest : {a ∈ ledger \ {p.block} | a ∉ ps.map (·.block)}
          = {a ∈ ledger | a ∉ (p :: ps).map (·.block)} := by
        ext a
        simp only [Set.mem_ofPred_eq, Set.mem_sdiff, Set.mem_singleton_iff, List.map_cons,
          List.mem_cons, not_or, and_assoc]
      rw [Frees, ih, hrest, List.forall_mem_cons, List.map_cons, List.nodup_cons]
      constructor
      · rintro ⟨hstart, hmem, hall, hnodup, heq⟩
        refine ⟨⟨⟨hstart, hmem⟩, fun q hq => ⟨(hall q hq).1, (hall q hq).2.1⟩⟩, ⟨?_, hnodup⟩, heq⟩
        intro hp
        obtain ⟨q, hq, hsame⟩ := List.mem_map.1 hp
        exact (hall q hq).2.2 hsame
      · rintro ⟨⟨⟨hstart, hmem⟩, hall⟩, ⟨hnew, hnodup⟩, heq⟩
        refine ⟨hstart, hmem, fun q hq => ⟨(hall q hq).1, (hall q hq).2, ?_⟩, hnodup, heq⟩
        intro hsame
        exact hnew (List.mem_map.2 ⟨q, hq, hsame⟩)

/-- Whole blocks are freed. -/
theorem frees_starts {blocks : List α} : Frees ledger (blocks.map .start) rest ↔
    (∀ a ∈ blocks, a ∈ ledger) ∧ blocks.Nodup ∧ rest = {a ∈ ledger | a ∉ blocks} := by
  have hmap : (blocks.map Pointer.start).map (·.block) = blocks := by
    rw [List.map_map]
    exact List.map_id _
  rw [frees_iff, hmap, List.forall_mem_map]
  exact and_congr_left fun _ => forall₂_congr fun a _ => and_iff_right rfl

end FreeLedger

import PiFrame.FreeLedger
import PiFrame.UtilFifo

/-!
# Giving the queue back

`PFU_destroyFIFO` frees every node that is still in `queueRoot` by itself, then the array
of nodes if there is one, and the queue.  Without a pool every node is a block of its own.
With a pool the nodes lie in the array.
-/

namespace UtilFifo

open Custody FreeLedger Transition

/-- What the functions of the queue get from `calloc` and `malloc`. -/
inductive Alloc
  | queue
  | itemPool
  | item (i : Node)
  | copy (p : Ptr)
  deriving DecidableEq, Repr

abbrev Ledger := Set Alloc

/-- `sizeof(QItem)`: two links, a size and a pointer. -/
def sizeofQItem : Nat := 32

/-- The address of node `i`. -/
def PFQueue.nodePointer (s : PFQueue) (i : Node) : Pointer Alloc :=
  if s.poolCount = 0 then .start (.item i) else ⟨.itemPool, i * sizeofQItem⟩

/-- What a step allocates for the queue: a node without a pool, or the copy of a message.
Blocks that the rest of the program allocates are its own at once. -/
def Allocates (s t : PFQueue) : Alloc → Prop
  | .item i => s.poolCount = 0 ∧ s.items i = none ∧ t.items i ≠ none
  | .copy p => s.heap p = none ∧ t.heap p ≠ none ∧ t.given p = false
  | _ => False

/-- What a step frees. -/
def Discards (s t : PFQueue) : Alloc → Prop
  | .item i => s.items i ≠ none ∧ t.items i = none
  | .copy p => s.heap p ≠ none ∧ t.heap p = none
  | _ => False

/-- The queue with the ledger of its allocations. -/
structure Tracked where
  queue : PFQueue
  ledger : Ledger

/-- `PFU_createFIFO` allocates the queue and, for a pool, the array. -/
def trackedCreate (queueCount : Nat) (heap : Ptr → Option Message) : Tracked where
  queue := createFIFO queueCount heap
  ledger := {a | a = .queue ∨ a = .itemPool ∧ 0 < queueCount}

/-- The ledger after a step. -/
def Ledger.after (s t : PFQueue) (ledger : Ledger) : Ledger :=
  {a | Allocates s t a ∨ a ∈ ledger ∧ ¬ Discards s t a}

def TrackedStep (s : Tracked) (e : Task × Event) (t : Tracked) : Prop :=
  Step s.queue e t.queue ∧ t.ledger = s.ledger.after s.queue t.queue

/-- What `PFU_destroyFIFO` frees for node `i`. -/
def PFQueue.drainArgs (s : PFQueue) (i : Node) : List (Pointer Alloc) :=
  (s.itemData i).toList.map (fun p => .start (.copy p)) ++ [s.nodePointer i]

/-- The arguments that `PFU_destroyFIFO` passes to `free`. -/
def PFQueue.destroyArgs (s : PFQueue) : List (Pointer Alloc) :=
  s.queueRoot.flatMap s.drainArgs ++
    ((if 0 < s.poolCount then [.start .itemPool] else []) ++ [.start .queue])

/-- `PFU_destroyFIFO` frees starts of blocks, none of them twice, and leaves nothing but
copies that `PFU_dequeueFIFO` has handed out. -/
def Releases (s : Tracked) : Prop :=
  ∃ rest, Frees s.ledger s.queue.destroyArgs rest ∧
    ∀ a ∈ rest, ∃ p, a = .copy p ∧ s.queue.given p = true

variable {s t : PFQueue} {a b : Tracked} {n : Nat} {heap : Ptr → Option Message}
  {tr : List (Task × Event)} {i : Node} {p : Ptr}

/-! ## The ledger along a run -/

/-- The count stays, and without a pool nothing comes into `emptyRoot`. -/
theorem count_step {e : Task × Event} (hstep : Step s e t) :
    t.poolCount = s.poolCount ∧ (s.poolCount = 0 → s.emptyRoot = [] → t.emptyRoot = []) := by
  cases hstep with
  | @freeQItem k i data at_call =>
      cases hdata : s.itemData i <;> exact ⟨rfl, fun _ h => h⟩
  | @dequeued k data at_call => cases data <;> exact ⟨rfl, fun _ h => h⟩
  | allocQItem at_call test =>
      refine ⟨rfl, fun _ h => ?_⟩
      rw [test] at h
      cases h
  | recycle at_call pool => exact ⟨rfl, fun h => absurd h pool⟩
  | _ => exact ⟨rfl, fun _ h => h⟩

/-- Who has been given a block keeps it until it is freed. -/
theorem given_step {e : Task × Event} (hstep : Step s e t) (hgiven : s.given p = true)
    (hthere : t.heap p ≠ none) : t.given p = true := by
  have hset : ∀ q, Function.update s.given q true p = true := by
    intro q
    by_cases hq : p = q
    · rw [hq, Function.update_self]
    · rwa [Function.update_of_ne hq]
  cases hstep with
  | @freeQItem k i data at_call =>
      cases hdata : s.itemData i <;> exact hgiven
  | @dequeued k data at_call =>
      cases data with
      | none => exact hgiven
      | some q => exact hset q
  | malloc fresh => exact hset _
  | @free k q own =>
      by_cases hq : p = q
      · exact absurd (hq ▸ Function.update_self ..) hthere
      · exact (Function.update_of_ne hq ..).trans hgiven
  | _ => exact hgiven

/-- What the ledger has to do with the queue. -/
structure Accounted (n : Nat) (s : Tracked) : Prop where
  count : s.queue.poolCount = n
  emptyRoot : n = 0 → s.queue.emptyRoot = []
  queue : .queue ∈ s.ledger
  itemPool : .itemPool ∈ s.ledger ↔ 0 < n
  item : ∀ i, .item i ∈ s.ledger ↔ n = 0 ∧ s.queue.items i ≠ none
  there : ∀ p, .copy p ∈ s.ledger → s.queue.heap p ≠ none
  copy : ∀ p, s.queue.heap p ≠ none → s.queue.given p = false → .copy p ∈ s.ledger

/-- The blocks of a new queue are those that it has allocated. -/
theorem accounted_create : Accounted n (trackedCreate n heap) where
  count := rfl
  emptyRoot h := by rw [h]; rfl
  queue := .inl rfl
  itemPool := by simp [trackedCreate]
  item i := by
    refine iff_of_false (by simp [trackedCreate]) ?_
    rintro ⟨rfl, hitem⟩
    exact hitem rfl
  there p h := by simp [trackedCreate] at h
  copy p hthere hgiven := by
    have hsome : (heap p).isSome = true := Option.isSome_iff_ne_none.2 hthere
    exact absurd (hsome.symm.trans hgiven) (by decide)

/-- Every step of every task keeps the account of the blocks, since a block is on it from its
`malloc` to its `free`. -/
theorem Accounted.step (h : Accounted n a) {e : Task × Event} (hstep : TrackedStep a e b) :
    Accounted n b := by
  obtain ⟨hstep, hledger⟩ := hstep
  obtain ⟨hcount, hempty⟩ := count_step hstep
  have hmem : ∀ x, x ∈ b.ledger ↔
      Allocates a.queue b.queue x ∨ x ∈ a.ledger ∧ ¬ Discards a.queue b.queue x := by
    intro x
    rw [hledger]
    exact Iff.rfl
  refine ⟨hcount.trans h.count, ?_, ?_, ?_, fun i => ?_, fun p hp => ?_, fun p hthere hgiven => ?_⟩
  · intro hn
    exact hempty (h.count.trans hn) (h.emptyRoot hn)
  · exact (hmem _).2 (.inr ⟨h.queue, id⟩)
  · rw [hmem, h.itemPool]
    simp [Allocates, Discards]
  · rw [hmem, h.item, Allocates, Discards, h.count]
    by_cases hi : a.queue.items i = none <;> simp [hi]
  · rcases (hmem _).1 hp with hnew | ⟨hold, hkept⟩
    · exact hnew.2.1
    · exact fun hnone => hkept ⟨h.there p hold, hnone⟩
  · by_cases hbefore : a.queue.heap p = none
    · exact (hmem _).2 (.inl ⟨hbefore, hthere, hgiven⟩)
    · have hown : a.queue.given p = false := by
        by_contra hset
        have hafter := given_step hstep (Bool.of_not_eq_false hset) hthere
        exact absurd (hafter.symm.trans hgiven) (by decide)
      exact (hmem _).2 (.inr ⟨h.copy p hbefore hown, fun hgone => hthere hgone.2⟩)

/-- Over whole runs, the blocks are accounted for. -/
theorem Accounted.run (hrun : Run TrackedStep (trackedCreate n heap) tr a) : Accounted n a :=
  hrun.invariant (Accounted n) accounted_create fun _ _ _ h hstep => h.step hstep

/-- Without the ledger a run is a run of the queue. -/
theorem run_queue (hrun : Run TrackedStep (trackedCreate n heap) tr a) :
    Run Step (createFIFO n heap) tr a.queue := by
  induction hrun with
  | nil => exact .nil
  | snoc _ last ih => exact ih.snoc last.1

/-! ## Between the calls -/

/-- When no call is in flight, every node is in one of the lists. -/
theorem Inv.node_of_idle (hinv : Inv tr s) (hidle : ∀ k, s.calls k = .idle)
    (hi : s.items i ≠ none) : i ∈ s.emptyRoot ∨ i ∈ s.queueRoot := by
  obtain ⟨place, hplace⟩ := (hinv.nodes.kept i).1 hi
  cases place with
  | emptyRoot => exact .inl hplace
  | queueRoot => exact .inr hplace
  | call k =>
      rw [PFQueue.At, hidle k] at hplace
      cases hplace

/-- When no call is in flight, every block is in a queued node or has been given away. -/
theorem Inv.block_of_idle (hinv : Inv tr s) (hidle : ∀ k, s.calls k = .idle)
    (hp : s.heap p ≠ none) :
    (∃ i ∈ s.queueRoot, s.itemData i = some p) ∨ s.given p = true := by
  obtain ⟨keeper, hkeeper⟩ := (hinv.blocks.kept p).1 hp
  cases keeper with
  | program => exact .inr hkeeper
  | call k =>
      rw [PFQueue.Owns, hidle k] at hkeeper
      cases hkeeper
  | item i =>
      have hdata : s.itemData i = some p := hkeeper
      have hitem : s.items i ≠ none := by
        intro hnone
        rw [PFQueue.itemData, hnone] at hdata
        cases hdata
      rcases hinv.node_of_idle hidle hitem with hempty | hqueue
      · rw [PFQueue.itemData, hinv.blank i hempty] at hdata
        cases hdata
      · exact .inl ⟨i, hqueue, hdata⟩

/-! ## Without a pool -/

/-- The blocks that are freed for node `i`. -/
def PFQueue.drainBlocks (s : PFQueue) (i : Node) : List Alloc :=
  (s.itemData i).toList.map .copy ++ [.item i]

/-- Draining an item frees the copy that it holds and the item. -/
theorem mem_drainBlocks {x : Alloc} : x ∈ s.drainBlocks i ↔
    (∃ p, s.itemData i = some p ∧ x = .copy p) ∨ x = .item i := by
  simp [PFQueue.drainBlocks, eq_comm]

/-- All the blocks that are freed. -/
def PFQueue.ownBlocks (s : PFQueue) : List Alloc :=
  s.queueRoot.flatMap s.drainBlocks ++ [.queue]

/-- The queue's own blocks are those of the items in it, and the queue. -/
theorem mem_ownBlocks {x : Alloc} : x ∈ s.ownBlocks ↔
    (∃ i ∈ s.queueRoot, (∃ p, s.itemData i = some p ∧ x = .copy p) ∨ x = .item i) ∨
      x = .queue := by
  simp only [PFQueue.ownBlocks, List.mem_append, List.mem_flatMap, mem_drainBlocks,
    List.mem_singleton]

/-- Without a pool, `free` is called with the start of each of the queue's own blocks. -/
theorem destroyArgs_of_no_pool (hpool : s.poolCount = 0) :
    s.destroyArgs = s.ownBlocks.map .start := by
  have hdrain : ∀ i, s.drainArgs i = (s.drainBlocks i).map .start := by
    intro i
    simp [PFQueue.drainArgs, PFQueue.drainBlocks, PFQueue.nodePointer, hpool]
  rw [PFQueue.destroyArgs, if_neg (by omega), List.nil_append, PFQueue.ownBlocks, List.map_append,
    List.map_flatMap]
  exact congrArg (· ++ _) (List.flatMap_congr fun i _ => hdrain i)

/-- No node and no copy belongs to two queued nodes. -/
theorem Inv.nodup_ownBlocks (hinv : Inv tr s) : s.ownBlocks.Nodup := by
  have hqueue : .queue ∉ s.queueRoot.flatMap s.drainBlocks := by
    simp [List.mem_flatMap, mem_drainBlocks]
  rw [PFQueue.ownBlocks, List.nodup_append_comm]
  refine List.nodup_cons.2 ⟨hqueue, List.nodup_flatMap.2 ⟨fun i _ => ?_, ?_⟩⟩
  · cases hdata : s.itemData i <;> simp [PFQueue.drainBlocks, hdata]
  · refine hinv.queueNodup.imp fun {i j} hij => ?_
    intro x hi hj
    rcases mem_drainBlocks.1 hi with ⟨p, hp, rfl⟩ | rfl <;>
      rcases mem_drainBlocks.1 hj with ⟨q, hq, heq⟩ | heq
    · cases heq
      exact hij (Keeper.item.inj (hinv.blocks.exclusive (.item i) (.item j) p hp hq))
    · cases heq
    · cases heq
    · exact hij (Alloc.item.inj heq)

/-- What is freed has not been freed before. -/
theorem Accounted.ownBlocks_subset (h : Accounted 0 a) (hinv : Inv tr a.queue) :
    ∀ x ∈ a.queue.ownBlocks, x ∈ a.ledger := by
  intro x hx
  rcases mem_ownBlocks.1 hx with ⟨i, hi, ⟨p, hp, rfl⟩ | rfl⟩ | rfl
  · have howns : a.queue.Owns (.item i) p := hp
    have hgiven : ¬ a.queue.Owns .program p :=
      hinv.blocks.not_has_of_ne howns Keeper.noConfusion
    exact h.copy p (hinv.blocks.there_of_has howns) (Bool.eq_false_iff.2 hgiven)
  · have hat : a.queue.At .queueRoot i := hi
    exact (h.item i).2 ⟨rfl, hinv.nodes.there_of_has hat⟩
  · exact h.queue

/-- Without a pool everything is freed by itself. -/
theorem Accounted.releases_of_no_pool (h : Accounted 0 a) (hinv : Inv tr a.queue)
    (hidle : ∀ k, a.queue.calls k = .idle) : Releases a := by
  refine ⟨{x ∈ a.ledger | x ∉ a.queue.ownBlocks}, ?_, ?_⟩
  · rw [destroyArgs_of_no_pool h.count]
    exact frees_starts.2 ⟨h.ownBlocks_subset hinv, hinv.nodup_ownBlocks, rfl⟩
  · rintro x ⟨hx, hkept⟩
    rw [mem_ownBlocks, not_or] at hkept
    cases x with
    | queue => exact absurd rfl hkept.2
    | itemPool => exact absurd (h.itemPool.1 hx) (lt_irrefl 0)
    | item i =>
        rcases hinv.node_of_idle hidle ((h.item i).1 hx).2 with hempty | hqueue
        · rw [h.emptyRoot rfl] at hempty
          cases hempty
        · exact absurd ⟨i, hqueue, .inr rfl⟩ hkept.1
    | copy p =>
        rcases hinv.block_of_idle hidle (h.there p hx) with ⟨i, hqueue, hp⟩ | hgiven
        · exact absurd ⟨i, hqueue, .inl ⟨p, hp, rfl⟩⟩ hkept.1
        · exact ⟨p, rfl, hgiven⟩

/-! ## With a pool -/

/-- With nothing queued the array and the queue are freed. -/
theorem Accounted.releases_of_empty (h : Accounted n a) (hn : 0 < n) (hinv : Inv tr a.queue)
    (hidle : ∀ k, a.queue.calls k = .idle) (hempty : a.queue.queueRoot = []) : Releases a := by
  have hargs : a.queue.destroyArgs = [Alloc.itemPool, Alloc.queue].map .start := by
    rw [PFQueue.destroyArgs, hempty, if_pos (h.count ▸ hn)]
    rfl
  refine ⟨{x ∈ a.ledger | x ∉ [Alloc.itemPool, Alloc.queue]}, ?_, ?_⟩
  · rw [hargs]
    refine frees_starts.2 ⟨?_, by decide, rfl⟩
    simp [h.queue, h.itemPool, hn]
  · rintro x ⟨hx, hkept⟩
    cases x with
    | queue => simp at hkept
    | itemPool => simp at hkept
    | item i => exact absurd ((h.item i).1 hx).1 hn.ne'
    | copy p =>
        rcases hinv.block_of_idle hidle (h.there p hx) with ⟨i, hqueue, -⟩ | hgiven
        · rw [hempty] at hqueue
          cases hqueue
        · exact ⟨p, rfl, hgiven⟩

/-- The node that is queued first lies in the array, which is freed as well. -/
theorem not_releases_of_queued (hpool : 0 < a.queue.poolCount) (hi : i ∈ a.queue.queueRoot) :
    ¬ Releases a := by
  rintro ⟨rest, hfrees, -⟩
  obtain ⟨hstart, hnodup, -⟩ := frees_iff.1 hfrees
  have hnode : a.queue.nodePointer i = ⟨.itemPool, i * sizeofQItem⟩ := if_neg hpool.ne'
  have hmem : a.queue.nodePointer i ∈ a.queue.queueRoot.flatMap a.queue.drainArgs :=
    List.mem_flatMap.2 ⟨i, hi, List.mem_append_right _ (List.mem_singleton_self _)⟩
  rw [PFQueue.destroyArgs, if_pos hpool, List.map_append] at hnodup
  have htwice := List.disjoint_of_nodup_append hnodup
  refine htwice (List.mem_map_of_mem hmem) ?_
  rw [hnode]
  simp [Pointer.start]

/-- **Destruction.**  The queue is given back in order exactly when it has no pool or no
message is in it. -/
theorem destroy_releases_iff (hrun : Run TrackedStep (trackedCreate n heap) tr a)
    (hidle : ∀ k, a.queue.calls k = .idle) :
    Releases a ↔ n = 0 ∨ a.queue.queueRoot = [] := by
  have h := Accounted.run hrun
  have hinv := run_faithful (run_queue hrun)
  constructor
  · intro hreleases
    by_contra hneither
    rw [not_or] at hneither
    obtain ⟨i, rest, hqueue⟩ := List.exists_cons_of_ne_nil hneither.2
    refine not_releases_of_queued ?_ (hqueue ▸ List.mem_cons_self) hreleases
    rw [h.count]
    exact Nat.pos_of_ne_zero hneither.1
  · rintro (rfl | hempty)
    · exact h.releases_of_no_pool hinv hidle
    · rcases Nat.eq_zero_or_pos n with rfl | hn
      · exact h.releases_of_no_pool hinv hidle
      · exact h.releases_of_empty hn hinv hidle hempty

/-- Every run of the queue has its ledger. -/
theorem tracked_run (hrun : Run Step (createFIFO n heap) tr s) :
    ∃ ledger, Run TrackedStep (trackedCreate n heap) tr ⟨s, ledger⟩ := by
  induction hrun with
  | nil => exact ⟨_, .nil⟩
  | @snoc tr s t e _ last ih =>
      obtain ⟨ledger, hledger⟩ := ih
      have hstep : TrackedStep ⟨s, ledger⟩ e ⟨t, ledger.after s t⟩ := ⟨last, rfl⟩
      exact ⟨_, hledger.snoc hstep⟩

/-- A message is queued without a pool, and the queue is given back. -/
theorem destroy_releases_one_message : ∃ tr a,
    Run TrackedStep (trackedCreate 0 fun _ => none) tr a ∧ enqueued tr = [[1, 2]] ∧
      dequeued tr = [] ∧ Releases a := by
  have hrun := Run.nil.snoc (@Step.enqueueFIFO (createFIFO 0 fun _ => none) 0 [1, 2] rfl)
  have hrun := hrun.snoc (@Step.mallocItem _ 0 [1, 2] 7 rfl rfl rfl)
  have hrun := hrun.snoc (@Step.fill _ 0 7 [1, 2] 5 rfl rfl)
  have hrun := hrun.snoc (@Step.insert _ 0 7 [1, 2] rfl)
  obtain ⟨ledger, htracked⟩ := tracked_run hrun
  refine ⟨_, _, htracked, rfl, rfl, (destroy_releases_iff htracked fun k => ?_).2 (.inl rfl)⟩
  by_cases hk : k = 0 <;> simp [PFQueue.goto, PFQueue.withQueue, PFQueue.withItem,
    PFQueue.withBlock, createFIFO, hk]

/-- A message is queued in a pool of one node, and a destruction at this moment does not release
all that is owned. -/
theorem pool_not_released : ∃ tr a,
    Run TrackedStep (trackedCreate 1 fun _ => none) tr a ∧ enqueued tr = [[1, 2]] ∧
      dequeued tr = [] ∧ (∀ k, a.queue.calls k = .idle) ∧ ¬ Releases a := by
  have hrun := Run.nil.snoc (@Step.enqueueFIFO (createFIFO 1 fun _ => none) 0 [1, 2] rfl)
  have hrun := hrun.snoc (@Step.emptyRootSeen _ 0 [1, 2] rfl (by decide) (by decide))
  have hrun := hrun.snoc (@Step.allocQItem _ 0 [1, 2] 0 [] rfl rfl)
  have hrun := hrun.snoc (@Step.fill _ 0 0 [1, 2] 5 rfl rfl)
  have hrun := hrun.snoc (@Step.insert _ 0 0 [1, 2] rfl)
  obtain ⟨ledger, htracked⟩ := tracked_run hrun
  refine ⟨_, _, htracked, rfl, rfl, fun k => ?_, ?_⟩
  · by_cases hk : k = 0 <;> simp [PFQueue.goto, PFQueue.withQueue, PFQueue.withItem,
      PFQueue.withBlock, PFQueue.withEmpty, createFIFO, hk]
  · exact not_releases_of_queued Nat.one_pos (List.mem_singleton_self 0)

end UtilFifo

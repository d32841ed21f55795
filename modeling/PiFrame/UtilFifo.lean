import Mathlib.Data.List.Nodup
import Mathlib.Data.List.Perm.Subperm
import PiFrame.Custody
import PiFrame.Transition

/-!
# The queue of the service daemon

`lib/util/utilFifo.c` with any number of threads that put messages in and take
them out.  A thread takes a node from `emptyRoot` in one section under the
mutex, fills it without the mutex, and inserts it into `queueRoot` in another;
the way back is alike.  Before each section that takes a node there is a look
at the list without the mutex.  Sections and looks are steps, and so is what a
thread does to its own node in between.

The memory that `malloc` hands out is shared with the rest of the program,
which allocates and frees blocks of its own and writes to them.  A message is a
copy in a block that belongs first to the node and then to the call that takes
it, and at last to the caller.
-/

namespace UtilFifo

open Custody Transition

/-- A `QItem`, by its address. -/
abbrev Node := Nat

/-- An address that `malloc` hands out. -/
abbrev Ptr := Nat

/-- A thread. -/
abbrev Task := Nat

/-- The bytes of a message. -/
abbrev Message := List UInt8

/-- `QItem` without its links. -/
structure QItem where
  size : Nat
  data : Option Ptr
  deriving DecidableEq, Repr

/-- Where the call of a thread stands. -/
inductive Call
  | idle
  | enqueue (data : Message)
  | allocating (data : Message)
  | waiting (data : Message)
  | allocated (item : Node) (data : Message)
  | filled (item : Node) (data : Message)
  | dequeue
  | taking
  | taken (item : Node) (data : Option Ptr)
  | cleared (item : Node) (data : Option Ptr)
  | returning (data : Option Ptr)
  deriving DecidableEq, Repr

/-- The node in the hands of the call. -/
def Call.item : Call → Option Node
  | .allocated i _ => some i
  | .filled i _ => some i
  | .taken i _ => some i
  | .cleared i _ => some i
  | _ => none

/-- The block that the call is going to return. -/
def Call.data : Call → Option Ptr
  | .taken _ data => data
  | .cleared _ data => data
  | .returning data => data
  | _ => none

/-- `struct PFQueue` with the memory around it and the calls in flight.
`given p` when block `p` belongs to the rest of the program. -/
structure PFQueue where
  poolCount : Nat
  items : Node → Option QItem
  emptyRoot : List Node
  queueRoot : List Node
  heap : Ptr → Option Message
  given : Ptr → Bool
  calls : Task → Call

/-- What can be seen of a step. -/
inductive Event
  | run
  | inserted (data : Message)
  | taken (data : Option Message)
  | ret (data : Option Ptr)

namespace PFQueue

/-- Thread `k` goes on to `c`. -/
def goto (s : PFQueue) (k : Task) (c : Call) : PFQueue :=
  { s with calls := Function.update s.calls k c }

def withItem (s : PFQueue) (i : Node) (item : Option QItem) : PFQueue :=
  { s with items := Function.update s.items i item }

def withBlock (s : PFQueue) (p : Ptr) (block : Option Message) : PFQueue :=
  { s with heap := Function.update s.heap p block }

def withGiven (s : PFQueue) (p : Ptr) (given : Bool) : PFQueue :=
  { s with given := Function.update s.given p given }

def withEmpty (s : PFQueue) (emptyRoot : List Node) : PFQueue :=
  { s with emptyRoot }

def withQueue (s : PFQueue) (queueRoot : List Node) : PFQueue :=
  { s with queueRoot }

/-- The message in node `i`. -/
def message (s : PFQueue) (i : Node) : Option Message :=
  (s.items i).bind fun item => item.data.bind s.heap

/-- `item->data` of node `i`. -/
def itemData (s : PFQueue) (i : Node) : Option Ptr :=
  (s.items i).bind QItem.data

/-- `if (item->data) free (item->data)`. -/
def freeData (s : PFQueue) : Option Ptr → PFQueue
  | none => s
  | some p => s.withBlock p none

/-- The caller gets the block. -/
def give (s : PFQueue) : Option Ptr → PFQueue
  | none => s
  | some p => s.withGiven p true

end PFQueue

/-- A node with nothing in it. -/
def QItem.empty : QItem := ⟨0, none⟩

/-- `PFU_createFIFO`. -/
def createFIFO (queueCount : Nat) (heap : Ptr → Option Message) : PFQueue where
  poolCount := queueCount
  items := fun i => if i < queueCount then some .empty else none
  emptyRoot := List.range queueCount
  queueRoot := []
  heap := heap
  given := fun p => (heap p).isSome
  calls := fun _ => .idle

/-- The atomic steps, each labelled with the thread it belongs to. -/
inductive Step : PFQueue → Task × Event → PFQueue → Prop
  | enqueueFIFO {s : PFQueue} {k : Task} {data : Message} (at_call : s.calls k = .idle) :
      Step s (k, .run) (s.goto k (.enqueue data))
  /-- `allocQItem` without a pool. -/
  | mallocItem {s : PFQueue} {k : Task} {data : Message} {i : Node}
      (at_call : s.calls k = .enqueue data) (pool : s.poolCount = 0) (fresh : s.items i = none) :
      Step s (k, .run) ((s.withItem i (some .empty)).goto k (.allocated i data))
  | emptyRootEmpty {s : PFQueue} {k : Task} {data : Message}
      (at_call : s.calls k = .enqueue data) (pool : s.poolCount ≠ 0) (test : s.emptyRoot = []) :
      Step s (k, .run) (s.goto k (.waiting data))
  | emptyRootSeen {s : PFQueue} {k : Task} {data : Message}
      (at_call : s.calls k = .enqueue data) (pool : s.poolCount ≠ 0) (test : s.emptyRoot ≠ []) :
      Step s (k, .run) (s.goto k (.allocating data))
  | allocQItem {s : PFQueue} {k : Task} {data : Message} {i : Node} {rest : List Node}
      (at_call : s.calls k = .allocating data) (test : s.emptyRoot = i :: rest) :
      Step s (k, .run) ((s.withEmpty rest).goto k (.allocated i data))
  | allocMissed {s : PFQueue} {k : Task} {data : Message}
      (at_call : s.calls k = .allocating data) (test : s.emptyRoot = []) :
      Step s (k, .run) (s.goto k (.waiting data))
  /-- The signal came, or the second is over. -/
  | waited {s : PFQueue} {k : Task} {data : Message} (at_call : s.calls k = .waiting data) :
      Step s (k, .run) (s.goto k (.enqueue data))
  /-- `item->data = malloc(size)` and the copy. -/
  | fill {s : PFQueue} {k : Task} {i : Node} {data : Message} {p : Ptr}
      (at_call : s.calls k = .allocated i data) (fresh : s.heap p = none) :
      Step s (k, .run) (((s.withBlock p (some data)).withItem i
        ((s.items i).map fun _ => ⟨data.length, some p⟩)).goto k (.filled i data))
  /-- The item goes into `queueRoot`, and the call is over. -/
  | insert {s : PFQueue} {k : Task} {i : Node} {data : Message}
      (at_call : s.calls k = .filled i data) :
      Step s (k, .inserted data) ((s.withQueue (s.queueRoot ++ [i])).goto k .idle)
  | dequeueFIFO {s : PFQueue} {k : Task} (at_call : s.calls k = .idle) :
      Step s (k, .run) (s.goto k .dequeue)
  | queueRootEmpty {s : PFQueue} {k : Task} (at_call : s.calls k = .dequeue)
      (test : s.queueRoot = []) :
      Step s (k, .run) (s.goto k (.returning none))
  | queueRootSeen {s : PFQueue} {k : Task} (at_call : s.calls k = .dequeue)
      (test : s.queueRoot ≠ []) :
      Step s (k, .run) (s.goto k .taking)
  | take {s : PFQueue} {k : Task} {i : Node} {rest : List Node} (at_call : s.calls k = .taking)
      (test : s.queueRoot = i :: rest) :
      Step s (k, .taken (s.message i)) (((s.withQueue rest).withItem i
        ((s.items i).map fun _ => .empty)).goto k (.taken i (s.itemData i)))
  | takeMissed {s : PFQueue} {k : Task} (at_call : s.calls k = .taking)
      (test : s.queueRoot = []) :
      Step s (k, .run) (s.goto k (.returning none))
  /-- `freeQItem` up to the section. -/
  | freeQItem {s : PFQueue} {k : Task} {i : Node} {data : Option Ptr}
      (at_call : s.calls k = .taken i data) :
      Step s (k, .run) (((s.freeData (s.itemData i)).withItem i
        ((s.items i).map fun _ => .empty)).goto k (.cleared i data))
  | recycle {s : PFQueue} {k : Task} {i : Node} {data : Option Ptr}
      (at_call : s.calls k = .cleared i data) (pool : s.poolCount ≠ 0) :
      Step s (k, .run) ((s.withEmpty (s.emptyRoot ++ [i])).goto k (.returning data))
  | freeItem {s : PFQueue} {k : Task} {i : Node} {data : Option Ptr}
      (at_call : s.calls k = .cleared i data) (pool : s.poolCount = 0) :
      Step s (k, .run) ((s.withItem i none).goto k (.returning data))
  | dequeued {s : PFQueue} {k : Task} {data : Option Ptr}
      (at_call : s.calls k = .returning data) :
      Step s (k, .ret data) ((s.give data).goto k .idle)
  /-- The rest of the program allocates a block, writes to one of its blocks,
  or frees one. -/
  | malloc {s : PFQueue} {k : Task} {p : Ptr} {block : Message} (fresh : s.heap p = none) :
      Step s (k, .run) ((s.withBlock p (some block)).withGiven p true)
  | write {s : PFQueue} {k : Task} {p : Ptr} {block : Message} (own : s.given p = true) :
      Step s (k, .run) (s.withBlock p (some block))
  | free {s : PFQueue} {k : Task} {p : Ptr} (own : s.given p = true) :
      Step s (k, .run) ((s.withBlock p none).withGiven p false)

/-! ## What is kept -/

/-- Where a node can be. -/
inductive Place
  | emptyRoot
  | queueRoot
  | call (k : Task)

/-- Node `i` is at a place. -/
def PFQueue.At (s : PFQueue) : Place → Node → Prop
  | .emptyRoot, i => i ∈ s.emptyRoot
  | .queueRoot, i => i ∈ s.queueRoot
  | .call k, i => (s.calls k).item = some i

/-- Who can have a block. -/
inductive Keeper
  | item (i : Node)
  | call (k : Task)
  | program

/-- The keeper has block `p`. -/
def PFQueue.Owns (s : PFQueue) : Keeper → Ptr → Prop
  | .item i, p => s.itemData i = some p
  | .call k, p => (s.calls k).data = some p
  | .program, p => s.given p = true

/-- What has been put in, in the order of the insertions. -/
def enqueued (tr : List (Task × Event)) : List Message :=
  tr.filterMap fun e => match e.2 with
    | .inserted data => some data
    | _ => none

/-- What has been taken out, in the order of the sections. -/
def dequeued (tr : List (Task × Event)) : List (Option Message) :=
  tr.filterMap fun e => match e.2 with
    | .taken data => some data
    | _ => none

/-- What thread `k` has taken out last. -/
def takenBy (tr : List (Task × Event)) (k : Task) : Option Message :=
  (tr.filterMap fun e => match e.2 with
    | .taken data => if e.1 = k then some data else none
    | _ => none).getLast?.join

/-- What a call relies on. -/
def PFQueue.Fits (s : PFQueue) : Call → Prop
  | .allocated i _ => s.items i = some .empty
  | .filled i data => s.message i = some data
  | .taken i _ => s.items i = some .empty
  | .cleared i _ => s.items i = some .empty
  | _ => True

/-- Everything is in order after the events `tr`. -/
structure Inv (tr : List (Task × Event)) (s : PFQueue) : Prop where
  nodes : OneKeeper s.At (fun i => s.items i ≠ none)
  blocks : OneKeeper s.Owns (fun p => s.heap p ≠ none)
  emptyNodup : s.emptyRoot.Nodup
  queueNodup : s.queueRoot.Nodup
  blank : ∀ i ∈ s.emptyRoot, s.items i = some .empty
  fits : ∀ k, s.Fits (s.calls k)
  order : (enqueued tr).map some = dequeued tr ++ s.queueRoot.map s.message
  intact : ∀ k p, (s.calls k).data = some p → s.heap p = takenBy tr k

variable {tr : List (Task × Event)} {s t : PFQueue} {k l : Task} {c : Call} {i j : Node} {p q : Ptr}

/-- A step that nothing was put in or taken out by. -/
theorem quiet (tr : List (Task × Event)) (k : Task) (e : Event)
    (hin : ∀ data, e ≠ .inserted data) (hout : ∀ data, e ≠ .taken data) :
    enqueued (tr ++ [(k, e)]) = enqueued tr ∧ dequeued (tr ++ [(k, e)]) = dequeued tr ∧
      ∀ l, takenBy (tr ++ [(k, e)]) l = takenBy tr l := by
  cases e with
  | inserted data => exact absurd rfl (hin data)
  | taken data => exact absurd rfl (hout data)
  | run => simp [enqueued, dequeued, takenBy]
  | ret data => simp [enqueued, dequeued, takenBy]

/-- A silent step puts nothing in and takes nothing out. -/
theorem quiet_run (tr : List (Task × Event)) (k : Task) :
    enqueued (tr ++ [(k, .run)]) = enqueued tr ∧ dequeued (tr ++ [(k, .run)]) = dequeued tr ∧
      ∀ l, takenBy (tr ++ [(k, .run)]) l = takenBy tr l :=
  quiet tr k .run (fun _ => Event.noConfusion) fun _ => Event.noConfusion

/-- A property of all calls after one of them has moved. -/
theorem forall_calls {P : Task → Call → Prop} {calls : Task → Call} (hk : P k c)
    (hother : ∀ l, l ≠ k → P l (calls l)) : ∀ l, P l (Function.update calls k c l) :=
  (Function.forall_update_iff calls P).mpr ⟨hk, hother⟩

/-- A call goes on with what it has: the same node and the same block. -/
theorem Inv.goto (hinv : Inv tr s) (hitem : c.item = (s.calls k).item)
    (hdata : c.data = (s.calls k).data) (hfits : s.Fits c) :
    Inv (tr ++ [(k, .run)]) (s.goto k c) := by
  obtain ⟨hin, hout, htaken⟩ := quiet_run tr k
  have hat : ∀ place i, (s.goto k c).At place i ↔ s.At place i := by
    intro place i
    cases place with
    | call l => by_cases hl : l = k <;> simp [PFQueue.At, PFQueue.goto, hl, hitem]
    | _ => exact Iff.rfl
  have howns : ∀ keeper p, (s.goto k c).Owns keeper p ↔ s.Owns keeper p := by
    intro keeper p
    cases keeper with
    | call l => by_cases hl : l = k <;> simp [PFQueue.Owns, PFQueue.goto, hl, hdata]
    | _ => exact Iff.rfl
  refine ⟨hinv.nodes.congr hat fun i => Iff.rfl, hinv.blocks.congr howns fun p => Iff.rfl,
    hinv.emptyNodup, hinv.queueNodup, hinv.blank, fun l => ?_, ?_, fun l p hl => ?_⟩
  · exact forall_calls (P := fun _ c => s.Fits c) hfits (fun l _ => hinv.fits l) l
  · rw [hin, hout]
    exact hinv.order
  · rw [htaken]
    exact hinv.intact l p ((howns (.call l) p).mp hl)

/-- What a call relies on is in its own node. -/
theorem fits_congr (hfits : s.Fits c)
    (hsame : ∀ i, c.item = some i → t.items i = s.items i ∧ t.message i = s.message i) :
    t.Fits c := by
  cases c with
  | allocated i data => exact (hsame i rfl).1.trans hfits
  | filled i data => exact (hsame i rfl).2.trans hfits
  | taken i data => exact (hsame i rfl).1.trans hfits
  | cleared i data => exact (hsame i rfl).1.trans hfits
  | _ => trivial

/-- Places other than the hands of thread `k`. -/
theorem at_call_of_ne (hcalls : t.calls = Function.update s.calls k c) (hl : l ≠ k) (i : Node) :
    t.At (.call l) i ↔ s.At (.call l) i := by
  rw [PFQueue.At, hcalls, Function.update_of_ne hl]
  rfl

/-- The call that is made has its own item in hand. -/
theorem at_call_self (hcalls : t.calls = Function.update s.calls k c) (i : Node) :
    t.At (.call k) i ↔ c.item = some i := by
  rw [PFQueue.At, hcalls, Function.update_self]

/-- A node comes into the hands of thread `k`, which had none.  It is taken out of its list, so
it is still in one place only. -/
theorem nodes_to_call (hnodes : OneKeeper s.At (fun i => s.items i ≠ none))
    (hcalls : t.calls = Function.update s.calls k c) (hbefore : (s.calls k).item = none)
    (hafter : c.item = some i) (hfree : ∀ l, ¬ s.At (.call l) i)
    (hempty : ∀ u, u ∈ t.emptyRoot ↔ u ≠ i ∧ u ∈ s.emptyRoot)
    (hqueue : ∀ u, u ∈ t.queueRoot ↔ u ≠ i ∧ u ∈ s.queueRoot) (hi : t.items i ≠ none)
    (hitems : ∀ u, u ≠ i → (t.items u ≠ none ↔ s.items u ≠ none)) :
    OneKeeper t.At (fun i => t.items i ≠ none) := by
  apply hnodes.move (t := i) (y := .call k) ?_ ?_ hi hitems
  · intro place
    cases place with
    | emptyRoot => simp [PFQueue.At, hempty]
    | queueRoot => simp [PFQueue.At, hqueue]
    | call l =>
        by_cases hl : l = k
        · subst hl
          rw [at_call_self hcalls, hafter]
          simp
        · rw [at_call_of_ne hcalls hl]
          simp [hl, hfree l]
  · intro u hu place
    cases place with
    | emptyRoot => simp [PFQueue.At, hempty, hu]
    | queueRoot => simp [PFQueue.At, hqueue, hu]
    | call l =>
        by_cases hl : l = k
        · subst hl
          rw [at_call_self hcalls, hafter, PFQueue.At, hbefore]
          simp [Ne.symm hu]
        · exact at_call_of_ne hcalls hl u

/-- The node in the hands of thread `k` leaves it. -/
theorem other_of_call (hcalls : t.calls = Function.update s.calls k c)
    (hbefore : (s.calls k).item = some i) (hafter : c.item = none) {u : Node} (hu : u ≠ i)
    (hempty : u ∈ t.emptyRoot ↔ u ∈ s.emptyRoot) (hqueue : u ∈ t.queueRoot ↔ u ∈ s.queueRoot)
    (place : Place) : t.At place u ↔ s.At place u := by
  cases place with
  | emptyRoot => exact hempty
  | queueRoot => exact hqueue
  | call l =>
      by_cases hl : l = k
      · subst hl
        rw [at_call_self hcalls, hafter, PFQueue.At, hbefore]
        simp [Ne.symm hu]
      · exact at_call_of_ne hcalls hl u

/-- The calls do not have it any more. -/
theorem not_at_call (hnodes : OneKeeper s.At (fun i => s.items i ≠ none))
    (hcalls : t.calls = Function.update s.calls k c) (hbefore : (s.calls k).item = some i)
    (hafter : c.item = none) (l : Task) : ¬ t.At (.call l) i := by
  by_cases hl : l = k
  · subst hl
    rw [at_call_self hcalls, hafter]
    exact (Option.some_ne_none i).symm
  · rw [at_call_of_ne hcalls hl]
    have hk : s.At (.call k) i := hbefore
    exact hnodes.not_has_of_ne hk fun heq => hl (Place.call.inj heq)

/-- Nobody else has a node that is in a list. -/
theorem not_in_call (hnodes : OneKeeper s.At (fun i => s.items i ≠ none)) {place : Place}
    (hi : s.At place i) (hplace : ∀ l, Place.call l ≠ place) (l : Task) : ¬ s.At (.call l) i :=
  hnodes.not_has_of_ne hi (hplace l)

/-- The blocks of the calls after thread `k` has moved. -/
theorem owns_call (hcalls : t.calls = Function.update s.calls k c)
    (hdata : c.data = (s.calls k).data) (l : Task) (p : Ptr) :
    t.Owns (.call l) p ↔ s.Owns (.call l) p := by
  by_cases hl : l = k
  · subst hl
    rw [PFQueue.Owns, hcalls, Function.update_self, hdata]
    rfl
  · rw [PFQueue.Owns, hcalls, Function.update_of_ne hl]
    rfl

/-- The message of an item depends on the item and its block. -/
theorem message_congr (hitem : t.items i = s.items i)
    (hheap : ∀ q, s.itemData i = some q → t.heap q = s.heap q) : t.message i = s.message i := by
  rw [PFQueue.message, PFQueue.message, hitem]
  cases hi : s.items i with
  | none => rfl
  | some item =>
      cases hdata : item.data with
      | none => simp [hdata]
      | some q =>
          have hq : s.itemData i = some q := by simp [PFQueue.itemData, hi, hdata]
          simp [hdata, hheap q hq]

/-- A message does not notice what happens to blocks that nobody has. -/
theorem Inv.message_same (hinv : Inv tr s) (hitem : t.items i = s.items i)
    (hheap : ∀ q, s.heap q ≠ none → t.heap q = s.heap q) : t.message i = s.message i := by
  apply message_congr hitem
  intro q hq
  have howner : s.Owns (.item i) q := hq
  exact hheap q (hinv.blocks.there_of_has howner)

/-- What the calls rely on after thread `k` has moved and node `i` has
changed. -/
theorem Inv.fits_change (hinv : Inv tr s) (hcalls : t.calls = Function.update s.calls k c)
    (hitems : ∀ j, j ≠ i → t.items j = s.items j)
    (hheap : ∀ q, s.heap q ≠ none → t.heap q = s.heap q)
    (hmine : ∀ l, l ≠ k → (s.calls l).item ≠ some i) (hfits : t.Fits c) (l : Task) :
    t.Fits (t.calls l) := by
  rw [hcalls]
  refine forall_calls (P := fun _ c => t.Fits c) hfits (fun l hl => ?_) l
  apply fits_congr (hinv.fits l)
  intro j hj
  have hne : j ≠ i := fun heq => hmine l hl (heq ▸ hj)
  exact ⟨hitems j hne, hinv.message_same (hitems j hne) hheap⟩

/-- A node moves, and nothing is written.  What is left to show is where the nodes are and that
the order of the messages is kept. -/
theorem Inv.moveNode {tr' : List (Task × Event)} (hinv : Inv tr s)
    (hcalls : t.calls = Function.update s.calls k c) (hitems : t.items = s.items)
    (hheap : t.heap = s.heap) (hgiven : t.given = s.given)
    (hdata : c.data = (s.calls k).data) (hfits : s.Fits c)
    (hnodes : OneKeeper t.At (fun i => t.items i ≠ none)) (hempty : t.emptyRoot.Nodup)
    (hqueue : t.queueRoot.Nodup) (hblank : ∀ i ∈ t.emptyRoot, s.items i = some .empty)
    (horder : (enqueued tr').map some = dequeued tr' ++ t.queueRoot.map s.message)
    (htaken : ∀ l, takenBy tr' l = takenBy tr l) : Inv tr' t := by
  have hmessage : t.message = s.message := by
    funext i
    rw [PFQueue.message, PFQueue.message, hitems, hheap]
  have howns : ∀ keeper p, t.Owns keeper p ↔ s.Owns keeper p := by
    intro keeper p
    cases keeper with
    | item i => rw [PFQueue.Owns, PFQueue.itemData, hitems]; rfl
    | call l => exact owns_call hcalls hdata l p
    | program => rw [PFQueue.Owns, hgiven]; rfl
  refine ⟨hnodes, hinv.blocks.congr howns fun p => by rw [hheap], hempty, hqueue,
    fun i hi => ?_, fun l => ?_, ?_, fun l p hl => ?_⟩
  · rw [hitems]
    exact hblank i hi
  · rw [hcalls]
    refine forall_calls (P := fun _ c => t.Fits c) ?_ (fun l _ => ?_) l
    · exact fits_congr hfits fun i _ => ⟨by rw [hitems], by rw [hmessage]⟩
    · exact fits_congr (hinv.fits l) fun i _ => ⟨by rw [hitems], by rw [hmessage]⟩
  · rw [hmessage]
    exact horder
  · rw [hheap, htaken]
    exact hinv.intact l p ((howns (.call l) p).mp hl)

/-- What a call has in hand fits, read off its place. -/
theorem Inv.fits_of (hinv : Inv tr s) {c : Call} (hk : s.calls k = c) : s.Fits c :=
  hk ▸ hinv.fits k

/-- A node in the hands of a call is in neither list. -/
theorem Inv.held (hinv : Inv tr s) {c : Call} (hk : s.calls k = c) (hitem : c.item = some i) :
    s.At (.call k) i ∧ ¬ s.At .emptyRoot i ∧ ¬ s.At .queueRoot i := by
  have hmine : s.At (.call k) i := by
    rw [PFQueue.At, hk]
    exact hitem
  exact ⟨hmine, hinv.nodes.not_has_of_ne hmine Place.noConfusion,
    hinv.nodes.not_has_of_ne hmine Place.noConfusion⟩

/-- `allocQItem` takes a node out of the pool, and nobody else can take it. -/
theorem Inv.allocQItem (hinv : Inv tr s) {data : Message} {rest : List Node}
    (hk : s.calls k = .allocating data) (hlist : s.emptyRoot = i :: rest) :
    Inv (tr ++ [(k, .run)]) ((s.withEmpty rest).goto k (.allocated i data)) := by
  obtain ⟨hin, hout, htaken⟩ := quiet_run tr k
  obtain ⟨hfresh, hrest⟩ := List.nodup_cons.mp (hlist ▸ hinv.emptyNodup)
  have hi : s.At .emptyRoot i := by simp [PFQueue.At, hlist]
  have hblank : s.items i = some .empty := hinv.blank i hi
  have hqueue : ¬ s.At .queueRoot i := hinv.nodes.not_has_of_ne hi Place.noConfusion
  apply hinv.moveNode (t := (s.withEmpty rest).goto k (.allocated i data))
    (c := .allocated i data) rfl rfl rfl rfl (by rw [hk]; rfl) hblank ?_ hrest hinv.queueNodup
    (fun j hj => hinv.blank j (hlist ▸ List.mem_cons_of_mem i hj)) ?_ htaken
  · apply nodes_to_call hinv.nodes (k := k) (i := i) rfl (by rw [hk]; rfl) rfl
      (not_in_call hinv.nodes hi fun _ => Place.noConfusion)
    · intro u
      rw [hlist]
      exact ⟨fun hu => ⟨fun heq => hfresh (heq ▸ hu), List.mem_cons_of_mem i hu⟩,
        fun hu => (List.mem_cons.mp hu.2).resolve_left hu.1⟩
    · intro u
      exact (and_iff_right_of_imp fun hu (heq : u = i) => hqueue (heq ▸ hu)).symm
    · exact fun hnone => by cases hblank.symm.trans hnone
    · exact fun u _ => Iff.rfl
  · rw [hin, hout]
    exact hinv.order

/-- A node is put into one of the lists by thread `k`, and is in that list alone. -/
theorem nodes_from_call (hnodes : OneKeeper s.At (fun i => s.items i ≠ none))
    (hcalls : t.calls = Function.update s.calls k c) (hbefore : (s.calls k).item = some i)
    (hafter : c.item = none) {place : Place} (hself : t.At place i)
    (hlists : ∀ other, other ≠ place → (∀ l, other ≠ .call l) → ¬ t.At other i)
    (hempty : ∀ u, u ≠ i → (u ∈ t.emptyRoot ↔ u ∈ s.emptyRoot))
    (hqueue : ∀ u, u ≠ i → (u ∈ t.queueRoot ↔ u ∈ s.queueRoot)) (hitems : t.items = s.items) :
    OneKeeper t.At (fun i => t.items i ≠ none) := by
  have hk : s.At (.call k) i := hbefore
  apply hnodes.move (t := i) (y := place) ?_ ?_ ?_ fun u _ => by rw [hitems]
  · intro other
    constructor
    · intro hother
      by_contra hne
      cases other with
      | call l => exact not_at_call hnodes hcalls hbefore hafter l hother
      | emptyRoot => exact hlists _ hne (fun l => Place.noConfusion) hother
      | queueRoot => exact hlists _ hne (fun l => Place.noConfusion) hother
    · rintro rfl
      exact hself
  · intro u hu other
    exact other_of_call hcalls hbefore hafter hu (hempty u hu) (hqueue u hu) other
  · rw [hitems]
    exact hnodes.there_of_has hk

/-- The message is put into the queue, behind all that were put there before. -/
theorem Inv.insert (hinv : Inv tr s) {data : Message} (hk : s.calls k = .filled i data) :
    Inv (tr ++ [(k, .inserted data)]) ((s.withQueue (s.queueRoot ++ [i])).goto k .idle) := by
  obtain ⟨hmine, hempty, hqueue⟩ := hinv.held hk rfl
  have hmessage : s.message i = some data := hinv.fits_of hk
  apply hinv.moveNode (t := (s.withQueue (s.queueRoot ++ [i])).goto k .idle) (c := .idle)
    rfl rfl rfl rfl (by rw [hk]; rfl) trivial ?_ hinv.emptyNodup ?_ hinv.blank ?_ ?_
  · have hself : ((s.withQueue (s.queueRoot ++ [i])).goto k .idle).At .queueRoot i :=
      List.mem_append_right _ (List.mem_singleton_self i)
    apply nodes_from_call (c := .idle) hinv.nodes rfl hmine rfl hself ?_ (fun u _ => Iff.rfl) ?_ rfl
    · intro other hne hcall
      cases other with
      | emptyRoot => exact hempty
      | queueRoot => exact absurd rfl hne
      | call l => exact absurd rfl (hcall l)
    · intro u hu
      simp [PFQueue.goto, PFQueue.withQueue, hu]
  · exact List.nodup_append'.mpr ⟨hinv.queueNodup, List.nodup_singleton i,
      List.disjoint_singleton.mpr hqueue⟩
  · have hin : enqueued (tr ++ [(k, .inserted data)]) = enqueued tr ++ [data] := by
      simp [enqueued]
    have hout : dequeued (tr ++ [(k, .inserted data)]) = dequeued tr := by simp [dequeued]
    rw [hin, hout, List.map_append, hinv.order]
    simp [PFQueue.goto, PFQueue.withQueue, hmessage]
  · intro l
    simp [takenBy]

/-- The node goes back to the pool, empty as those that are there. -/
theorem Inv.recycle (hinv : Inv tr s) {data : Option Ptr} (hk : s.calls k = .cleared i data) :
    Inv (tr ++ [(k, .run)]) ((s.withEmpty (s.emptyRoot ++ [i])).goto k (.returning data)) := by
  obtain ⟨hin, hout, htaken⟩ := quiet_run tr k
  obtain ⟨hmine, hempty, hqueue⟩ := hinv.held hk rfl
  have hblank : s.items i = some .empty := hinv.fits_of hk
  apply hinv.moveNode (t := (s.withEmpty (s.emptyRoot ++ [i])).goto k (.returning data))
    (c := .returning data) rfl rfl rfl rfl (by rw [hk]; rfl) trivial ?_ ?_ hinv.queueNodup ?_ ?_
    htaken
  · have hself : ((s.withEmpty (s.emptyRoot ++ [i])).goto k (.returning data)).At .emptyRoot i :=
      List.mem_append_right _ (List.mem_singleton_self i)
    apply nodes_from_call (c := .returning data) hinv.nodes rfl hmine rfl hself ?_ ?_
      (fun u _ => Iff.rfl) rfl
    · intro other hne hcall
      cases other with
      | emptyRoot => exact absurd rfl hne
      | queueRoot => exact hqueue
      | call l => exact absurd rfl (hcall l)
    · intro u hu
      simp [PFQueue.goto, PFQueue.withEmpty, hu]
  · exact List.nodup_append'.mpr ⟨hinv.emptyNodup, List.nodup_singleton i,
      List.disjoint_singleton.mpr hempty⟩
  · intro j hj
    rcases List.mem_append.mp hj with hj | hj
    · exact hinv.blank j hj
    · exact List.mem_singleton.mp hj ▸ hblank
  · rw [hin, hout]
    exact hinv.order

/-- Only thread `k` has node `i`. -/
theorem Inv.mine (hinv : Inv tr s) (hi : s.At (.call k) i) (l : Task) (hl : l ≠ k) :
    (s.calls l).item ≠ some i :=
  fun hitem => hl (Place.call.inj (hinv.nodes.exclusive (.call l) (.call k) i hitem hi))

/-- The nodes after a call has gone on with the node it had. -/
theorem at_same (hcalls : t.calls = Function.update s.calls k c)
    (hitem : c.item = (s.calls k).item) (hempty : t.emptyRoot = s.emptyRoot)
    (hqueue : t.queueRoot = s.queueRoot) (place : Place) (u : Node) :
    t.At place u ↔ s.At place u := by
  cases place with
  | emptyRoot => rw [PFQueue.At, hempty]; rfl
  | queueRoot => rw [PFQueue.At, hqueue]; rfl
  | call l =>
      by_cases hl : l = k
      · subst hl
        rw [at_call_self hcalls, hitem]
        rfl
      · exact at_call_of_ne hcalls hl u

theorem itemData_congr (hitem : t.items i = s.items i) : t.itemData i = s.itemData i := by
  rw [PFQueue.itemData, hitem]
  rfl

/-- Messages of other nodes, in the order of the queue. -/
theorem Inv.messages_same (hinv : Inv tr s) (hitems : ∀ j, j ≠ i → t.items j = s.items j)
    (hheap : ∀ q, s.heap q ≠ none → t.heap q = s.heap q) {list : List Node} (hi : i ∉ list) :
    list.map t.message = list.map s.message := by
  apply List.map_congr_left
  intro j hj
  have hne : j ≠ i := fun heq => hi (heq ▸ hj)
  exact hinv.message_same (hitems j hne) hheap

/-- Node `i` is written, and nobody else's node or block. -/
theorem Inv.writeNode {tr' : List (Task × Event)} (hinv : Inv tr s)
    (hcalls : t.calls = Function.update s.calls k c)
    (hitems : ∀ j, j ≠ i → t.items j = s.items j)
    (hheap : ∀ q, s.heap q ≠ none → t.heap q = s.heap q)
    (hmine : ∀ l, l ≠ k → (s.calls l).item ≠ some i) (hempty : t.emptyRoot = s.emptyRoot)
    (hi : i ∉ s.emptyRoot) (hqueue : t.queueRoot.Nodup) (hout : i ∉ t.queueRoot)
    (hnodes : OneKeeper t.At (fun i => t.items i ≠ none))
    (hblocks : OneKeeper t.Owns (fun p => t.heap p ≠ none)) (hfits : t.Fits c)
    (horder : (enqueued tr').map some = dequeued tr' ++ t.queueRoot.map s.message)
    (hintact : ∀ l p, (t.calls l).data = some p → t.heap p = takenBy tr' l) : Inv tr' t := by
  refine ⟨hnodes, hblocks, hempty ▸ hinv.emptyNodup, hqueue, fun j hj => ?_,
    hinv.fits_change hcalls hitems hheap hmine hfits, ?_, hintact⟩
  · rw [hempty] at hj
    have hne : j ≠ i := fun heq => hi (heq ▸ hj)
    exact (hitems j hne).trans (hinv.blank j hj)
  · rw [hinv.messages_same hitems hheap hout]
    exact horder

/-- `malloc` gives thread `k` a block for its node, and the message is copied there.  The block
is new, so it is nobody else's. -/
theorem Inv.fill (hinv : Inv tr s) {data : Message} (hk : s.calls k = .allocated i data)
    (hfresh : s.heap p = none) :
    Inv (tr ++ [(k, .run)]) (((s.withBlock p (some data)).withItem i
      ((s.items i).map fun _ => ⟨data.length, some p⟩)).goto k (.filled i data)) := by
  obtain ⟨hin, hout, htaken⟩ := quiet_run tr k
  obtain ⟨hmine, hempty, hqueue⟩ := hinv.held hk rfl
  have hblank : s.items i = some .empty := hinv.fits_of hk
  rw [hblank]
  let t := ((s.withBlock p (some data)).withItem i (some ⟨data.length, some p⟩)).goto k
    (.filled i data)
  have hcalls : t.calls = Function.update s.calls k (.filled i data) := rfl
  have hself : t.items i = some ⟨data.length, some p⟩ := Function.update_self ..
  have hitems : ∀ j, j ≠ i → t.items j = s.items j := fun j hj => Function.update_of_ne hj ..
  have hblock : t.heap p = some data := Function.update_self ..
  have hheap : ∀ q, q ≠ p → t.heap q = s.heap q := fun q hq => Function.update_of_ne hq ..
  have hsame : ∀ q, s.heap q ≠ none → t.heap q = s.heap q :=
    fun q hq => hheap q fun heq => hq (heq ▸ hfresh)
  have hfree : ∀ keeper, ¬ s.Owns keeper p := hinv.blocks.not_has fun hne => hne hfresh
  have hdata : ∀ l q, t.Owns (.call l) q ↔ s.Owns (.call l) q :=
    owns_call hcalls (by rw [hk]; rfl)
  have hitem : t.itemData i = some p := by rw [PFQueue.itemData, hself]; rfl
  apply hinv.writeNode (t := t) hcalls hitems hsame (hinv.mine hmine) rfl hempty hinv.queueNodup
    hqueue
  · apply hinv.nodes.congr (at_same hcalls (by rw [hk]; rfl) rfl rfl)
    intro u
    by_cases hu : u = i
    · rw [hu, hself, hblank]
      simp
    · rw [hitems u hu]
  · apply hinv.blocks.move (t := p) (y := .item i)
    · intro keeper
      constructor
      · intro hkeeper
        cases keeper with
        | item j =>
            by_contra hne
            have hj : j ≠ i := fun heq => hne (congrArg Keeper.item heq)
            have howner : t.itemData j = some p := hkeeper
            rw [itemData_congr (hitems j hj)] at howner
            exact hfree (.item j) howner
        | call l => exact absurd ((hdata l p).mp hkeeper) (hfree _)
        | program => exact absurd hkeeper (hfree .program)
      · rintro rfl
        exact hitem
    · intro u hu keeper
      cases keeper with
      | item j =>
          by_cases hj : j = i
          · have hnone : s.itemData i = none := by rw [PFQueue.itemData, hblank]; rfl
            rw [PFQueue.Owns, PFQueue.Owns, hj, hitem, hnone]
            simp [Ne.symm hu]
          · rw [PFQueue.Owns, itemData_congr (hitems j hj)]
            rfl
      | call l => exact hdata l u
      | program => exact Iff.rfl
    · rw [hblock]
      exact Option.some_ne_none data
    · intro u hu
      rw [hheap u hu]
  · rw [PFQueue.Fits, PFQueue.message, hself]
    exact hblock
  · rw [hin, hout]
    exact hinv.order
  · intro l q hl
    have hq : s.Owns (.call l) q := (hdata l q).mp hl
    rw [htaken, hsame q (hinv.blocks.there_of_has hq)]
    exact hinv.intact l q hq

/-- Nobody owns anything else when a node without a block changes into
another without one. -/
theorem owns_same (hcalls : t.calls = Function.update s.calls k c)
    (hdata : c.data = (s.calls k).data) (hitems : ∀ j, t.itemData j = s.itemData j)
    (hgiven : t.given = s.given) (keeper : Keeper) (p : Ptr) :
    t.Owns keeper p ↔ s.Owns keeper p := by
  cases keeper with
  | item j => rw [PFQueue.Owns, hitems]; rfl
  | call l => exact owns_call hcalls hdata l p
  | program => rw [PFQueue.Owns, hgiven]; rfl

/-- `allocQItem` without a pool makes a node, which is empty and in the hands of the thread. -/
theorem Inv.mallocItem (hinv : Inv tr s) {data : Message} (hk : s.calls k = .enqueue data)
    (hfresh : s.items i = none) :
    Inv (tr ++ [(k, .run)]) ((s.withItem i (some .empty)).goto k (.allocated i data)) := by
  obtain ⟨hin, hout, htaken⟩ := quiet_run tr k
  have hnowhere : ∀ place, ¬ s.At place i := hinv.nodes.not_has fun hne => hne hfresh
  let t := (s.withItem i (some .empty)).goto k (.allocated i data)
  have hcalls : t.calls = Function.update s.calls k (.allocated i data) := rfl
  have hself : t.items i = some .empty := Function.update_self ..
  have hitems : ∀ j, j ≠ i → t.items j = s.items j := fun j hj => Function.update_of_ne hj ..
  have hdata : ∀ j, t.itemData j = s.itemData j := by
    intro j
    by_cases hj : j = i
    · rw [hj, PFQueue.itemData, PFQueue.itemData, hself, hfresh]
      rfl
    · exact itemData_congr (hitems j hj)
  have howns : ∀ keeper p, t.Owns keeper p ↔ s.Owns keeper p :=
    owns_same hcalls (by rw [hk]; rfl) hdata rfl
  apply hinv.writeNode (t := t) hcalls hitems (fun q _ => rfl) (fun l _ => hnowhere (.call l)) rfl
    (hnowhere .emptyRoot) hinv.queueNodup (hnowhere .queueRoot)
  · apply nodes_to_call hinv.nodes hcalls (by rw [hk]; rfl) rfl (fun l => hnowhere (.call l))
    · intro u
      exact (and_iff_right_of_imp fun hu (heq : u = i) => hnowhere .emptyRoot (heq ▸ hu)).symm
    · intro u
      exact (and_iff_right_of_imp fun hu (heq : u = i) => hnowhere .queueRoot (heq ▸ hu)).symm
    · exact fun hnone => by cases hself.symm.trans hnone
    · intro u hu
      rw [hitems u hu]
  · exact hinv.blocks.congr howns fun p => Iff.rfl
  · exact hself
  · rw [hin, hout]
    exact hinv.order
  · intro l q hl
    rw [htaken]
    exact hinv.intact l q ((howns (.call l) q).mp hl)

/-- Without a pool the node is freed, after its block has been taken out of it. -/
theorem Inv.freeItem (hinv : Inv tr s) {data : Option Ptr} (hk : s.calls k = .cleared i data) :
    Inv (tr ++ [(k, .run)]) ((s.withItem i none).goto k (.returning data)) := by
  obtain ⟨hin, hout, htaken⟩ := quiet_run tr k
  obtain ⟨hmine, hempty, hqueue⟩ := hinv.held hk rfl
  have hblank : s.items i = some .empty := hinv.fits_of hk
  let t := (s.withItem i none).goto k (.returning data)
  have hcalls : t.calls = Function.update s.calls k (.returning data) := rfl
  have hself : t.items i = none := Function.update_self ..
  have hitems : ∀ j, j ≠ i → t.items j = s.items j := fun j hj => Function.update_of_ne hj ..
  have hdata : ∀ j, t.itemData j = s.itemData j := by
    intro j
    by_cases hj : j = i
    · rw [hj, PFQueue.itemData, PFQueue.itemData, hself, hblank]
      rfl
    · exact itemData_congr (hitems j hj)
  have howns : ∀ keeper p, t.Owns keeper p ↔ s.Owns keeper p :=
    owns_same hcalls (by rw [hk]; rfl) hdata rfl
  apply hinv.writeNode (t := t) hcalls hitems (fun q _ => rfl) (hinv.mine hmine) rfl hempty
    hinv.queueNodup hqueue
  · apply hinv.nodes.lose (t := i)
    · intro place
      cases place with
      | emptyRoot => exact hempty
      | queueRoot => exact hqueue
      | call l => exact not_at_call hinv.nodes hcalls hmine rfl l
    · intro u hu place
      exact other_of_call hcalls hmine rfl hu Iff.rfl Iff.rfl place
    · exact fun hne => hne hself
    · intro u hu
      rw [hitems u hu]
  · exact hinv.blocks.congr howns fun p => Iff.rfl
  · trivial
  · rw [hin, hout]
    exact hinv.order
  · intro l q hl
    rw [htaken]
    exact hinv.intact l q ((howns (.call l) q).mp hl)

/-- The messages in the queue are there: the node points to a message in the heap, which is the
one that was put in. -/
theorem Inv.message_of_mem (hinv : Inv tr s) (hi : i ∈ s.queueRoot) :
    ∃ p message, s.itemData i = some p ∧ s.heap p = some message ∧
      s.message i = some message := by
  have hmem : s.message i ∈ (enqueued tr).map some := by
    rw [hinv.order]
    exact List.mem_append_right _ (List.mem_map_of_mem hi)
  obtain ⟨message, -, hmessage⟩ := List.mem_map.mp hmem
  have hbind : s.message i = (s.itemData i).bind s.heap := by
    rw [PFQueue.message, PFQueue.itemData]
    cases s.items i <;> rfl
  rw [hbind] at hmessage
  obtain ⟨p, hp, hheap⟩ := Option.bind_eq_some_iff.mp hmessage.symm
  exact ⟨p, message, hp, hheap, hbind.trans hmessage.symm⟩

/-- Thread `k` takes the oldest message: the node leaves the front of the queue, and its block
is in the hands of the thread. -/
theorem Inv.take (hinv : Inv tr s) {rest : List Node} (hk : s.calls k = .taking)
    (hlist : s.queueRoot = i :: rest) :
    Inv (tr ++ [(k, .taken (s.message i))]) (((s.withQueue rest).withItem i
      ((s.items i).map fun _ => .empty)).goto k (.taken i (s.itemData i))) := by
  obtain ⟨hfresh, hrest⟩ := List.nodup_cons.mp (hlist ▸ hinv.queueNodup)
  have hi : s.At .queueRoot i := by simp [PFQueue.At, hlist]
  have hempty : ¬ s.At .emptyRoot i := hinv.nodes.not_has_of_ne hi Place.noConfusion
  obtain ⟨p, message, hp, hheap, hmessage⟩ := hinv.message_of_mem hi
  obtain ⟨item, hitem⟩ := Option.ne_none_iff_exists'.mp (hinv.nodes.there_of_has hi)
  rw [hitem, hp]
  let t := ((s.withQueue rest).withItem i (some .empty)).goto k (.taken i (some p))
  have hcalls : t.calls = Function.update s.calls k (.taken i (some p)) := rfl
  have hself : t.items i = some .empty := Function.update_self ..
  have hitems : ∀ j, j ≠ i → t.items j = s.items j := fun j hj => Function.update_of_ne hj ..
  have howner : s.Owns (.item i) p := hp
  have hcall : ∀ l, l ≠ k → t.calls l = s.calls l := fun l hl => Function.update_of_ne hl ..
  have hme : t.calls k = .taken i (some p) := Function.update_self ..
  apply hinv.writeNode (t := t) hcalls hitems (fun q _ => rfl)
    (fun l _ => not_in_call hinv.nodes hi (fun _ => Place.noConfusion) l) rfl hempty hrest hfresh
  · apply nodes_to_call hinv.nodes hcalls (by rw [hk]; rfl) rfl
      (not_in_call hinv.nodes hi fun _ => Place.noConfusion)
    · intro u
      exact (and_iff_right_of_imp fun hu (heq : u = i) => hempty (heq ▸ hu)).symm
    · intro u
      rw [hlist]
      exact ⟨fun hu => ⟨fun heq => hfresh (heq ▸ hu), List.mem_cons_of_mem i hu⟩,
        fun hu => (List.mem_cons.mp hu.2).resolve_left hu.1⟩
    · exact fun hnone => by cases hself.symm.trans hnone
    · intro u hu
      rw [hitems u hu]
  · apply hinv.blocks.move (t := p) (y := .call k)
    · intro keeper
      constructor
      · intro hkeeper
        by_contra hne
        cases keeper with
        | item j =>
            have hj : t.itemData j = some p := hkeeper
            by_cases hji : j = i
            · rw [hji, PFQueue.itemData, hself] at hj
              cases hj
            · rw [itemData_congr (hitems j hji)] at hj
              exact hji (Keeper.item.inj (hinv.blocks.exclusive (.item j) (.item i) p hj howner))
        | call l =>
            have hl : l ≠ k := fun heq => hne (congrArg Keeper.call heq)
            have hkept : s.Owns (.call l) p := by
              rw [PFQueue.Owns, hcall l hl] at hkeeper
              exact hkeeper
            exact hinv.blocks.not_has_of_ne howner Keeper.noConfusion hkept
        | program =>
            have hgiven : s.Owns .program p := hkeeper
            exact hinv.blocks.not_has_of_ne howner Keeper.noConfusion hgiven
      · rintro rfl
        rw [PFQueue.Owns, hme]
        rfl
    · intro u hu keeper
      cases keeper with
      | item j =>
          by_cases hj : j = i
          · have hnone : t.itemData i = none := by rw [PFQueue.itemData, hself]; rfl
            rw [PFQueue.Owns, PFQueue.Owns, hj, hnone, hp]
            simp [Ne.symm hu]
          · rw [PFQueue.Owns, itemData_congr (hitems j hj)]
            rfl
      | call l =>
          by_cases hl : l = k
          · rw [PFQueue.Owns, PFQueue.Owns, hl, hme, hk]
            simp [Call.data, Ne.symm hu]
          · rw [PFQueue.Owns, hcall l hl]
            rfl
      | program => exact Iff.rfl
    · exact fun hnone => by cases hheap.symm.trans hnone
    · exact fun u _ => Iff.rfl
  · exact hself
  · have hin : enqueued (tr ++ [(k, .taken (s.message i))]) = enqueued tr := by simp [enqueued]
    have hout : dequeued (tr ++ [(k, .taken (s.message i))]) = dequeued tr ++ [s.message i] := by
      simp [dequeued]
    rw [hin, hout, hinv.order, hlist, List.map_cons, List.append_assoc]
    rfl
  · intro l q hl
    by_cases hlk : l = k
    · rw [hlk, hme] at hl
      have hq : q = p := (Option.some.inj hl).symm
      have htaken : takenBy (tr ++ [(k, .taken (s.message i))]) k = s.message i := by
        simp [takenBy]
      rw [hlk, htaken, hq, hmessage]
      exact hheap
    · have htaken : takenBy (tr ++ [(k, .taken (s.message i))]) l = takenBy tr l := by
        simp [takenBy, Ne.symm hlk]
      rw [hcall l hlk] at hl
      rw [htaken]
      exact hinv.intact l q hl

/-- Blocks of the rest of the program come and go, and are written.  The queue's own blocks are
not among them. -/
theorem Inv.program (hinv : Inv tr s) (hcalls : t.calls = s.calls) (hitems : t.items = s.items)
    (hempty : t.emptyRoot = s.emptyRoot) (hqueue : t.queueRoot = s.queueRoot)
    (hheap : ∀ q, q ≠ p → t.heap q = s.heap q)
    (hfree : ∀ keeper, keeper ≠ .program → ¬ s.Owns keeper p)
    (hblocks : OneKeeper t.Owns (fun p => t.heap p ≠ none)) : Inv (tr ++ [(k, .run)]) t := by
  obtain ⟨hin, hout, htaken⟩ := quiet_run tr k
  have hmessage : ∀ i, t.message i = s.message i := by
    intro i
    apply message_congr (by rw [hitems])
    intro q hq
    exact hheap q fun heq => hfree (.item i) Keeper.noConfusion (heq ▸ hq)
  refine ⟨?_, hblocks, hempty ▸ hinv.emptyNodup, hqueue ▸ hinv.queueNodup, fun i hi => ?_,
    fun l => ?_, ?_, fun l q hl => ?_⟩
  · apply hinv.nodes.congr ?_ fun i => by rw [hitems]
    intro place i
    cases place with
    | emptyRoot => rw [PFQueue.At, hempty]; rfl
    | queueRoot => rw [PFQueue.At, hqueue]; rfl
    | call l => rw [PFQueue.At, hcalls]; rfl
  · rw [hitems]
    exact hinv.blank i (hempty ▸ hi)
  · rw [hcalls]
    exact fits_congr (hinv.fits l) fun i _ => ⟨by rw [hitems], hmessage i⟩
  · rw [hin, hout, hqueue, funext hmessage]
    exact hinv.order
  · rw [hcalls] at hl
    have hne : q ≠ p := fun heq => hfree (.call l) Keeper.noConfusion (heq ▸ hl)
    rw [htaken, hheap q hne]
    exact hinv.intact l q hl

/-- The blocks of nodes and calls are what they were. -/
theorem owns_of_ne_program (hcalls : t.calls = s.calls) (hitems : t.items = s.items)
    {keeper : Keeper} (hne : keeper ≠ .program) (q : Ptr) : t.Owns keeper q ↔ s.Owns keeper q := by
  cases keeper with
  | item i => rw [PFQueue.Owns, itemData_congr (congrFun hitems i)]; rfl
  | call l => rw [PFQueue.Owns, hcalls]; rfl
  | program => exact absurd rfl hne

/-- Who owns a block depends on the calls, the items and what was given. -/
theorem owns_of_given (hcalls : t.calls = s.calls) (hitems : t.items = s.items) {q : Ptr}
    (hgiven : t.given q = s.given q) (keeper : Keeper) : t.Owns keeper q ↔ s.Owns keeper q := by
  by_cases hne : keeper = .program
  · rw [hne, PFQueue.Owns, hgiven]
    rfl
  · exact owns_of_ne_program hcalls hitems hne q

/-- A block that is allocated belongs to the caller. -/
theorem Inv.malloc (hinv : Inv tr s) {block : Message} (hfresh : s.heap p = none) :
    Inv (tr ++ [(k, .run)]) ((s.withBlock p (some block)).withGiven p true) := by
  have hfree : ∀ keeper, ¬ s.Owns keeper p := hinv.blocks.not_has fun hne => hne hfresh
  let t := (s.withBlock p (some block)).withGiven p true
  have hheap : ∀ q, q ≠ p → t.heap q = s.heap q := fun q hq => Function.update_of_ne hq ..
  have hgiven : ∀ q, q ≠ p → t.given q = s.given q := fun q hq => Function.update_of_ne hq ..
  apply hinv.program (t := t) rfl rfl rfl rfl hheap fun keeper _ => hfree keeper
  apply hinv.blocks.move (t := p) (y := .program)
  · intro keeper
    constructor
    · intro hkeeper
      by_contra hne
      exact hfree keeper ((owns_of_ne_program (s := s) (t := t) rfl rfl hne p).mp hkeeper)
    · rintro rfl
      exact Function.update_self ..
  · exact fun u hu => owns_of_given (s := s) (t := t) rfl rfl (hgiven u hu)
  · have hself : t.heap p = some block := Function.update_self ..
    rw [hself]
    exact Option.some_ne_none block
  · intro u hu
    rw [hheap u hu]

theorem Inv.write (hinv : Inv tr s) {block : Message} (hown : s.given p = true) :
    Inv (tr ++ [(k, .run)]) (s.withBlock p (some block)) := by
  have howner : s.Owns .program p := hown
  let t := s.withBlock p (some block)
  have hheap : ∀ q, q ≠ p → t.heap q = s.heap q := fun q hq => Function.update_of_ne hq ..
  apply hinv.program (t := t) rfl rfl rfl rfl hheap
    fun keeper hne => hinv.blocks.not_has_of_ne howner hne
  apply hinv.blocks.congr fun keeper q => Iff.rfl
  intro q
  by_cases hq : q = p
  · have hself : t.heap p = some block := Function.update_self ..
    rw [hq, hself]
    exact iff_of_true (Option.some_ne_none block) (hinv.blocks.there_of_has howner)
  · rw [hheap q hq]

theorem Inv.free (hinv : Inv tr s) (hown : s.given p = true) :
    Inv (tr ++ [(k, .run)]) ((s.withBlock p none).withGiven p false) := by
  have howner : s.Owns .program p := hown
  let t := (s.withBlock p none).withGiven p false
  have hheap : ∀ q, q ≠ p → t.heap q = s.heap q := fun q hq => Function.update_of_ne hq ..
  have hgiven : ∀ q, q ≠ p → t.given q = s.given q := fun q hq => Function.update_of_ne hq ..
  have hfree : ∀ keeper, keeper ≠ .program → ¬ s.Owns keeper p :=
    fun keeper hne => hinv.blocks.not_has_of_ne howner hne
  apply hinv.program (t := t) rfl rfl rfl rfl hheap hfree
  apply hinv.blocks.lose (t := p)
  · intro keeper hkeeper
    by_cases hne : keeper = .program
    · have hself : t.given p = false := Function.update_self ..
      rw [hne, PFQueue.Owns, hself] at hkeeper
      cases hkeeper
    · exact hfree keeper hne ((owns_of_ne_program (s := s) (t := t) rfl rfl hne p).mp hkeeper)
  · exact fun u hu => owns_of_given (s := s) (t := t) rfl rfl (hgiven u hu)
  · have hself : t.heap p = none := Function.update_self ..
    exact fun hne => hne hself
  · intro u hu
    rw [hheap u hu]

/-- The caller gets what its thread has taken, and the block is the caller's from now on. -/
theorem Inv.dequeued (hinv : Inv tr s) {data : Option Ptr} (hk : s.calls k = .returning data) :
    Inv (tr ++ [(k, .ret data)]) ((s.give data).goto k .idle) := by
  obtain ⟨hin, hout, htaken⟩ := quiet tr k (.ret data)
    (fun _ => Event.noConfusion) fun _ => Event.noConfusion
  let t := (s.give data).goto k .idle
  have hrest : t.items = s.items ∧ t.heap = s.heap ∧ t.emptyRoot = s.emptyRoot ∧
      t.queueRoot = s.queueRoot ∧ t.calls = Function.update s.calls k .idle := by
    cases data <;> exact ⟨rfl, rfl, rfl, rfl, rfl⟩
  obtain ⟨hitems, hheap, hempty, hqueue, hcalls⟩ := hrest
  have hcall : ∀ l, l ≠ k → t.calls l = s.calls l := by
    intro l hl
    rw [hcalls, Function.update_of_ne hl]
  have hme : t.calls k = .idle := by rw [hcalls, Function.update_self]
  have hmessage : t.message = s.message := by
    funext i
    rw [PFQueue.message, PFQueue.message, hitems, hheap]
  have hback : ∀ l q, (t.calls l).data = some q → l ≠ k ∧ (s.calls l).data = some q := by
    intro l q hl
    have hlk : l ≠ k := by
      rintro rfl
      rw [hme] at hl
      cases hl
    exact ⟨hlk, hcall l hlk ▸ hl⟩
  have hblocks : OneKeeper t.Owns (fun p => t.heap p ≠ none) := by
    cases data with
    | none =>
        apply hinv.blocks.congr ?_ fun p => Iff.rfl
        exact owns_same hcalls (by rw [hk]; rfl) (fun j => rfl) rfl
    | some p =>
        have howner : s.Owns (.call k) p := by rw [PFQueue.Owns, hk]; rfl
        apply hinv.blocks.move (t := p) (y := .program)
        · intro keeper
          constructor
          · intro hkeeper
            by_contra hne
            cases keeper with
            | item j =>
                have hj : s.Owns (.item j) p := hkeeper
                exact hinv.blocks.not_has_of_ne howner Keeper.noConfusion hj
            | call l =>
                obtain ⟨hl, hkept⟩ := hback l p hkeeper
                have hkept : s.Owns (.call l) p := hkept
                exact hl (Keeper.call.inj (hinv.blocks.exclusive _ _ p hkept howner))
            | program => exact hne rfl
          · rintro rfl
            exact Function.update_self ..
        · intro u hu keeper
          cases keeper with
          | item j => exact Iff.rfl
          | call l =>
              by_cases hl : l = k
              · rw [PFQueue.Owns, PFQueue.Owns, hl, hme, hk]
                simp [Call.data, Ne.symm hu]
              · rw [PFQueue.Owns, hcall l hl]
                rfl
          | program =>
              have hgiven : t.given u = s.given u := Function.update_of_ne hu ..
              rw [PFQueue.Owns, hgiven]
              rfl
        · exact hinv.blocks.there_of_has howner
        · exact fun u _ => Iff.rfl
  refine ⟨?_, hblocks, hempty ▸ hinv.emptyNodup, hqueue ▸ hinv.queueNodup, fun i hi => ?_,
    fun l => ?_, ?_, fun l q hl => ?_⟩
  · exact hinv.nodes.congr (at_same hcalls (by rw [hk]; rfl) hempty hqueue) fun i => by rw [hitems]
  · rw [hitems]
    exact hinv.blank i (hempty ▸ hi)
  · by_cases hl : l = k
    · rw [hl, hme]
      trivial
    · rw [hcall l hl]
      exact fits_congr (hinv.fits l) fun i _ => ⟨by rw [hitems], by rw [hmessage]⟩
  · rw [hin, hout, hqueue, hmessage]
    exact hinv.order
  · rw [htaken, hheap]
    exact hinv.intact l q (hback l q hl).2

/-! ## Runs -/

theorem Inv.step (hinv : Inv tr s) {e : Task × Event} (hstep : Step s e t) : Inv (tr ++ [e]) t := by
  cases hstep with
  | enqueueFIFO at_call => exact hinv.goto (by rw [at_call]; rfl) (by rw [at_call]; rfl) trivial
  | mallocItem at_call pool fresh => exact hinv.mallocItem at_call fresh
  | emptyRootEmpty at_call pool test =>
      exact hinv.goto (by rw [at_call]; rfl) (by rw [at_call]; rfl) trivial
  | emptyRootSeen at_call pool test =>
      exact hinv.goto (by rw [at_call]; rfl) (by rw [at_call]; rfl) trivial
  | allocQItem at_call test => exact hinv.allocQItem at_call test
  | allocMissed at_call test =>
      exact hinv.goto (by rw [at_call]; rfl) (by rw [at_call]; rfl) trivial
  | waited at_call => exact hinv.goto (by rw [at_call]; rfl) (by rw [at_call]; rfl) trivial
  | fill at_call fresh => exact hinv.fill at_call fresh
  | insert at_call => exact hinv.insert at_call
  | dequeueFIFO at_call => exact hinv.goto (by rw [at_call]; rfl) (by rw [at_call]; rfl) trivial
  | queueRootEmpty at_call test =>
      exact hinv.goto (by rw [at_call]; rfl) (by rw [at_call]; rfl) trivial
  | queueRootSeen at_call test =>
      exact hinv.goto (by rw [at_call]; rfl) (by rw [at_call]; rfl) trivial
  | take at_call test => exact hinv.take at_call test
  | takeMissed at_call test =>
      exact hinv.goto (by rw [at_call]; rfl) (by rw [at_call]; rfl) trivial
  | @freeQItem k i data at_call =>
      have hblank : s.items i = some .empty := hinv.fits_of at_call
      -- the section that took the node has cleared it
      have hsame :
          (s.freeData (s.itemData i)).withItem i ((s.items i).map fun _ => .empty) = s := by
        have hitem : Function.update s.items i (some .empty) = s.items :=
          Function.update_eq_self_iff.mpr hblank.symm
        rw [PFQueue.itemData, hblank]
        exact congrArg (fun items => { s with items }) hitem
      rw [hsame]
      exact hinv.goto (by rw [at_call]; rfl) (by rw [at_call]; rfl) hblank
  | recycle at_call pool => exact hinv.recycle at_call
  | freeItem at_call pool => exact hinv.freeItem at_call
  | dequeued at_call => exact hinv.dequeued at_call
  | malloc fresh => exact hinv.malloc fresh
  | write own => exact hinv.write own
  | free own => exact hinv.free own

theorem Inv.create (n : Nat) (heap : Ptr → Option Message) : Inv [] (createFIFO n heap) := by
  have hitems : ∀ i, (createFIFO n heap).items i ≠ none ↔ i < n := by
    intro i
    by_cases hi : i < n <;> simp [createFIFO, hi]
  have hdata : ∀ i p, ¬ (createFIFO n heap).Owns (.item i) p := by
    intro i p hp
    by_cases hi : i < n <;>
      simp [PFQueue.Owns, PFQueue.itemData, createFIFO, hi, QItem.empty] at hp
  have hnodes : ∀ place i, (createFIFO n heap).At place i ↔ place = .emptyRoot ∧ i < n := by
    intro place i
    cases place <;> simp [PFQueue.At, createFIFO, Call.item]
  have hblocks : ∀ keeper p, (createFIFO n heap).Owns keeper p ↔
      keeper = .program ∧ heap p ≠ none := by
    intro keeper p
    cases keeper with
    | item i => exact iff_of_false (hdata i p) (fun h => Keeper.noConfusion h.1)
    | call l => simp [PFQueue.Owns, createFIFO, Call.data]
    | program => simp [PFQueue.Owns, createFIFO, Option.isSome_iff_ne_none]
  refine ⟨⟨fun o o' i ho ho' => ?_, fun i => ?_⟩, ⟨fun o o' p ho ho' => ?_, fun p => ?_⟩,
    List.nodup_range, List.nodup_nil, fun i hi => ?_, fun k => trivial, rfl, fun k p hk => ?_⟩
  · rw [((hnodes o i).mp ho).1, ((hnodes o' i).mp ho').1]
  · rw [hitems]
    exact ⟨fun hi => ⟨_, (hnodes .emptyRoot i).mpr ⟨rfl, hi⟩⟩,
      fun ⟨o, ho⟩ => ((hnodes o i).mp ho).2⟩
  · rw [((hblocks o p).mp ho).1, ((hblocks o' p).mp ho').1]
  · exact ⟨fun hp => ⟨_, (hblocks .program p).mpr ⟨rfl, hp⟩⟩,
      fun ⟨o, ho⟩ => ((hblocks o p).mp ho).2⟩
  · have hlt : i < n := List.mem_range.mp hi
    simp [createFIFO, hlt]
  · cases hk

/-- The pool stays what it is: with one, no step makes a node or frees one. -/
theorem pool_step {e : Task × Event} (hpool : s.poolCount ≠ 0) (hstep : Step s e t) :
    t.poolCount = s.poolCount ∧ ∀ i, t.items i ≠ none ↔ s.items i ≠ none := by
  have hupdate : ∀ {i : Node} {f : QItem → QItem} (j : Node),
      Function.update s.items i ((s.items i).map f) j ≠ none ↔ s.items j ≠ none := by
    intro i f j
    by_cases hj : j = i
    · subst hj
      simp
    · rw [Function.update_of_ne hj]
  cases hstep with
  | mallocItem at_call pool fresh => exact absurd pool hpool
  | freeItem at_call pool => exact absurd pool hpool
  | fill at_call fresh => exact ⟨rfl, hupdate⟩
  | take at_call test => exact ⟨rfl, hupdate⟩
  | @freeQItem k i data at_call =>
      have hfree : (s.freeData (s.itemData i)).poolCount = s.poolCount ∧
          (s.freeData (s.itemData i)).items = s.items := by
        cases s.itemData i <;> exact ⟨rfl, rfl⟩
      refine ⟨hfree.1, fun j => ?_⟩
      rw [PFQueue.goto, PFQueue.withItem, hfree.2]
      exact hupdate j
  | @dequeued k data at_call => cases data <;> exact ⟨rfl, fun i => Iff.rfl⟩
  | _ => exact ⟨rfl, fun i => Iff.rfl⟩

/-- Every node of the pool is in exactly one place, and nothing else is in
any: so no more messages are queued than the pool has nodes. -/
structure PFQueue.Placed (s : PFQueue) (n : Nat) : Prop where
  one : ∀ i, i < n → ∃! place, s.At place i
  pool : ∀ place i, s.At place i → i < n
  emptyNodup : s.emptyRoot.Nodup
  queueNodup : s.queueRoot.Nodup
  bounded : s.queueRoot.length ≤ n

/-- What has been taken out is what was put in first, in that order, and the
rest is in the queue.  Each call that has a message is the only one that has
it, and has it as it was taken out. -/
structure PFQueue.Faithful (s : PFQueue) (tr : List (Task × Event)) : Prop where
  order : (enqueued tr).map some = dequeued tr ++ s.queueRoot.map s.message
  intact : ∀ k p, (s.calls k).data = some p →
    ∃ message, takenBy tr k = some message ∧ s.heap p = some message
  alone : ∀ k l p, (s.calls k).data = some p → (s.calls l).data = some p → k = l
  own : ∀ k p, (s.calls k).data = some p → s.given p = false

/-- The invariant is enough for what is claimed of the messages. -/
theorem Inv.faithful (hinv : Inv tr s) : s.Faithful tr := by
  refine ⟨hinv.order, fun k p hk => ?_, fun k l p hk hl => ?_, fun k p hk => ?_⟩
  · have howner : s.Owns (.call k) p := hk
    obtain ⟨message, hmessage⟩ := Option.ne_none_iff_exists'.mp (hinv.blocks.there_of_has howner)
    exact ⟨message, (hinv.intact k p hk).symm.trans hmessage, hmessage⟩
  · exact Keeper.call.inj (hinv.blocks.exclusive (.call k) (.call l) p hk hl)
  · have howner : s.Owns (.call k) p := hk
    have hnot : ¬ s.Owns .program p := hinv.blocks.not_has_of_ne howner Keeper.noConfusion
    exact Bool.eq_false_iff.mpr hnot

/-- The invariant is enough for what is claimed of the items. -/
theorem Inv.placed (hinv : Inv tr s) {n : Nat} (hpool : ∀ i, s.items i ≠ none ↔ i < n) :
    s.Placed n := by
  have hlt : ∀ place i, s.At place i → i < n :=
    fun place i hi => (hpool i).mp (hinv.nodes.there_of_has hi)
  refine ⟨fun i hi => hinv.nodes.existsUnique ((hpool i).mpr hi), hlt, hinv.emptyNodup,
    hinv.queueNodup, ?_⟩
  have hsub : s.queueRoot ⊆ List.range n := fun i hi => List.mem_range.mpr (hlt .queueRoot i hi)
  have hle := (hinv.queueNodup.subperm hsub).length_le
  rwa [List.length_range] at hle

/-- With or without a pool, messages come out as they went in. -/
theorem run_faithful {n : Nat} {heap : Ptr → Option Message}
    (hrun : Run Step (createFIFO n heap) tr s) : Inv tr s :=
  hrun.history Inv (Inv.create n heap) fun _ _ _ _ _ hinv hstep => hinv.step hstep

/-- **The bounded FIFO.**  In every run of a queue with a pool of `n` nodes,
every node is in exactly one place, and messages come out once, intact, and in
the order in which they went in. -/
theorem bounded_fifo {n : Nat} {heap : Ptr → Option Message} (hn : 0 < n)
    (hrun : Run Step (createFIFO n heap) tr s) :
    s.Placed n ∧ s.Faithful tr ∧ dequeued tr <+: (enqueued tr).map some := by
  have hpool : s.poolCount = n ∧ ∀ i, s.items i ≠ none ↔ i < n := by
    refine hrun.history (fun _ s => s.poolCount = n ∧ ∀ i, s.items i ≠ none ↔ i < n) ?_ ?_
    · refine ⟨rfl, fun i => ?_⟩
      by_cases hi : i < n <;> simp [createFIFO, hi]
    · intro tr s e t _ hs hstep
      obtain ⟨hcount, hitems⟩ := pool_step (by omega) hstep
      exact ⟨hcount.trans hs.1, fun i => (hitems i).trans (hs.2 i)⟩
  have hinv := run_faithful hrun
  refine ⟨hinv.placed hpool.2, hinv.faithful, ?_⟩
  rw [hinv.order]
  exact List.prefix_append ..

/-- One thread puts a message into a pool of one node, and another takes it. -/
theorem bounded_fifo_one_message : ∃ tr s, Run Step (createFIFO 1 fun _ => none) tr s ∧
    enqueued tr = [[1, 2]] ∧ dequeued tr = [some [1, 2]] ∧ s.calls 1 = .idle ∧
      s.given 5 = true ∧ s.Placed 1 ∧ s.Faithful tr := by
  have hrun := Run.nil.snoc (@Step.enqueueFIFO (createFIFO 1 fun _ => none) 0 [1, 2] rfl)
  have hrun := hrun.snoc (@Step.emptyRootSeen _ 0 [1, 2] rfl (by decide) (by decide))
  have hrun := hrun.snoc (@Step.allocQItem _ 0 [1, 2] 0 [] rfl rfl)
  have hrun := hrun.snoc (@Step.fill _ 0 0 [1, 2] 5 rfl rfl)
  have hrun := hrun.snoc (@Step.insert _ 0 0 [1, 2] rfl)
  have hrun := hrun.snoc (@Step.dequeueFIFO _ 1 rfl)
  have hrun := hrun.snoc (@Step.queueRootSeen _ 1 rfl (by decide))
  have hrun := hrun.snoc (@Step.take _ 1 0 [] rfl rfl)
  have hrun := hrun.snoc (@Step.freeQItem _ 1 0 (some 5) rfl)
  have hrun := hrun.snoc (@Step.recycle _ 1 0 (some 5) rfl (by decide))
  have hrun := hrun.snoc (@Step.dequeued _ 1 (some 5) rfl)
  obtain ⟨hplaced, hfaithful, -⟩ := bounded_fifo (by decide) hrun
  exact ⟨_, _, hrun, rfl, rfl, rfl, rfl, hplaced, hfaithful⟩

end UtilFifo

import PiFrame.AlignedTiling

/-!
# The buddy allocator of the queue driver

`drivers/vmq/balloc.c`, function by function.  The bitmap is the memory that
starts at `ba->bitmap`, so it is a function on all indices: the code may look
one entry past the `nr_pages` entries it owns, and what stands there is
whatever the memory held before.

Loops carry a fuel argument and answer `none` when it runs out; the bounds
given to them in `baAlloc` and `baFree` are proved sufficient later.  A page
index or a length is never negative here, so these are `Nat`; arithmetic that
the code does in `unsigned int` or in a bit field is cut to that width.
-/

namespace BuddyAllocator

/-- `struct bitmap`: one allocated bit and a seven-bit order. -/
structure Bitmap where
  allocated : Bool
  order : Nat
  deriving DecidableEq, Repr

/-- Store into the seven-bit `order` field. -/
def Bitmap.setOrder (e : Bitmap) (order : Nat) : Bitmap :=
  { e with order := order % 2 ^ 7 }

/-- The memory from `ba->bitmap` on. -/
abbrev Memory := Nat → Bitmap

/-- `BA_ORDER(ba, index) = order`. -/
def Memory.setOrder (m : Memory) (index order : Nat) : Memory :=
  Function.update m index ((m index).setOrder order)

/-- `ba->bitmap[index].allocated = allocated`. -/
def Memory.setAllocated (m : Memory) (index : Nat) (allocated : Bool) : Memory :=
  Function.update m index { m index with allocated }

/-- `struct BuddyAllocator`. -/
structure Allocator where
  size : Nat
  pageSize : Nat
  nrPages : Nat
  maxOrder : Nat
  bitmap : Memory

/-- `BA_MIN_PAGE_MASK`. -/
def baMinPageMask : Nat := 2 ^ 7 - 1

/-- More passes than a loop over seven-bit orders can take. -/
def orderFuel : Nat := 2 ^ 7

/-- `BA_NEXT_INDEX`. -/
def baNextIndex (m : Memory) (index : Nat) : Nat :=
  index + 1 <<< (m index).order

/-- `BA_BUDDY_INDEX`. -/
def baBuddyIndex (m : Memory) (index : Nat) : Nat :=
  index ^^^ 1 <<< (m index).order

/-- `BA_IS_FREE`. -/
def baIsFree (m : Memory) (index : Nat) : Bool :=
  !(m index).allocated

/-- `ba_order`: the first `i` with `len >> i == 0` for the number of pages
less one, or the width of `unsigned int` if there is none. -/
@[irreducible] def baOrder (len pageSize : Nat) : Nat :=
  let len := (len + pageSize - 1) % 2 ^ 32 / pageSize
  let len := (len + (2 ^ 32 - 1)) % 2 ^ 32
  ((List.range 32).find? (fun i => len >>> i == 0)).getD 32

/-- The loop of `ba_create` over the bits of `nr_pages`, for the bits below
the given one. -/
def baCreateLoop (nrPages : Nat) : Nat → Nat → Memory → Memory
  | 0, _, m => m
  | i + 1, index, m =>
      if nrPages &&& 1 <<< i ≠ 0 then
        let m := m.setOrder index i
        baCreateLoop nrPages i (baNextIndex m index) m
      else
        baCreateLoop nrPages i index m

/-- `ba_create`, the memory for the bitmap being `m`; `none` when the page
size is refused. -/
def baCreate (m : Memory) (size pageSize : Nat) : Option Allocator :=
  if pageSize &&& baMinPageMask ≠ 0 then
    none
  else
    let nrPages := size / pageSize
    let zeroed : Memory := fun i => if i < nrPages then ⟨false, 0⟩ else m i
    some {
      size, pageSize, nrPages
      maxOrder := baOrder size pageSize
      bitmap := baCreateLoop nrPages 32 0 zeroed }

/-- The search loop of `ba_alloc`; `best` is `none` for the code's `-1`. -/
def baSearch (m : Memory) (stop order : Nat) :
    Nat → Nat → Option Nat → Option (Option Nat)
  | 0, _, _ => none
  | fuel + 1, curr, best =>
      if curr < stop then
        if baIsFree m curr then
          if (m curr).order = order % 2 ^ 8 then
            some (some curr)
          else if order % 2 ^ 8 < (m curr).order ∧
              ∀ b ∈ best, (m curr).order < (m b).order then
            baSearch m stop order fuel (baNextIndex m curr) (some curr)
          else
            baSearch m stop order fuel (baNextIndex m curr) best
        else
          baSearch m stop order fuel (baNextIndex m curr) best
      else
        some best

/-- The split loop of `ba_alloc`. -/
def baSplit (order best : Nat) : Nat → Memory → Option Memory
  | 0, _ => none
  | fuel + 1, m =>
      if order % 2 ^ 8 < (m best).order then
        let m := m.setOrder best ((m best).order - 1)
        baSplit order best fuel (m.setOrder (baBuddyIndex m best) (m best).order)
      else
        some m

/-- `ba_alloc` once the order is computed: the new allocator and the page
index, `none` for `-1`.  Every pass of the search moves on by at least one
page, so the page count bounds it. -/
def baAllocOrder (ba : Allocator) (order : Nat) : Option (Allocator × Option Nat) :=
  if ba.maxOrder < order then
    some (ba, none)
  else
    match baSearch ba.bitmap ba.nrPages order (ba.nrPages + 1) 0 none with
    | none => none
    | some none => some (ba, none)
    | some (some best) =>
        match baSplit order best orderFuel ba.bitmap with
        | none => none
        | some m => some ({ ba with bitmap := m.setAllocated best true }, some best)

/-- `ba_alloc`. -/
def baAlloc (ba : Allocator) (len : Nat) : Option (Allocator × Option Nat) :=
  baAllocOrder ba (baOrder len ba.pageSize)

/-- The merge loop of `ba_free`. -/
def baMerge (nrPages : Nat) : Nat → Nat → Memory → Option Memory
  | 0, _, _ => none
  | fuel + 1, curr, m =>
      let buddy := baBuddyIndex m curr
      if baIsFree m buddy ∧ (m buddy).order = (m curr).order then
        let m := m.setOrder buddy ((m buddy).order + 1)
        let m := m.setOrder curr ((m curr).order + 1)
        let curr := min buddy curr
        if curr < nrPages then baMerge nrPages fuel curr m else some m
      else
        some m

/-- `ba_free`. -/
def baFree (ba : Allocator) (index : Nat) : Option Allocator :=
  (baMerge ba.nrPages orderFuel index (ba.bitmap.setAllocated index false)).map
    (fun m => { ba with bitmap := m })

open AlignedTiling (Block)

/-- Walk the bitmap by `BA_NEXT_INDEX` and collect what the visited entries
say. -/
def baWalk (m : Memory) (stop : Nat) : Nat → Nat → List Block
  | 0, _ => []
  | fuel + 1, curr =>
      if curr < stop then
        ⟨curr, (m curr).order, (m curr).allocated⟩ :: baWalk m stop fuel (baNextIndex m curr)
      else
        []

/-- The blocks met on the walk from index 0. -/
def baBlocks (ba : Allocator) : List Block :=
  baWalk ba.bitmap ba.nrPages ba.nrPages 0

end BuddyAllocator

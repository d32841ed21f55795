import PiFrame.VmshmDriver

/-!
# Mapped shared memory

`vmshm_mmap` maps the pages of the entry that a file has selected, all at once when
they are contiguous and one by one when they are not.  A mapping keeps its file open.
It does not keep the entry selected: `VMSHM_UNSELECT` works on a file that is mapped,
and the entry can be removed behind it.

The steps are those of the driver and those that change page tables.  The pages
behind an entry come from the kernel when it is built and go back when it is removed.
-/

namespace Vmshm

open LinkedEntries Transition

/-- The number of a page of physical memory. -/
abbrev Frame := Nat

abbrev Process := Nat

/-- `PAGE_SIZE`, as the loop counts with it. -/
def pageSize : Nat := kernelPageSize.toNat

def vmshmFlagPhysical : BitVec 32 := 1

/-- The region that is asked for, in pages: its process, where it begins, its length
and the offset in the file. -/
structure VmArea where
  process : Process
  start : Nat
  pages : Nat
  pgoff : Nat

/-- What an address leads to: the `index`-th page of a region of `file`. -/
structure Pte where
  file : Filp
  index : Nat
  frame : Frame
  deriving DecidableEq

/-- Why nothing is mapped. -/
inductive RemapErrno
  | eio
  | einval
  | remap
  deriving DecidableEq, Repr

/-- The pages behind an entry from its `i`-th on, until `remap_pfn_range` fails. -/
def mapPages (frames : List Frame) (fails : Nat → Bool) : Nat → Nat → Except RemapErrno (List Frame)
  | _, 0 => .ok []
  | i, pages + 1 =>
      if fails i then .error .remap
      else (mapPages frames fails (i + 1) pages).map fun rest => frames.getD i 0 :: rest

/-- `length > mem->size` -/
def tooLong (mem : VMSharedMemory) (vma : VmArea) : Prop :=
  mem.size.toInt < (vma.pages * pageSize : Nat)

instance (mem : VMSharedMemory) (vma : VmArea) : Decidable (tooLong mem vma) :=
  inferInstanceAs (Decidable (_ < _))

/-- `mmap_vmem` -/
def mmapVmem (mem : VMSharedMemory) (frames : List Frame) (fails : Nat → Bool) (vma : VmArea) :
    Except RemapErrno (List Frame) :=
  if tooLong mem vma then .error .eio else mapPages frames fails 0 vma.pages

/-- `mmap_kmem` -/
def mmapKmem (mem : VMSharedMemory) (frames : List Frame) (fails : Nat → Bool) (vma : VmArea) :
    Except RemapErrno (List Frame) :=
  if tooLong mem vma then .error .eio
  else if fails 0 then .error .remap
  else .ok (List.range' (frames.headD 0) vma.pages)

/-- `vmshm_remap` -/
def vmshmRemap (mem : VMSharedMemory) (frames : List Frame) (fails : Nat → Bool) (vma : VmArea) :
    Except RemapErrno (List Frame) :=
  if mem.flags &&& vmshmFlagPhysical ≠ 0 then mmapKmem mem frames fails vma
  else mmapVmem mem frames fails vma

/-- The driver, the pages behind its entries, the page tables, and the calls of
`vmshm_mmap` that have read `private_data`. -/
structure Mapped where
  driver : Driver
  frames : Addr → List Frame
  ptes : Process → Nat → Option Pte
  mmaps : Task → Option (Filp × Addr × VmArea)

inductive MapEvent
  | driver (e : Event)
  | entered
  | ret (result : Except RemapErrno Unit)
  | munmap
  | fork

/-- `kmalloc` or `vmalloc` of whole pages. -/
structure Backs (frames : List Frame) (mem : VMSharedMemory) : Prop where
  size : ((frames.length * pageSize : Nat) : Int) = mem.size.toInt
  contiguous : mem.flags &&& vmshmFlagPhysical ≠ 0 →
    frames = List.range' (frames.headD 0) frames.length

/-- An entry keeps its pages, and a new one gets pages that no other has. -/
structure Allocated (s t : Driver) (frames frames' : Addr → List Frame) : Prop where
  old : ∀ a ∈ s.reg.live, a ∈ t.reg.live → frames' a = frames a
  backs : ∀ a ∈ t.reg.live, a ∉ s.reg.live → Backs (frames' a) (t.reg.mem a)
  nodup : ∀ a ∈ t.reg.live, a ∉ s.reg.live → (frames' a).Nodup
  apart : ∀ a ∈ t.reg.live, a ∉ s.reg.live → ∀ b ∈ t.reg.live, b ≠ a →
    List.Disjoint (frames' a) (frames' b)

/-- No region of file `h` is left, and none is being made. -/
def Mapped.Unmapped (s : Mapped) (h : Filp) : Prop :=
  (∀ p v pte, s.ptes p v = some pte → pte.file ≠ h) ∧
    ∀ k a vma, s.mmaps k ≠ some (h, a, vma)

/-- The pages of a region in the page table of its process. -/
def mapRegion (ptes : Process → Nat → Option Pte) (h : Filp) (vma : VmArea) (frames : List Frame) :
    Process → Nat → Option Pte := fun p v =>
  if p = vma.process ∧ vma.start ≤ v ∧ v < vma.start + vma.pages then
    (frames[v - vma.start]?).map fun frame => ⟨h, v - vma.start, frame⟩
  else ptes p v

/-- The steps, with a step relation for the driver. -/
inductive MapStep (step : Driver → Task × Event → Driver → Prop) :
    Mapped → Task × MapEvent → Mapped → Prop
  /-- `vmshm_release` runs when no region of the file is left. -/
  | driver {s : Mapped} {k : Task} {e : Event} {t : Driver} {frames : Addr → List Frame}
      (at_call : s.mmaps k = none) (step_driver : step s.driver (k, e) t)
      (pages : Allocated s.driver t s.frames frames)
      (closed : ∀ h, t.files h = .closed → s.driver.files h = .closed ∨ s.Unmapped h) :
      MapStep step s (k, .driver e) { s with driver := t, frames }
  | unselected {s : Mapped} {k : Task} {h : Filp} (at_call : s.driver.calls k = .idle)
      (at_file : s.driver.files h = .opened none) :
      MapStep step s (k, .ret (.error .einval)) s
  | entered {s : Mapped} {k : Task} {h : Filp} {a : Addr} {vma : VmArea}
      (at_call : s.driver.calls k = .idle) (at_mmap : s.mmaps k = none)
      (at_file : s.driver.files h = .opened (some a)) :
      MapStep step s (k, .entered) { s with mmaps := Function.update s.mmaps k (some (h, a, vma)) }
  /-- What has been mapped before an error is unmapped again with the region. -/
  | failed {s : Mapped} {k : Task} {h : Filp} {a : Addr} {vma : VmArea} {fails : Nat → Bool}
      {err : RemapErrno} (at_mmap : s.mmaps k = some (h, a, vma))
      (outcome : vmshmRemap (s.driver.reg.mem a) (s.frames a) fails vma = .error err) :
      MapStep step s (k, .ret (.error err)) {
        s with
          driver := s.driver.withReg (s.driver.reg.touch a)
          mmaps := Function.update s.mmaps k none }
  | mapped {s : Mapped} {k : Task} {h : Filp} {a : Addr} {vma : VmArea} {fails : Nat → Bool}
      {frames : List Frame} (at_mmap : s.mmaps k = some (h, a, vma))
      (outcome : vmshmRemap (s.driver.reg.mem a) (s.frames a) fails vma = .ok frames) :
      MapStep step s (k, .ret (.ok ())) {
        s with
          driver := s.driver.withReg (s.driver.reg.touch a)
          ptes := mapRegion s.ptes h vma frames
          mmaps := Function.update s.mmaps k none }
  /-- Some addresses lead nowhere any more. -/
  | munmap {s : Mapped} {k : Task} {ptes : Process → Nat → Option Pte}
      (less : ∀ p v pte, ptes p v = some pte → s.ptes p v = some pte) :
      MapStep step s (k, .munmap) { s with ptes }
  /-- A new process has the page table of its parent. -/
  | fork {s : Mapped} {k : Task} {p child : Process} (fresh : ∀ v, s.ptes child v = none) :
      MapStep step s (k, .fork) { s with ptes := Function.update s.ptes child (s.ptes p) }

/-- The driver is used with care, no file is unselected as long as it is mapped, and
`private_data` is not read while another call changes it. -/
def CarefulMapStep (s : Mapped) (e : Task × MapEvent) (t : Mapped) : Prop :=
  MapStep CarefulStep s e t ∧
    (∀ h a, s.driver.selected h = some a → t.driver.selected h = some a ∨ s.Unmapped h) ∧
    ∀ k h a vma, t.mmaps k = some (h, a, vma) → s.mmaps k = none →
      ∀ l, (s.driver.calls l).midway ≠ some h

/-- Nothing is created yet and nothing mapped. -/
def mapInit (mem : Addr → VMSharedMemory) (frames : Addr → List Frame) : Mapped where
  driver := init mem
  frames := frames
  ptes := fun _ _ => none
  mmaps := fun _ => none

/-- Whatever is mapped belongs to the entry that the file has selected, and that is
there.  Two addresses lead to the same page exactly when they are the same place of
the same entry. -/
structure Mapped.Sound (s : Mapped) : Prop where
  backed : ∀ p v pte, s.ptes p v = some pte → ∃ a, s.driver.selected pte.file = some a ∧
    a ∈ s.driver.reg.list ∧ a ∈ s.driver.reg.live ∧ (s.frames a)[pte.index]? = some pte.frame
  shared : ∀ p v pte q w pte', s.ptes p v = some pte → s.ptes q w = some pte' →
    (pte.frame = pte'.frame ↔
      s.driver.selected pte.file = s.driver.selected pte'.file ∧ pte.index = pte'.index)
  sane : s.driver.reg.fault = false

variable {frames : List Frame} {fails : Nat → Bool} {mem : VMSharedMemory} {vma : VmArea}
  {reg reg' : Registry} {s t : Driver} {a : Addr} {x y : Mapped}

/-! ## What a mapping contains -/

/-- A `mmap` that succeeds has mapped the frames in their order. -/
theorem mapPages_ok {i pages : Nat} {mapped : List Frame}
    (h : mapPages frames fails i pages = .ok mapped) :
    mapped = (List.range' i pages).map fun j => frames.getD j 0 := by
  induction pages generalizing i mapped with
  | zero =>
      cases h
      rfl
  | succ pages ih =>
      rw [mapPages] at h
      split at h
      · cases h
      · cases hrest : mapPages frames fails (i + 1) pages with
        | error err =>
            rw [hrest] at h
            cases h
        | ok rest =>
            rw [hrest] at h
            cases h
            rw [ih hrest]
            rfl

/-- Of contiguous frames, the page `i` is the frame `i`. -/
theorem getElem?_range'_of_contiguous (hcontiguous : frames = List.range' (frames.headD 0) frames.length)
    {i pages : Nat} (hi : i < pages) (hpages : pages ≤ frames.length) :
    (List.range' (frames.headD 0) pages)[i]? = frames[i]? := by
  have hfit : i < frames.length := by omega
  conv_rhs => rw [hcontiguous]
  rw [List.getElem?_range' hi, List.getElem?_range' hfit]

/-- The `i`-th page of a region is the `i`-th page of the entry, wherever in the file
the region is said to begin. -/
theorem vmshmRemap_ok (hbacks : Backs frames mem) {mapped : List Frame}
    (h : vmshmRemap mem frames fails vma = .ok mapped) {i : Nat} (hi : i < vma.pages) :
    mapped[i]? = frames[i]? ∧ i < frames.length := by
  have hfits : ¬ tooLong mem vma → vma.pages ≤ frames.length := by
    intro hshort
    have hsize := hbacks.size
    unfold tooLong at hshort
    have hle : vma.pages * pageSize ≤ frames.length * pageSize := by omega
    exact Nat.le_of_mul_le_mul_right hle (by decide)
  unfold vmshmRemap at h
  split at h
  · next hphysical =>
      unfold mmapKmem at h
      split at h
      · cases h
      · next hshort =>
          split at h
          · cases h
          · cases h
            have hpages := hfits hshort
            exact ⟨getElem?_range'_of_contiguous (hbacks.contiguous hphysical) hi hpages, by omega⟩
  · unfold mmapVmem at h
    split at h
    · cases h
    · next hshort =>
        have hpages := hfits hshort
        have hin : i < frames.length := by omega
        refine ⟨?_, hin⟩
        rw [mapPages_ok h, List.getElem?_map, List.getElem?_range' hi]
        simp [List.getD_eq_getElem?_getD, List.getElem?_eq_getElem hin]

/-! ## Entries keep their size -/

theorem walk_mem (reg : Registry) (p : VMSharedMemory → Bool) (list : List Addr) :
    (reg.walk p list).1.mem = reg.mem := by
  induction list generalizing reg with
  | nil => rfl
  | cons b list ih =>
      rw [Entries.walk]
      split
      · rfl
      · exact ih (reg.touch b)

theorem lookup_mem {name : Name} {found : Option Addr} (h : lookup reg name = (reg', found)) :
    reg'.mem = reg.mem := by
  have hmem := walk_mem reg (fun entry => entry.name = name) reg.list
  rw [← hmem]
  exact (congrArg (fun r => r.1.mem) h).symm

/-- What the driver never changes in an entry. -/
def SameShape (reg reg' : Registry) : Prop :=
  ∀ a ∈ reg.live, (reg'.mem a).size = (reg.mem a).size ∧ (reg'.mem a).flags = (reg.mem a).flags

theorem sameShape_of_mem (h : reg'.mem = reg.mem) : SameShape reg reg' := by
  intro a _
  rw [h]
  exact ⟨rfl, rfl⟩

theorem sameShape_addRefcnt (b : Addr) (i : Int) : SameShape reg (addRefcnt reg b i) := by
  intro a _
  by_cases hab : a = b
  · subst hab
    rw [addRefcnt, Entries.modify_mem_self]
    exact ⟨rfl, rfl⟩
  · rw [addRefcnt_of_ne i hab]
    exact ⟨rfl, rfl⟩

/-- No step of the driver changes name, size or flags of an entry, except that a new one gets
its own. -/
theorem Step.sameShape {e : Task × Event} (hstep : Step s e t) : SameShape s.reg t.reg := by
  cases hstep with
  | duplicated at_call outcome => exact sameShape_of_mem (lookup_mem outcome)
  | vetted at_call outcome => exact sameShape_of_mem (lookup_mem outcome)
  | removeFound at_call outcome => exact sameShape_of_mem (lookup_mem outcome)
  | removeMissing at_call outcome => exact sameShape_of_mem (lookup_mem outcome)
  | @build k name size perm flags b at_call test free =>
      intro a ha
      have hne : a ≠ b := by
        rintro rfl
        exact free ha
      exact ⟨congrArg _ (Entries.kzalloc_mem_of_ne hne), congrArg _ (Entries.kzalloc_mem_of_ne hne)⟩
  | @vmshmRemove k b reg err at_call outcome =>
      apply sameShape_of_mem
      unfold Vmshm.vmshmRemove at outcome
      split at outcome
      · cases outcome
        rfl
      · cases outcome
        rfl
  | @selectFound k h name reg b at_call outcome =>
      unfold vmshmSelect at outcome
      split at outcome
      · next r found hlookup =>
          cases outcome
          intro a ha
          have hmem := lookup_mem hlookup
          by_cases hab : a = b
          · subst hab
            simp [Driver.goto, Driver.withSelected, Driver.withReg, addRefcnt, hmem]
          · simp [Driver.goto, Driver.withSelected, Driver.withReg, addRefcnt_of_ne _ hab, hmem]
      · cases outcome
  | @selectMissing k h name reg at_call outcome =>
      unfold vmshmSelect at outcome
      split at outcome
      · cases outcome
      · next r hlookup =>
          cases outcome
          exact sameShape_of_mem (lookup_mem hlookup)
  | vmshmUnselect at_call => exact sameShape_addRefcnt _ _
  | release at_call at_file ended => exact sameShape_addRefcnt _ _
  | _ => exact sameShape_of_mem rfl

/-! ## What is kept -/

/-- The entries have pages of their own, and what is mapped or being mapped is
selected. -/
structure MapInv (x : Mapped) : Prop where
  inv : Inv x.driver
  backs : ∀ a ∈ x.driver.reg.live, Backs (x.frames a) (x.driver.reg.mem a)
  nodup : ∀ a ∈ x.driver.reg.live, (x.frames a).Nodup
  apart : ∀ a ∈ x.driver.reg.live, ∀ b ∈ x.driver.reg.live, b ≠ a →
    List.Disjoint (x.frames a) (x.frames b)
  ptes : ∀ p v pte, x.ptes p v = some pte → ∃ a, x.driver.selected pte.file = some a ∧
    (x.frames a)[pte.index]? = some pte.frame
  mmaps : ∀ k h a vma, x.mmaps k = some (h, a, vma) → x.driver.selected h = some a

/-- What a file has selected is in the list and has not been freed. -/
theorem MapInv.live (hx : MapInv x) {h : Filp} (hsel : x.driver.selected h = some a) :
    a ∈ x.driver.reg.list ∧ a ∈ x.driver.reg.live := by
  have hlist := hx.inv.kept.held h a hsel
  exact ⟨hlist, hx.inv.kept.live a hlist⟩

/-- Whether frames back an entry depends on its size and its flags. -/
theorem Backs.congr {mem' : VMSharedMemory} (h : Backs frames mem) (hsize : mem'.size = mem.size)
    (hflags : mem'.flags = mem.flags) : Backs frames mem' :=
  ⟨by rw [hsize]; exact h.size, fun hphysical => h.contiguous (by rwa [← hflags])⟩

/-- A step of the driver keeps the mappings, if it unselects only what is not mapped.  What is
mapped is selected, so its entry cannot be removed. -/
theorem MapInv.driver (hx : MapInv x) {e : Task × Event} {frames' : Addr → List Frame}
    (hstep : CarefulStep x.driver e t) (hpages : Allocated x.driver t x.frames frames')
    (hkeep : ∀ h a, x.driver.selected h = some a → t.selected h = some a ∨ x.Unmapped h) :
    MapInv { x with driver := t, frames := frames' } := by
  have hinv : Inv t := hx.inv.step hstep
  have hshape := hstep.1.sameShape
  have hsame : ∀ {h a}, x.driver.selected h = some a → t.selected h = some a →
      frames' a = x.frames a := fun hs ht =>
    hpages.old _ (hx.live hs).2 (hinv.kept.live _ (hinv.kept.held _ _ ht))
  refine ⟨hinv, fun a ha => ?_, fun a ha => ?_, fun a ha b hb hne => ?_, ?_, ?_⟩
  · by_cases hold : a ∈ x.driver.reg.live
    · obtain ⟨hsize, hflags⟩ := hshape a hold
      simp only [hpages.old a hold ha]
      exact (hx.backs a hold).congr hsize hflags
    · exact hpages.backs a ha hold
  · by_cases hold : a ∈ x.driver.reg.live
    · simp only [hpages.old a hold ha]
      exact hx.nodup a hold
    · exact hpages.nodup a ha hold
  · by_cases hold : a ∈ x.driver.reg.live
    · by_cases hold' : b ∈ x.driver.reg.live
      · simp only [hpages.old a hold ha, hpages.old b hold' hb]
        exact hx.apart a hold b hold' hne
      · exact (hpages.apart b hb hold' a ha hne.symm).symm
    · exact hpages.apart a ha hold b hb hne
  · intro p v pte hpte
    obtain ⟨a, hsel, hframe⟩ := hx.ptes p v pte hpte
    have hkept := (hkeep _ a hsel).resolve_right fun hnone => hnone.1 p v pte hpte rfl
    refine ⟨a, hkept, ?_⟩
    simp only [hsame hsel hkept]
    exact hframe
  · intro k h a vma hk
    exact (hkeep h a (hx.mmaps k h a vma hk)).resolve_right fun hnone => hnone.2 k a vma hk

/-- Reading the entry of a selected file is no mistake. -/
theorem MapInv.touch (hx : MapInv x) {h : Filp} (hsel : x.driver.selected h = some a) :
    x.driver.withReg (x.driver.reg.touch a) = x.driver := by
  rw [Entries.touch_of_live (hx.live hsel).2]
  rfl

/-- A `mmap` that ends was of the entry that its file has selected. -/
theorem MapInv.leave (hx : MapInv x) {k l : Task} {h : Filp}
    (hl : Function.update x.mmaps k none l = some (h, a, vma)) : x.driver.selected h = some a := by
  by_cases hlk : l = k
  · rw [hlk, Function.update_self] at hl
    cases hl
  · rw [Function.update_of_ne hlk] at hl
    exact hx.mmaps l h a vma hl

/-- The pages that a `mmap` writes belong to the entry that its file has selected. -/
theorem MapInv.map (hx : MapInv x) {k : Task} {h : Filp} {mapped : List Frame}
    (hk : x.mmaps k = some (h, a, vma))
    (houtcome : vmshmRemap (x.driver.reg.mem a) (x.frames a) fails vma = .ok mapped) :
    MapInv {
      x with
        ptes := mapRegion x.ptes h vma mapped
        mmaps := Function.update x.mmaps k none } := by
  have hsel := hx.mmaps k h a vma hk
  have hbacks := hx.backs a (hx.live hsel).2
  refine { hx with ptes := ?_, mmaps := fun l g b vma' hl => hx.leave hl }
  intro p v pte hpte
  simp only [mapRegion] at hpte
  split at hpte
  · next hin =>
      obtain ⟨-, hlow, hhigh⟩ := hin
      obtain ⟨hsame, -⟩ := vmshmRemap_ok hbacks houtcome (i := v - vma.start) (by omega)
      obtain ⟨frame, hframe, rfl⟩ := Option.map_eq_some_iff.1 hpte
      exact ⟨a, hsel, by rw [← hsame, hframe]⟩
  · exact hx.ptes p v pte hpte

theorem MapInv.step (hx : MapInv x) {e : Task × MapEvent} (hstep : CarefulMapStep x e y) :
    MapInv y := by
  obtain ⟨hstep, hkeep, halone⟩ := hstep
  cases hstep with
  | driver at_call step_driver pages closed => exact hx.driver step_driver pages hkeep
  | unselected at_call at_file => exact hx
  | @entered k h a vma at_call at_mmap at_file =>
      have hfree := halone k h a vma (Function.update_self ..) at_mmap
      have hsel := (hx.inv.settled.selection h hfree a).2 at_file
      refine { hx with mmaps := fun l g b vma' hl => ?_ }
      by_cases hlk : l = k
      · simp only [hlk, Function.update_self] at hl
        cases hl
        exact hsel
      · simp only [Function.update_of_ne hlk] at hl
        exact hx.mmaps l g b vma' hl
  | @failed k h a vma fails err at_mmap outcome =>
      rw [hx.touch (hx.mmaps k h a vma at_mmap)]
      exact { hx with mmaps := fun l g b vma' hl => hx.leave hl }
  | @mapped k h a vma fails frames at_mmap outcome =>
      rw [hx.touch (hx.mmaps k h a vma at_mmap)]
      exact hx.map at_mmap outcome
  | munmap less => exact { hx with ptes := fun p v pte hpte => hx.ptes p v pte (less p v pte hpte) }
  | @fork k p child fresh =>
      refine { hx with ptes := fun q v pte hpte => ?_ }
      by_cases hq : q = child
      · simp only [hq, Function.update_self] at hpte
        exact hx.ptes p v pte hpte
      · simp only [Function.update_of_ne hq] at hpte
        exact hx.ptes q v pte hpte

theorem MapInv.init (mem : Addr → VMSharedMemory) (frames : Addr → List Frame) :
    MapInv (mapInit mem frames) := by
  refine ⟨Inv.init mem, fun a ha => ?_, fun a ha => ?_, fun a ha => ?_, fun p v pte hpte => ?_,
    fun k h a vma hk => ?_⟩
  · exact absurd ha (Finset.notMem_empty a)
  · exact absurd ha (Finset.notMem_empty a)
  · exact absurd ha (Finset.notMem_empty a)
  · cases hpte
  · cases hk

/-- Two places of entries hold the same page only when they are one place. -/
theorem MapInv.same_page (hx : MapInv x) {g h : Filp} {b : Addr} {i j : Nat} {frame : Frame}
    (hg : x.driver.selected g = some a) (hh : x.driver.selected h = some b)
    (hi : (x.frames a)[i]? = some frame) (hj : (x.frames b)[j]? = some frame) :
    a = b ∧ i = j := by
  have ha := (hx.live hg).2
  have hb := (hx.live hh).2
  have hab : a = b := by
    by_contra hne
    exact hx.apart b hb a ha hne (List.mem_of_getElem? hj) (List.mem_of_getElem? hi)
  subst hab
  obtain ⟨hilt, hi⟩ := List.getElem?_eq_some_iff.1 hi
  obtain ⟨hjlt, hj⟩ := List.getElem?_eq_some_iff.1 hj
  exact ⟨rfl, (hx.nodup a ha).getElem_inj_iff.1 (hi.trans hj.symm)⟩

/-- The invariant is enough: every mapping is of an entry that is there, with its own pages. -/
theorem MapInv.sound (hx : MapInv x) : x.Sound := by
  refine ⟨fun p v pte hpte => ?_, fun p v pte q w pte' hpte hpte' => ?_, hx.inv.kept.sane⟩
  · obtain ⟨a, hsel, hframe⟩ := hx.ptes p v pte hpte
    exact ⟨a, hsel, (hx.live hsel).1, (hx.live hsel).2, hframe⟩
  · obtain ⟨a, hsel, hframe⟩ := hx.ptes p v pte hpte
    obtain ⟨b, hsel', hframe'⟩ := hx.ptes q w pte' hpte'
    constructor
    · intro hsame
      rw [← hsame] at hframe'
      obtain ⟨rfl, hindex⟩ := hx.same_page hsel hsel' hframe hframe'
      exact ⟨hsel.trans hsel'.symm, hindex⟩
    · rintro ⟨hfile, hindex⟩
      cases hsel.symm.trans (hfile.trans hsel')
      rw [hindex] at hframe
      exact Option.some.inj (hframe.symm.trans hframe')

/-- No new entry needs no new pages. -/
theorem Allocated.refl {frames : Addr → List Frame} (h : t.reg.live ⊆ s.reg.live) :
    Allocated s t frames frames :=
  ⟨fun _ _ _ => rfl, fun _ ha hnew => absurd (h ha) hnew, fun _ ha hnew => absurd (h ha) hnew,
    fun _ ha hnew => absurd (h ha) hnew⟩

/-- A step of the driver that gives nothing up. -/
theorem CarefulMapStep.driver {x : Mapped} {k : Task} {e : Event} {t : Driver}
    {frames : Addr → List Frame} (hidle : ∀ k, x.mmaps k = none)
    (hstep : CarefulStep x.driver (k, e) t) (hpages : Allocated x.driver t x.frames frames)
    (hopen : ∀ h, t.files h = .closed → x.driver.files h = .closed)
    (hkeep : ∀ h a, x.driver.selected h = some a → t.selected h = some a) :
    CarefulMapStep x (k, .driver e) { x with driver := t, frames } :=
  ⟨.driver (hidle k) hstep hpages fun h hclosed => .inl (hopen h hclosed),
    fun h a hsel => .inl (hkeep h a hsel), fun k h a vma hk hnone => by cases hnone.symm.trans hk⟩

/-- A file that is closed after another was opened was closed before. -/
theorem update_opened {files : Filp → File} {g h : Filp} {p : Option Addr}
    (hclosed : Function.update files h (.opened p) g = .closed) : files g = .closed := by
  by_cases hg : g = h
  · rw [hg, Function.update_self] at hclosed
    cases hclosed
  · rwa [Function.update_of_ne hg] at hclosed

/-- A step of the driver that brings no entry and closes no file. -/
theorem MapStep.calm {x : Mapped} {k : Task} {e : Event} {t : Driver} (hidle : x.mmaps k = none)
    (hstep : CarefulStep x.driver (k, e) t) (hlive : t.reg.live ⊆ x.driver.reg.live)
    (hopen : ∀ h, t.files h = .closed → x.driver.files h = .closed) :
    MapStep CarefulStep x (k, .driver e) { x with driver := t } :=
  .driver hidle hstep (.refl hlive) fun h hclosed => .inl (hopen h hclosed)

/-- The care is needed: where only one file has selected an entry, `VMSHM_UNSELECT` and
`VMSHM_REMOVE` give back the pages, and every region of them stays. -/
theorem mapping_outlives (hx : MapInv x) {h : Filp} (hmmaps : ∀ k, x.mmaps k = none)
    (hcalls : ∀ k, x.driver.calls k = .idle) (hsel : x.driver.selected h = some a)
    (hone : (x.driver.reg.mem a).refcnt = 1) (hname : (x.driver.reg.mem a).name.bytes ≠ []) :
    ∃ tr y, Run (MapStep CarefulStep) x tr y ∧ y.ptes = x.ptes ∧ y.frames = x.frames ∧
      a ∉ y.driver.reg.live := by
  obtain ⟨hlist, hlive⟩ := hx.live hsel
  have hmid : ∀ k, (x.driver.calls k).midway ≠ some h := fun k => by
    rw [hcalls k]
    exact nofun
  have hfile := (hx.inv.settled.selection h hmid a).1 hsel
  have hrefs : Referenced (vmshmUnselect x.driver.reg a) (Function.update x.driver.selected h none) :=
    hx.inv.kept.toReferenced.unselect hsel
  have hlist' : a ∈ (vmshmUnselect x.driver.reg a).list := hlist
  have hzero : ((vmshmUnselect x.driver.reg a).mem a).refcnt = 0 := by
    rw [vmshmUnselect, addRefcnt_self, hone]
    rfl
  have hname' : ((vmshmUnselect x.driver.reg a).mem a).name = (x.driver.reg.mem a).name :=
    addRefcnt_name (-1) a
  have hlookup := hrefs.lookup_of_mem hlist'
  rw [hname'] at hlookup
  have hcalm : ∀ {t : Driver}, t.calls 0 = .idle → ∀ e, t.Careful (0, e) := fun ht e => by
    rw [Driver.Careful, ht]
    trivial
  have hrun : Run (MapStep CarefulStep) x [] x := Run.nil
  -- `VMSHM_UNSELECT`
  have hrun := hrun.snoc (.calm (hmmaps 0) ⟨@Step.ioctlEntered _ 0 h (some a) .unselect _ (hcalls 0)
    hfile rfl, hcalm (hcalls 0) _⟩ (fun _ hb => hb) fun _ hclosed => hclosed)
  have hrun := hrun.snoc (.calm (hmmaps 0) ⟨@Step.vmshmUnselect _ 0 h a rfl, hfile, fun l hl => by
      simp only [Driver.goto, Function.update_of_ne hl, hcalls l]
      exact nofun⟩ (fun _ hb => hb) fun _ hclosed => hclosed)
  have hrun := hrun.snoc (.calm (hmmaps 0) ⟨@Step.clear _ 0 h rfl, trivial⟩ (fun _ hb => hb)
    fun _ => update_opened)
  -- `VMSHM_REMOVE`
  have hrun := hrun.snoc (.calm (hmmaps 0) ⟨@Step.ioctlEntered _ 0 h none
    (.remove (some (x.driver.reg.mem a).name)) _ rfl (Function.update_self ..) (if_neg hname), trivial⟩
    (fun _ hb => hb) fun _ hclosed => hclosed)
  have hrun := hrun.snoc (.calm (hmmaps 0) ⟨@Step.removeFound _ 0 (x.driver.reg.mem a).name
    (vmshmUnselect x.driver.reg a) a rfl hlookup, trivial⟩ (fun _ hb => hb) fun _ hclosed => hclosed)
  have hrun := hrun.snoc (.calm (hmmaps 0) ⟨@Step.vmshmRemove _ 0 a
    (remove (vmshmUnselect x.driver.reg a) a) none rfl (vmshmRemove_of_zero hlive hzero), hlist'⟩
    (Finset.erase_subset a _) fun _ hclosed => hclosed)
  exact ⟨_, _, hrun, rfl, rfl, Finset.notMem_erase a _⟩

end Vmshm

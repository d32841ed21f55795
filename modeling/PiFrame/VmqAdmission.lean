import PiFrame.BuddyCoalescing
import PiFrame.VmqDriver

/-!
# Which requests can be answered at all

`vmq_getbuf` lets every request through that is not longer than the memory of
the queue, and `get_buffer_item` then waits until `ba_alloc` succeeds.  The
allocator rounds the request up to a power of two of pages and has no block
larger than the highest binary digit of its page count, so on an empty queue
it answers exactly the requests whose rounded page count is at most the number
of pages.  For the others the wait never ends.
-/

namespace Vmq

open AlignedTiling BuddyAllocator Transition

variable {size pageSize : Nat} {m : Memory} {ba : Allocator} {s : BaState} {tr : List BaOp}

/-- With nothing allocated there is a block of order `r` exactly when there
are `2 ^ r` pages. -/
theorem fits_of_empty (hsize : size < 2 ^ 31) (hpage : 0 < pageSize) (hpage' : pageSize < 2 ^ 31)
    (hdvd : 128 ∣ pageSize) (hpast : (m (size / pageSize)).allocated = true)
    (hcreate : baCreate m size pageSize = some ba) (hrun : Run BaStep ⟨ba, []⟩ tr s)
    (hempty : s.outstanding = []) (r : Nat) :
    (∃ c ∈ baBlocks s.ba, Fits r c) ↔ 2 ^ r ≤ size / pageSize := by
  rw [partition_of_empty hsize hpage hpage' hdvd hpast hcreate hrun hempty, digitBlocks_fits_iff]
  have hlt : size / pageSize < 2 ^ 32 :=
    ((Nat.div_le_self _ _).trans_lt hsize).trans (by decide)
  rw [Nat.mod_eq_of_lt hlt]

/-- What `ba_alloc` does on an allocator with nothing allocated. -/
theorem baAlloc_of_empty (hsize : size < 2 ^ 31) (hpage : 0 < pageSize)
    (hpage' : pageSize < 2 ^ 31) (hdvd : 128 ∣ pageSize)
    (hpast : (m (size / pageSize)).allocated = true)
    (hcreate : baCreate m size pageSize = some ba) (hrun : Run BaStep ⟨ba, []⟩ tr s)
    (hempty : s.outstanding = []) {len : Nat} (hpos : 1 ≤ len) (hlen : len ≤ size) :
    (2 ^ Nat.clog 2 (pagesOf len pageSize) ≤ size / pageSize ∧
      ∃ ba' index, baAlloc s.ba len = some (ba', some index)) ∨
    (¬ 2 ^ Nat.clog 2 (pagesOf len pageSize) ≤ size / pageSize ∧
      baAlloc s.ba len = some (s.ba, none)) := by
  obtain ⟨bs, hinv⟩ := BaInv.run hsize hpage hpage' hdvd hpast hcreate hrun
  have hle : len ≤ s.ba.size := hinv.size_eq ▸ hlen
  have hfits := fits_of_empty hsize hpage hpage' hdvd hpast hcreate hrun hempty
    (Nat.clog 2 (pagesOf len pageSize))
  have hspec := baAlloc_spec hinv.holds hpos hle
  rw [hinv.holds.baOrder_eq_clog hpos hle, hinv.page_eq] at hspec
  rw [hinv.holds.baBlocks] at hfits
  rcases hspec with ⟨hmiss, hnone⟩ | ⟨m', left, b, right, hhit, rfl, hbest, -⟩
  · right
    refine ⟨fun hroom => ?_, hmiss⟩
    obtain ⟨c, hc, hfit⟩ := hfits.mpr hroom
    exact hnone c hc hfit
  · left
    obtain ⟨-, -, -, hfit, -⟩ := hbest
    exact ⟨hfits.mp ⟨b, by simp, hfit⟩, _, _, hhit⟩

/-! ## A producer alone -/

/-- The size of a producer that is after its test of the item count and has no
page yet. -/
def File.pageWanted : File → Option Nat
  | .producing (.allocPage size) => some size
  | .producing (.countFull size) => some size
  | .producing (.waitPage size _) => some size
  | _ => none

theorem pageWanted_wake (f : File) :
    f.wakeProducer.wakeConsumer.pageWanted = f.pageWanted := by
  cases f with
  | producing call => cases call <;> rfl
  | consuming items call => cases call <;> rfl
  | _ => rfl

/-- A step of task `h` other than the end of its wait by a signal. -/
def OwnStep (h : Filp) (d : Driver) (e : Filp × Event) (d' : Driver) : Prop :=
  Step d e d' ∧ e.1 = h ∧ e.2 ≠ .ret (some .erestartsys)

variable {d d' : Driver} {h : Filp} {n : Nat} {e : Filp × Event} {evs : List (Filp × Event)}

theorem put_files (d : Driver) (h : Filp) (f : File) : (d.put h f).files h = f :=
  Function.update_self ..

/-- While the allocator has no block for it, nothing the producer does gets it
out of its wait. -/
theorem OwnStep.pageWanted (hstep : OwnStep h d e d')
    (hmiss : baAlloc d.mgr.ba n = some (d.mgr.ba, none))
    (hfile : (d.files h).pageWanted = some n) :
    d'.mgr.ba = d.mgr.ba ∧ (d'.files h).pageWanted = some n := by
  obtain ⟨hstep, rfl, hsignal⟩ := hstep
  cases hstep with
  | roused => exact ⟨rfl, by rw [put_files, pageWanted_wake, hfile]⟩
  | pageFound at_file alloc =>
      -- the wait is for `n` bytes, and there is no block for them
      rcases at_file with at_file | at_file <;> rw [at_file] at hfile <;>
        obtain rfl := Option.some.inj hfile <;> cases hmiss.symm.trans alloc
  | pageMissing at_file alloc =>
      rw [at_file] at hfile
      obtain rfl := Option.some.inj hfile
      cases hmiss.symm.trans alloc
      exact ⟨rfl, by rw [put_files, File.pageWanted]⟩
  | countFull at_file unlocked =>
      rw [at_file] at hfile
      exact ⟨rfl, by rw [put_files, ← hfile]; rfl⟩
  | pageStillMissing at_file alloc =>
      rw [at_file] at hfile
      obtain rfl := Option.some.inj hfile
      cases hmiss.symm.trans alloc
      exact ⟨rfl, by rw [put_files, File.pageWanted]⟩
  | pageInterrupted at_file => exact absurd rfl hsignal
  | take at_file =>
      rcases at_file with at_file | at_file <;> rw [at_file] at hfile <;> cases hfile
  | _ =>
      rename_i at_file
      simp_all [File.pageWanted]

/-- A call whose request cannot be met waits as long as it is alone and no signal comes. -/
theorem waits_forever (hmiss : baAlloc d.mgr.ba n = some (d.mgr.ba, none))
    (hfile : (d.files h).pageWanted = some n) (hrun : Run (OwnStep h) d evs d') :
    (d'.files h).pageWanted = some n := by
  have hboth := hrun.invariant
    (fun t => t.mgr.ba = d.mgr.ba ∧ (t.files h).pageWanted = some n) ⟨rfl, hfile⟩ (by
      intro t e u hinv hstep
      obtain ⟨hba, hwants⟩ := hinv
      obtain ⟨hba', hwants'⟩ := hstep.pageWanted (by rw [hba]; exact hmiss) hwants
      exact ⟨hba'.trans hba, hwants'⟩)
  exact hboth.2

/-- **Which requests are answered.**  Let a request of `n` bytes be let in by
`vmq_getbuf`, and let nothing be allocated.  `ba_alloc` returns a block if
and only if the pages of the request, rounded up to a power of two, are at
most the pages of the queue.  So it is with the producer that made the
request, alone and not interrupted: it gets its page under that condition,
and without it waits for ever. -/
theorem admitted_request (hsize : size < 2 ^ 31) (hpage : 0 < pageSize)
    (hpage' : pageSize < 2 ^ 31) (hdvd : 128 ∣ pageSize)
    (hpast : (m (size / pageSize)).allocated = true)
    (hcreate : baCreate m size pageSize = some ba) (hrun : Run BaStep ⟨ba, []⟩ tr s)
    (hempty : s.outstanding = []) (hpos : 1 ≤ n) (hlen : n ≤ size)
    (hba : d.mgr.ba = s.ba) (hfile : d.files h = .producing (.allocPage n)) :
    ((∃ ba' index, baAlloc s.ba n = some (ba', some index)) ↔
      2 ^ Nat.clog 2 (pagesOf n pageSize) ≤ size / pageSize) ∧
    ((∃ evs d' page, Run (OwnStep h) d evs d' ∧ d'.files h = .producing (.newItem n page)) ↔
      2 ^ Nat.clog 2 (pagesOf n pageSize) ≤ size / pageSize) ∧
    ((∀ evs d', Run (OwnStep h) d evs d' → (d'.files h).pageWanted = some n) ↔
      ¬ 2 ^ Nat.clog 2 (pagesOf n pageSize) ≤ size / pageSize) := by
  have hwants : (d.files h).pageWanted = some n := by rw [hfile]; rfl
  rcases baAlloc_of_empty hsize hpage hpage' hdvd hpast hcreate hrun hempty hpos hlen with
    ⟨hroom, ba', index, hhit⟩ | ⟨hroom, hmiss⟩
  · have hfound : Step d (h, .run) ({ d with mgr := { d.mgr with ba := ba' } }.put h
        (.producing (.newItem n index))) :=
      Step.pageFound (Or.inl hfile) (by rw [hba]; exact hhit)
    have hown : Run (OwnStep h) d [(h, .run)] _ := Run.single ⟨hfound, rfl, fun h => by cases h⟩
    refine ⟨iff_of_true ⟨ba', index, hhit⟩ hroom,
      iff_of_true ⟨_, _, index, hown, put_files ..⟩ hroom, iff_of_false ?_ (not_not_intro hroom)⟩
    intro hforever
    have hstill := hforever _ _ hown
    rw [put_files] at hstill
    cases hstill
  · have hmiss' : baAlloc d.mgr.ba n = some (d.mgr.ba, none) := by rw [hba]; exact hmiss
    refine ⟨iff_of_false ?_ hroom, iff_of_false ?_ hroom,
      iff_of_true (fun evs d' hown => waits_forever hmiss' hwants hown) hroom⟩
    · intro h
      obtain ⟨ba', index, hhit⟩ := h
      cases hmiss.symm.trans hhit
    · intro h
      obtain ⟨evs, d', page, hown, hat⟩ := h
      have hstill := waits_forever hmiss' hwants hown
      rw [hat] at hstill
      cases hstill

/-- A queue of three pages as its driver sees it, a producer asking for `n`
bytes. -/
def threePages (ba : Allocator) (n : Nat) : Driver where
  mgr := {
    size := 384
    pageSize := 128
    ba
    refcnt := 1
    mutex := none
    consumers := []
    producers := [0]
    bufItemCount := 0
    bufItemAllocCount := 0
    bufItemRemoveCount := 0
    bufFullCount := 0
    maxItemCount := 0 }
  files := Function.update (fun _ => .idle none) 0 (.producing (.allocPage n))
  mem := fun _ => ⟨0, 0, 0⟩
  live := ∅
  fault := false

/-- The theorem on a queue of three pages: a request of 256 bytes gets two of them. -/
theorem admitted_request_two_pages : ∃ ba, baCreate (fun _ => ⟨true, 0⟩) 384 128 = some ba ∧
    ∃ evs d' page, Run (OwnStep 0) (threePages ba 256) evs d' ∧
      d'.files 0 = .producing (.newItem 256 page) := by
  let ba := (baCreate (fun _ => ⟨true, 0⟩) 384 128).get (by decide)
  have hcreate : baCreate (fun _ => ⟨true, 0⟩) 384 128 = some ba := (Option.some_get _).symm
  have hnil : Run BaStep ⟨ba, []⟩ [] ⟨ba, []⟩ := Run.nil
  have hpos : 1 ≤ 256 := by decide
  have hfile : (threePages ba 256).files 0 = .producing (.allocPage 256) := by simp [threePages]
  obtain ⟨-, hfound, -⟩ := admitted_request (by decide) (by decide) (by decide) (by decide) rfl
    hcreate hnil rfl hpos (by decide) rfl hfile
  exact ⟨ba, hcreate, hfound.mpr (by decide +kernel)⟩

/-- The whole memory is asked for, three pages: no block of four exists, and
the producer waits for ever. -/
theorem whole_memory_never_found : ∃ ba, baCreate (fun _ => ⟨true, 0⟩) 384 128 = some ba ∧
    baAlloc ba 384 = some (ba, none) ∧
    ∀ evs d', Run (OwnStep 0) (threePages ba 384) evs d' →
      (d'.files 0).pageWanted = some 384 := by
  let ba := (baCreate (fun _ => ⟨true, 0⟩) 384 128).get (by decide)
  have hcreate : baCreate (fun _ => ⟨true, 0⟩) 384 128 = some ba := (Option.some_get _).symm
  have hnil : Run BaStep ⟨ba, []⟩ [] ⟨ba, []⟩ := Run.nil
  have hpos : 1 ≤ 384 := by decide
  rcases baAlloc_of_empty (by decide) (by decide) (by decide) (by decide) rfl hcreate hnil rfl
    hpos (by decide) with ⟨hroom, -⟩ | ⟨-, hmiss⟩
  · exact absurd hroom (by decide +kernel)
  · refine ⟨ba, hcreate, hmiss, fun evs d' hown => waits_forever hmiss ?_ hown⟩
    simp [threePages, File.pageWanted]

end Vmq

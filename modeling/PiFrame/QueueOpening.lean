import PiFrame.ProcListing
import PiFrame.QueueUsers
import PiFrame.VmqManagers
import PiFrame.VmshmMappings

/-!
# Opening a queue

`VMQueueOpen` of the library takes memory, opens the device, looks the size of the queue up in
`/proc/vmshm`, sets the file up, and maps the queue.  Each of these may be refused, and a ladder
of labels gives back what there is so far.  `VMQueueClose` gives everything back.

The size comes from one driver, which knows all shared memories, and the queue from the other.
-/

namespace QueueOpening

open Headcount LinkedEntries Transition
open ByteText (Solid)
open ProcListing (getQueueSize nameText vmshmProcShow)
open QueueRegistries (AllStored Mgr Registries Result lookupBufferManager)
open VmqManagers (VMQContext setupType)
open Vmshm (Addr Errno Frame Name VmArea pageSize vmshmMaxNameLength vmshmRemap)

/-- An open file of `/dev/vmq`. -/
abbrev Fd := Nat

/-- The address of a `struct VMQueue`. -/
abbrev Ptr := Nat

/-- `struct VMQueue` without its lock. -/
structure VMQueue where
  fd : Fd
  size : Int
  base : Nat
  deriving DecidableEq

/-- A mapped region. -/
structure Region where
  base : Nat
  file : Fd
  pages : Nat
  deriving DecidableEq

/-- Both drivers, the open files of `/dev/vmq` with their contexts, the lists `producers` and
`consumers` of the managers, what is mapped, and the heap of the library. -/
@[ext] structure System where
  registries : Registries
  contexts : Fd → Option (Option VMQContext)
  members : VMQContext → List Fd
  regions : List Region
  queues : Ptr → Option VMQueue

/-- `atomic_add(i, &mgr->refcnt)`. -/
def addRefcnt (r : Registries) (m : Mgr) (i : Int) : Registries :=
  r.withManagers (r.managers.modify m fun mgr => { mgr with refcnt := mgr.refcnt + i })

namespace System

/-- The memory of a manager. -/
def memory (s : System) (m : Mgr) : Vmshm.VMSharedMemory :=
  s.registries.reg.mem (s.registries.managers.mem m).mem

/-- `malloc`; nobody reads what is in it. -/
def malloc (s : System) (q : Ptr) : System :=
  { s with queues := Function.update s.queues q (some ⟨0, 0, 0⟩) }

def free (s : System) (q : Ptr) : System :=
  { s with queues := Function.update s.queues q none }

/-- `vmq_open`. -/
def vmqOpen (s : System) (fd : Fd) : System :=
  { s with contexts := Function.update s.contexts fd (some none) }

/-- `vmq_setup`, once the context is there. -/
def join (s : System) (fd : Fd) (ctxt : VMQContext) : System :=
  { s with
    registries := addRefcnt s.registries ctxt.mgr 1
    members := Function.update s.members ctxt (s.members ctxt ++ [fd])
    contexts := Function.update s.contexts fd (some (some ctxt)) }

/-- `vmq_setup`; `memory` tells whether there is any for the context. -/
def vmqSetup (s : System) (fd : Fd) (name : Name) (type : Int) (memory : Bool) :
    System × Result :=
  match s.contexts fd with
  | some (some _) => (s, .error .einval)
  | _ =>
      if name.bytes = [] then (s, .error .einval)
      else
        match lookupBufferManager s.registries name with
        | (r, none) => ({ s with registries := r }, .error .einval)
        | (r, some m) =>
            let s := { s with registries := r }
            if memory = false then (s, .error .enomem)
            else
              match setupType type with
              | none => (s, .error .einval)
              | some type => (s.join fd ⟨type, m⟩, .ok 0)

/-- `vmq_release`. -/
def vmqRelease (s : System) (fd : Fd) : System :=
  match s.contexts fd with
  | some (some ctxt) =>
      { s with
        registries := addRefcnt s.registries ctxt.mgr (-1)
        members := Function.update s.members ctxt ((s.members ctxt).erase fd)
        contexts := Function.update s.contexts fd none }
  | _ => { s with contexts := Function.update s.contexts fd none }

/-- `close`: the file is released unless something of it is mapped. -/
def close (s : System) (fd : Fd) : System :=
  if s.regions.any fun region => region.file = fd then s else s.vmqRelease fd

/-- `munmap` of a whole region. -/
def munmap (s : System) (base : Nat) : System :=
  { s with regions := s.regions.filter fun region => region.base ≠ base }

end System

/-! ## The library -/

/-- What a call of `VMQueueOpen` is given: a block, a file, memory for the context, a place for
the mapping.  `none` is a refusal.  The driver maps the pages `frames`, and fails at some. -/
structure Grants where
  block : Option Ptr
  file : Option Fd
  memory : Bool
  place : Option Nat
  frames : List Frame
  fails : Nat → Bool

/-- The pages that `mmap` is asked for. -/
def pagesOf (size : Int) : Nat := (size.toNat + pageSize - 1) / pageSize

/-- `mmap` of a whole file, with the answer of `vmq_mmap`. -/
def mmap (s : System) (g : Grants) (fd : Fd) (size : Int) : Option Region :=
  match g.place, s.contexts fd with
  | some base, some (some ctxt) =>
      if pagesOf size = 0 then none
      else
        match vmshmRemap (s.memory ctxt.mgr) g.frames g.fails ⟨0, base, pagesOf size, 0⟩ with
        | .error _ => none
        | .ok _ => some ⟨base, fd, pagesOf size⟩
  | _, _ => none

def vmqModeProducer : Int := 1

def vmqTypeProducer : Int := 0
def vmqTypeConsumer : Int := 1

/-- The lines of `/proc/vmshm`. -/
def System.listing (s : System) : Text :=
  vmshmProcShow (s.registries.reg.list.map s.registries.reg.mem)

/-- The string that the library is given, as text. -/
def textOf (name : List UInt8) : Text := name.map fun b => Char.ofNat b.toNat

/-- From `err2` on; `err3` and `err4` fall through to it. -/
def err2 (s : System) (q : Ptr) (fd : Fd) : System × Option Ptr :=
  ((s.close fd).free q, none)

/-- `VMQueueOpen`.  `none` is a word of `/proc/vmshm` that does not fit into `buf`, or a name
that does not fit into `name` of the driver: nothing can be said about what happens then. -/
def vmQueueOpen (s : System) (g : Grants) (name : List UInt8) (mode : Int) :
    Option (System × Option Ptr) :=
  match g.block with
  | none => some (s, none)
  | some q =>
      let s := s.malloc q
      match g.file with
      | none => some (s.free q, none)
      | some fd =>
          let s := s.vmqOpen fd
          match getQueueSize (textOf name) s.listing with
          | none => none
          | some size =>
              if size < 0 then some (err2 s q fd)
              else if hshort : name.length < vmshmMaxNameLength then
                let type := if mode = vmqModeProducer then vmqTypeProducer
                  else vmqTypeConsumer
                match s.vmqSetup fd ⟨name, hshort⟩ type g.memory with
                | (s, .error _) => some (err2 s q fd)
                | (s, .ok _) =>
                    match mmap s g fd size with
                    | none => some (err2 s q fd)
                    | some region =>
                        some ({ s with
                          regions := region :: s.regions
                          queues := Function.update s.queues q (some ⟨fd, size, region.base⟩) },
                          some q)
              else none

/-- `VMQueueClose`. -/
def vmQueueClose (s : System) (q : Ptr) : System :=
  match s.queues q with
  | none => s
  | some queue => ((s.munmap queue.base).close queue.fd).free q

/-! ## Runs -/

inductive Op
  | registries (op : QueueRegistries.Op)
  | vmQueueOpen (name : List UInt8) (mode : Int)
  | vmQueueClose (q : Ptr)

/-- What is handed out is not in use. -/
structure Grants.Fresh (g : Grants) (s : System) : Prop where
  block : ∀ q, g.block = some q → s.queues q = none
  file : ∀ fd, g.file = some fd → s.contexts fd = none
  place : ∀ base, g.place = some base → ∀ region ∈ s.regions, region.base ≠ base

/-- One complete operation, by any process. -/
inductive Step : System → Op → System → Prop
  | registries {s : System} {op : QueueRegistries.Op} {result : Result} {r : Registries}
      (step : QueueRegistries.Step s.registries (op, result) r) :
      Step s (.registries op) { s with registries := r }
  | vmQueueOpen {s t : System} {g : Grants} {name : List UInt8} {mode : Int} {q : Option Ptr}
      (fresh : g.Fresh s) (outcome : vmQueueOpen s g name mode = some (t, q)) :
      Step s (.vmQueueOpen name mode) t
  | vmQueueClose {s : System} {q : Ptr} (opened : s.queues q ≠ none) :
      Step s (.vmQueueClose q) (vmQueueClose s q)

/-- Both drivers are loaded, and no queue is there. -/
def init (mem : Addr → Vmshm.VMSharedMemory) (mgr : Mgr → QueueRegistries.VMQBufferManager) :
    System where
  registries := QueueRegistries.init mem mgr
  contexts := fun _ => none
  members := fun _ => []
  regions := []
  queues := fun _ => none

/-! ## Giving back -/

variable {s t : System} {g : Grants} {q : Ptr} {fd : Fd} {m : Mgr} {ctxt : VMQContext}
  {name : List UInt8} {mode : Int}

/-- What was written is taken back. -/
theorem update_back {α β : Type} [DecidableEq α] {f : α → β} {a : α} {v w : β} (h : f a = w) :
    Function.update (Function.update f a v) a w = f := by
  rw [Function.update_idem, ← h, Function.update_eq_self]

/-- Who joined last and leaves again leaves the list as it was. -/
theorem erase_joined {fds : List Fd} (h : fd ∉ fds) : (fds ++ [fd]).erase fd = fds := by
  rw [List.erase_append_right _ h, List.erase_cons_head, List.append_nil]

/-- The `VMQueue` that is freed again was free before. -/
theorem free_malloc (hq : s.queues q = none) : (s.malloc q).free q = s :=
  System.ext rfl rfl rfl rfl (update_back hq)

/-- Nothing of the file is mapped. -/
theorem close_eq (hnone : ∀ region ∈ s.regions, region.file ≠ fd) :
    s.close fd = s.vmqRelease fd := by
  rw [System.close, if_neg]
  intro hany
  obtain ⟨region, hregion, hfile⟩ := List.any_eq_true.mp hany
  exact hnone region hregion (of_decide_eq_true hfile)

/-- A file that is closed before it has a context leaves nothing behind. -/
theorem close_vmqOpen (hfd : s.contexts fd = none)
    (hnone : ∀ region ∈ s.regions, region.file ≠ fd) : (s.vmqOpen fd).close fd = s := by
  have hset : (s.vmqOpen fd).contexts fd = some none := Function.update_self ..
  rw [close_eq (s := s.vmqOpen fd) hnone, System.vmqRelease, hset]
  exact System.ext rfl (update_back hfd) rfl rfl rfl

/-- Counting a manager up and down again is counting nothing. -/
theorem addRefcnt_back {r : Registries} (hm : m ∈ r.managers.live) :
    addRefcnt (addRefcnt r m 1) m (-1) = r := by
  have hback : (r.managers.modify m fun mgr => { mgr with refcnt := mgr.refcnt + 1 }).modify m
      (fun mgr => { mgr with refcnt := mgr.refcnt + -1 }) = r.managers := by
    rw [Entries.modify_modify hm]
    refine Entries.modify_eq_self hm ?_
    dsimp only
    rw [Int.add_neg_cancel_right]
  exact congrArg r.withManagers hback

/-- A file that is closed right after its set-up leaves the queue as it was. -/
theorem close_join (hfd : s.contexts fd = none)
    (hnone : ∀ region ∈ s.regions, region.file ≠ fd)
    (hm : ctxt.mgr ∈ s.registries.managers.live) (hout : fd ∉ s.members ctxt) :
    ((s.vmqOpen fd).join fd ctxt).close fd = s := by
  have hset : ((s.vmqOpen fd).join fd ctxt).contexts fd = some (some ctxt) :=
    Function.update_self ..
  have hcontexts : Function.update (Function.update (Function.update s.contexts fd (some none)) fd
      (some (some ctxt))) fd none = s.contexts := by
    rw [Function.update_idem]
    exact update_back hfd
  have hmembers : Function.update (Function.update s.members ctxt (s.members ctxt ++ [fd])) ctxt
      ((Function.update s.members ctxt (s.members ctxt ++ [fd]) ctxt).erase fd) = s.members := by
    rw [Function.update_self, erase_joined hout]
    exact update_back rfl
  rw [close_eq (s := (s.vmqOpen fd).join fd ctxt) hnone, System.vmqRelease, hset]
  exact System.ext (addRefcnt_back hm) hcontexts hmembers rfl rfl

/-! ## What is kept -/

/-- The managers have counted the files that have them, and know them. -/
structure Counted (r : Registries) (contexts : Fd → Option (Option VMQContext))
    (members : VMQContext → List Fd) : Prop where
  registries : QueueRegistries.Inv r.unused
  stored : AllStored r.reg
  counted : ∀ m ∈ r.managers.list,
    Count (fun fd => ∃ type, contexts fd = some (some ⟨type, m⟩)) (r.managers.mem m).refcnt
  listed : ∀ fd ctxt, contexts fd = some (some ctxt) → ctxt.mgr ∈ r.managers.list
  known : ∀ ctxt, ∀ fd ∈ members ctxt, contexts fd = some (some ctxt)
  nodup : ∀ ctxt, (members ctxt).Nodup

/-- Every open file belongs to one `struct VMQueue`, and so does what is mapped. -/
structure Held (contexts : Fd → Option (Option VMQContext)) (regions : List Region)
    (queues : Ptr → Option VMQueue) : Prop where
  mapped : ∀ region ∈ regions, ∃ q queue, queues q = some queue ∧
    queue.fd = region.file ∧ queue.base = region.base
  opened : ∀ q queue, queues q = some queue → ∃ ctxt, contexts queue.fd = some (some ctxt)
  owned : ∀ fd, contexts fd ≠ none → ∃ q queue, queues q = some queue ∧ queue.fd = fd
  apart : ∀ q q' queue queue', queues q = some queue → queues q' = some queue' →
    queue.fd = queue'.fd → q = q'

structure Inv (s : System) : Prop where
  drivers : Counted s.registries s.contexts s.members
  files : Held s.contexts s.regions s.queues

/-- Of a file that is not open nothing is mapped. -/
theorem Inv.unmapped (hinv : Inv s) (hfd : s.contexts fd = none) :
    ∀ region ∈ s.regions, region.file ≠ fd := by
  rintro region hregion rfl
  obtain ⟨q, queue, hqueue, hfile, -⟩ := hinv.files.mapped region hregion
  obtain ⟨ctxt, hctxt⟩ := hinv.files.opened q queue hqueue
  rw [hfile, hfd] at hctxt
  cases hctxt

/-- A file that is not open has no place in a list. -/
theorem Inv.not_member (hinv : Inv s) (hfd : s.contexts fd = none) : fd ∉ s.members ctxt := by
  intro hmem
  rw [hinv.drivers.known ctxt fd hmem] at hfd
  cases hfd

theorem Inv.live (hinv : Inv s) (hm : m ∈ s.registries.managers.list) :
    m ∈ s.registries.managers.live :=
  hinv.drivers.registries.owned.live m hm

/-! ## The rungs -/

/-- `vmq_setup` joins a queue of that name on the side of its type, or changes nothing. -/
theorem vmqSetup_cases (hregs : QueueRegistries.Inv s.registries.unused)
    (hfd : s.contexts fd = some none) {name : Name} {type : Int} {memory : Bool} {result : Result}
    (hsetup : s.vmqSetup fd name type memory = (t, result)) :
    t = s ∧ (∃ e, result = .error e) ∨
      result = .ok 0 ∧ memory = true ∧ ∃ vmqType, setupType type = some vmqType ∧
        ∃ m ∈ s.registries.managers.list,
          (s.memory m).name = name ∧ t = s.join fd ⟨vmqType, m⟩ := by
  rw [System.vmqSetup, hfd] at hsetup
  dsimp only at hsetup
  rw [hregs.lookup_used] at hsetup
  split at hsetup
  · cases hsetup
    exact .inl ⟨rfl, _, rfl⟩
  · cases hfind : s.registries.managers.list.find? fun m =>
        (s.registries.reg.mem (s.registries.managers.mem m).mem).name = name with
    | none =>
        rw [hfind] at hsetup
        cases hsetup
        exact .inl ⟨rfl, _, rfl⟩
    | some m =>
        rw [hfind] at hsetup
        dsimp only at hsetup
        split at hsetup
        · cases hsetup
          exact .inl ⟨rfl, _, rfl⟩
        · next hmemory =>
          cases htype : setupType type with
          | none =>
              rw [htype] at hsetup
              cases hsetup
              exact .inl ⟨rfl, _, rfl⟩
          | some vmqType =>
              rw [htype] at hsetup
              cases hsetup
              have hname := List.find?_some hfind
              exact .inr ⟨rfl, Bool.eq_true_of_not_eq_false hmemory, vmqType, rfl, m,
                List.mem_of_find?_eq_some hfind, of_decide_eq_true hname, rfl⟩

/-- What `VMQueueOpen` leaves when it succeeds. -/
def afterOpen (s : System) (q : Ptr) (fd : Fd) (ctxt : VMQContext) (base : Nat) (size : Int) :
    System :=
  { ((s.malloc q).vmqOpen fd).join fd ctxt with
    regions := ⟨base, fd, pagesOf size⟩ :: s.regions
    queues := Function.update s.queues q (some ⟨fd, size, base⟩) }

/-- What a successful call has been given, and which queue it has found. -/
structure Opens (s : System) (g : Grants) (name : List UInt8) (mode : Int) (q : Ptr)
    (t : System) (fd : Fd) (ctxt : VMQContext) (base : Nat) (size : Int) : Prop where
  block : g.block = some q
  file : g.file = some fd
  memory : g.memory = true
  place : g.place = some base
  listed : ctxt.mgr ∈ s.registries.managers.list
  named : (s.memory ctxt.mgr).name.bytes = name
  type : ctxt.type = if mode = vmqModeProducer then .producer else .consumer
  found : getQueueSize (textOf name) s.listing = some size
  nonneg : 0 ≤ size
  remapped : ∃ mapped, vmshmRemap (s.memory ctxt.mgr) g.frames g.fails
    ⟨0, base, pagesOf size, 0⟩ = .ok mapped
  result : t = afterOpen s q fd ctxt base size

/-- The count does not change which memory a manager has. -/
theorem memory_join (s : System) (fd : Fd) (ctxt : VMQContext) (m : Mgr) :
    (s.join fd ctxt).memory m = s.memory m :=
  congrArg s.registries.reg.mem (Entries.modify_read (g := QueueRegistries.VMQBufferManager.mem)
    (f := fun mgr => { mgr with refcnt := mgr.refcnt + 1 }) (fun _ => rfl) m)

/-- A `mmap` that succeeds maps the pages of the queue's memory at a free place. -/
theorem mmap_some {size : Int} {region : Region} (hfd : s.contexts fd = some (some ctxt))
    (hmmap : mmap s g fd size = some region) :
    g.place = some region.base ∧ region.file = fd ∧ region.pages = pagesOf size ∧
      ∃ mapped, vmshmRemap (s.memory ctxt.mgr) g.frames g.fails
        ⟨0, region.base, pagesOf size, 0⟩ = .ok mapped := by
  rw [mmap, hfd] at hmmap
  cases hplace : g.place with
  | none =>
      rw [hplace] at hmmap
      cases hmmap
  | some base =>
      rw [hplace] at hmmap
      dsimp only at hmmap
      split at hmmap
      · cases hmmap
      · split at hmmap
        · cases hmmap
        · next mapped hremap =>
          cases hmmap
          exact ⟨rfl, rfl, rfl, mapped, hremap⟩

/-- The type that `VMQ_SETUP` makes of the mode is that of the mode. -/
theorem setupType_mode {vmqType : Vmq.VMQType}
    (htype : setupType (if mode = vmqModeProducer then vmqTypeProducer
      else vmqTypeConsumer) = some vmqType) :
    vmqType = if mode = vmqModeProducer then .producer else .consumer := by
  split at htype <;> cases htype
  · next hmode => rw [if_pos hmode]
  · next hmode => rw [if_neg hmode]

/-- **The ladder.**  A call gives everything back, or has opened a queue of that name.  Every
refusal jumps to the label that undoes what was done so far. -/
theorem vmQueueOpen_cases (hinv : Inv s) (hfresh : g.Fresh s) {result : Option Ptr}
    (h : vmQueueOpen s g name mode = some (t, result)) :
    result = none ∧ t = s ∨
      ∃ q fd ctxt base size, result = some q ∧ Opens s g name mode q t fd ctxt base size := by
  rw [vmQueueOpen] at h
  cases hblock : g.block with
  | none =>
      rw [hblock] at h
      cases h
      exact .inl ⟨rfl, rfl⟩
  | some q =>
      have hq := hfresh.block q hblock
      rw [hblock] at h
      dsimp only at h
      cases hfile : g.file with
      | none =>
          rw [hfile] at h
          cases h
          exact .inl ⟨rfl, free_malloc hq⟩
      | some fd =>
          have hfd := hfresh.file fd hfile
          have hback : err2 ((s.malloc q).vmqOpen fd) q fd = (s, none) := by
            rw [err2, close_vmqOpen (s := s.malloc q) hfd (hinv.unmapped hfd), free_malloc hq]
          rw [hfile] at h
          dsimp only at h
          split at h
          · cases h
          · next size hsize =>
            split at h
            · rw [hback] at h
              cases h
              exact .inl ⟨rfl, rfl⟩
            · next hnonneg =>
              split at h
              swap
              · cases h
              · next hshort =>
                have hset : ((s.malloc q).vmqOpen fd).contexts fd = some none :=
                  Function.update_self ..
                cases hsetup : ((s.malloc q).vmqOpen fd).vmqSetup fd ⟨name, hshort⟩
                    (if mode = vmqModeProducer then vmqTypeProducer else vmqTypeConsumer)
                    g.memory with
                | mk u answer =>
                    rw [hsetup] at h
                    rcases vmqSetup_cases (s := (s.malloc q).vmqOpen fd) hinv.drivers.registries hset
                        hsetup
                      with ⟨rfl, e, rfl⟩ | ⟨rfl, hmemory, vmqType, htype, m, hm, hname, rfl⟩
                    · dsimp only at h
                      rw [hback] at h
                      cases h
                      exact .inl ⟨rfl, rfl⟩
                    · dsimp only at h
                      split at h
                      · have hundone : (((s.malloc q).vmqOpen fd).join fd ⟨vmqType, m⟩).close fd =
                            s.malloc q :=
                          close_join hfd (hinv.unmapped hfd) (hinv.live hm) (hinv.not_member hfd)
                        rw [err2, hundone, free_malloc hq] at h
                        cases h
                        exact .inl ⟨rfl, rfl⟩
                      · next region hmmap =>
                        obtain ⟨hplace, rfl, hpages, hremapped⟩ :=
                          mmap_some (Function.update_self ..) hmmap
                        rcases region with ⟨base, fd, pages⟩
                        obtain rfl : pages = pagesOf size := hpages
                        cases h
                        have hremap := memory_join ((s.malloc q).vmqOpen fd) fd ⟨vmqType, m⟩ m
                        refine .inr ⟨q, fd, ⟨vmqType, m⟩, base, size, rfl, hblock, hfile, hmemory,
                          hplace, hm, congrArg Name.bytes hname, ?_, hsize, Int.not_lt.mp hnonneg,
                          ?_, ?_⟩
                        · exact setupType_mode htype
                        · rwa [hremap] at hremapped
                        · exact System.ext rfl rfl rfl rfl (Function.update_idem ..)

/-! ## The files of a manager -/

variable {r : Registries} {contexts : Fd → Option (Option VMQContext)}
  {members : VMQContext → List Fd} {regions : List Region} {queues : Ptr → Option VMQueue}
  {queue : VMQueue}

/-- The count of a manager goes up by what is added to it. -/
theorem refcnt_addRefcnt (i : Int) :
    ((addRefcnt r m i).managers.mem m).refcnt = (r.managers.mem m).refcnt + i :=
  congrArg QueueRegistries.VMQBufferManager.refcnt
    (Entries.modify_mem_self (r := r.managers) fun mgr => { mgr with refcnt := mgr.refcnt + i })

theorem mem_addRefcnt_of_ne (i : Int) {m' : Mgr} (hne : m' ≠ m) :
    (addRefcnt r m i).managers.mem m' = r.managers.mem m' :=
  Entries.modify_mem_of_ne (r := r.managers) (fun mgr => { mgr with refcnt := mgr.refcnt + i }) hne

/-- A file comes to a manager or leaves it, and nothing else looks at the count. -/
theorem unused_addRefcnt (hm : m ∈ r.managers.live) (i : Int) :
    (addRefcnt r m i).unused = r.unused :=
  congrArg r.withManagers (QueueRegistries.unusedManagers_count hm i)

theorem Counted.join (h : Counted r contexts members) (hfd : contexts fd = none)
    (hm : ctxt.mgr ∈ r.managers.list) :
    Counted (addRefcnt r ctxt.mgr 1) (Function.update contexts fd (some (some ctxt)))
      (Function.update members ctxt (members ctxt ++ [fd])) := by
  have hlive : ctxt.mgr ∈ r.managers.live := h.registries.owned.live _ hm
  have hnew : Function.update contexts fd (some (some ctxt)) fd = some (some ctxt) :=
    Function.update_self ..
  have hold : ∀ x, x ≠ fd → Function.update contexts fd (some (some ctxt)) x = contexts x :=
    fun x hx => Function.update_of_ne hx ..
  have hmember : ∀ ctxt', ∀ x ∈ members ctxt', x ≠ fd ∧ contexts x = some (some ctxt') := by
    intro ctxt' x hx
    have hset := h.known ctxt' x hx
    refine ⟨fun heq => ?_, hset⟩
    rw [heq, hfd] at hset
    cases hset
  refine ⟨(unused_addRefcnt hlive 1).symm ▸ h.registries, h.stored, fun m hm' => ?_,
    fun x ctxt' hx => ?_, fun ctxt' x hx => ?_, fun ctxt' => ?_⟩
  · by_cases heq : m = ctxt.mgr
    · subst heq
      rw [refcnt_addRefcnt]
      refine (h.counted _ hm).enter (a := fd) (fun ⟨type, hset⟩ => ?_) fun x => ?_
      · rw [hfd] at hset
        cases hset
      · by_cases hx : x = fd
        · subst hx
          exact iff_of_true ⟨ctxt.type, hnew⟩ (.inl rfl)
        · rw [hold x hx]
          exact ⟨.inr, fun hor => hor.resolve_left hx⟩
    · rw [mem_addRefcnt_of_ne 1 heq]
      refine (h.counted m hm').congr fun x => ?_
      by_cases hx : x = fd
      · subst hx
        rw [hnew, hfd]
        refine iff_of_false (fun ⟨type, hset⟩ => by cases hset) fun ⟨type, hset⟩ => ?_
        cases hset
        exact heq rfl
      · rw [hold x hx]
  · by_cases hx' : x = fd
    · subst hx'
      rw [hnew] at hx
      cases hx
      exact hm
    · exact h.listed x ctxt' (hold x hx' ▸ hx)
  · by_cases hctxt : ctxt' = ctxt
    · subst hctxt
      rw [Function.update_self] at hx
      rcases List.mem_append.mp hx with hx | hx
      · obtain ⟨hne, hset⟩ := hmember ctxt' x hx
        rw [hold x hne, hset]
      · rw [List.mem_singleton.mp hx, hnew]
    · rw [Function.update_of_ne hctxt] at hx
      obtain ⟨hne, hset⟩ := hmember ctxt' x hx
      rw [hold x hne, hset]
  · by_cases hctxt : ctxt' = ctxt
    · subst hctxt
      rw [Function.update_self]
      refine (h.nodup ctxt').append (List.nodup_singleton fd) fun x hx hx' => ?_
      exact (hmember ctxt' x hx).1 (List.mem_singleton.mp hx')
    · rw [Function.update_of_ne hctxt]
      exact h.nodup ctxt'

theorem Counted.leave (h : Counted r contexts members)
    (hfd : contexts fd = some (some ctxt)) :
    Counted (addRefcnt r ctxt.mgr (-1)) (Function.update contexts fd none)
      (Function.update members ctxt ((members ctxt).erase fd)) := by
  have hm := h.listed fd ctxt hfd
  have hlive : ctxt.mgr ∈ r.managers.live := h.registries.owned.live _ hm
  have hold : ∀ x, x ≠ fd → Function.update contexts fd none x = contexts x :=
    fun x hx => Function.update_of_ne hx ..
  have hgone : Function.update contexts fd none fd = none := Function.update_self ..
  refine ⟨(unused_addRefcnt hlive (-1)).symm ▸ h.registries, h.stored, fun m hm' => ?_,
    fun x ctxt' hx => ?_, fun ctxt' x hx => ?_, fun ctxt' => ?_⟩
  · by_cases heq : m = ctxt.mgr
    · subst heq
      rw [refcnt_addRefcnt]
      refine (h.counted _ hm).leave (a := fd) ⟨ctxt.type, hfd⟩ fun x => ?_
      by_cases hx : x = fd
      · subst hx
        rw [hgone]
        exact iff_of_false (fun ⟨type, hset⟩ => by cases hset) fun hne => hne.1 rfl
      · rw [hold x hx]
        exact (and_iff_right hx).symm
    · rw [mem_addRefcnt_of_ne (-1) heq]
      refine (h.counted m hm').congr fun x => ?_
      by_cases hx : x = fd
      · subst hx
        rw [hgone, hfd]
        refine iff_of_false (fun ⟨type, hset⟩ => ?_) fun ⟨type, hset⟩ => by cases hset
        cases hset
        exact heq rfl
      · rw [hold x hx]
  · have hne : x ≠ fd := by
      rintro rfl
      rw [hgone] at hx
      cases hx
    exact h.listed x ctxt' (hold x hne ▸ hx)
  · by_cases hctxt : ctxt' = ctxt
    · subst hctxt
      rw [Function.update_self] at hx
      obtain ⟨hne, hmem⟩ := (h.nodup ctxt').mem_erase_iff.mp hx
      rw [hold x hne, h.known ctxt' x hmem]
    · rw [Function.update_of_ne hctxt] at hx
      have hset := h.known ctxt' x hx
      have hne : x ≠ fd := by
        rintro rfl
        rw [hfd] at hset
        cases hset
        exact hctxt rfl
      rw [hold x hne, hset]
  · by_cases hctxt : ctxt' = ctxt
    · subst hctxt
      rw [Function.update_self]
      exact (h.nodup ctxt').erase fd
    · rw [Function.update_of_ne hctxt]
      exact h.nodup ctxt'

/-! ## The queues of the library -/

/-- A queue that is opened holds a file and a mapping of its own: the descriptor was not open,
and the place was not mapped. -/
theorem Held.open (h : Held contexts regions queues) (hfd : contexts fd = none)
    (hq : queues q = none) (hqueue : queue.fd = fd) {pages : Nat} :
    Held (Function.update contexts fd (some (some ctxt))) (⟨queue.base, fd, pages⟩ :: regions)
      (Function.update queues q (some queue)) := by
  have hnew : Function.update queues q (some queue) q = some queue := Function.update_self ..
  have hold : ∀ q' queue', queues q' = some queue' →
      Function.update queues q (some queue) q' = some queue' ∧ queue'.fd ≠ fd := by
    intro q' queue' hq'
    refine ⟨?_, fun heq => ?_⟩
    · have hne : q' ≠ q := by
        rintro rfl
        rw [hq] at hq'
        cases hq'
      rw [Function.update_of_ne hne, hq']
    · obtain ⟨ctxt', hctxt'⟩ := h.opened q' queue' hq'
      rw [heq, hfd] at hctxt'
      cases hctxt'
  have hcases : ∀ q' queue', Function.update queues q (some queue) q' = some queue' →
      q' = q ∧ queue' = queue ∨ queues q' = some queue' := by
    intro q' queue' hq'
    by_cases hne : q' = q
    · subst hne
      rw [hnew] at hq'
      exact .inl ⟨rfl, (Option.some.inj hq').symm⟩
    · exact .inr (by rwa [Function.update_of_ne hne] at hq')
  refine ⟨fun region hregion => ?_, fun q' queue' hq' => ?_, fun x hx => ?_,
    fun q₁ q₂ queue₁ queue₂ h₁ h₂ hsame => ?_⟩
  · rcases List.mem_cons.mp hregion with rfl | hregion
    · exact ⟨q, queue, hnew, hqueue, rfl⟩
    · obtain ⟨q', queue', hq', hmapped⟩ := h.mapped region hregion
      exact ⟨q', queue', (hold q' queue' hq').1, hmapped⟩
  · rcases hcases q' queue' hq' with ⟨rfl, rfl⟩ | hq'
    · exact ⟨ctxt, by rw [hqueue, Function.update_self]⟩
    · obtain ⟨ctxt', hctxt'⟩ := h.opened q' queue' hq'
      exact ⟨ctxt', by rw [Function.update_of_ne (hold q' queue' hq').2, hctxt']⟩
  · by_cases hne : x = fd
    · exact ⟨q, queue, hnew, hqueue.trans hne.symm⟩
    · rw [Function.update_of_ne hne] at hx
      obtain ⟨q', queue', hq', hx'⟩ := h.owned x hx
      exact ⟨q', queue', (hold q' queue' hq').1, hx'⟩
  · rcases hcases q₁ queue₁ h₁ with ⟨hq₁, rfl⟩ | hq₁ <;>
      rcases hcases q₂ queue₂ h₂ with ⟨hq₂, rfl⟩ | hq₂
    · exact hq₁.trans hq₂.symm
    · exact absurd (hsame.symm.trans hqueue) (hold q₂ queue₂ hq₂).2
    · exact absurd (hsame.trans hqueue) (hold q₁ queue₁ hq₁).2
    · exact h.apart q₁ q₂ queue₁ queue₂ hq₁ hq₂ hsame

/-- A queue that is closed takes its file and its mapping with it, and no other's, since no two
queues share them. -/
theorem Held.close (h : Held contexts regions queues) (hq : queues q = some queue) :
    Held (Function.update contexts queue.fd none)
      (regions.filter fun region => region.base ≠ queue.base)
      (Function.update queues q none) := by
  have hcases : ∀ q' queue', Function.update queues q none q' = some queue' →
      queues q' = some queue' ∧ queue'.fd ≠ queue.fd := by
    intro q' queue' hq'
    have hne : q' ≠ q := by
      rintro rfl
      rw [Function.update_self] at hq'
      cases hq'
    rw [Function.update_of_ne hne] at hq'
    exact ⟨hq', fun heq => hne (h.apart q' q queue' queue hq' hq heq)⟩
  have hold : ∀ q' queue', queues q' = some queue' → queue' ≠ queue →
      Function.update queues q none q' = some queue' := by
    intro q' queue' hq' hother
    have hne : q' ≠ q := by
      rintro rfl
      rw [hq] at hq'
      exact hother (Option.some.inj hq').symm
    rw [Function.update_of_ne hne, hq']
  refine ⟨fun region hregion => ?_, fun q' queue' hq' => ?_, fun x hx => ?_,
    fun q₁ q₂ queue₁ queue₂ h₁ h₂ hsame =>
      h.apart q₁ q₂ queue₁ queue₂ (hcases q₁ queue₁ h₁).1 (hcases q₂ queue₂ h₂).1 hsame⟩
  · obtain ⟨hregion, hbase⟩ := List.mem_filter.mp hregion
    obtain ⟨q', queue', hq', hfile, hbase'⟩ := h.mapped region hregion
    refine ⟨q', queue', hold q' queue' hq' ?_, hfile, hbase'⟩
    rintro rfl
    exact of_decide_eq_true hbase hbase'.symm
  · obtain ⟨hq', hne⟩ := hcases q' queue' hq'
    obtain ⟨ctxt', hctxt'⟩ := h.opened q' queue' hq'
    exact ⟨ctxt', by rw [Function.update_of_ne hne, hctxt']⟩
  · have hne : x ≠ queue.fd := by
      rintro rfl
      rw [Function.update_self] at hx
      exact hx rfl
    rw [Function.update_of_ne hne] at hx
    obtain ⟨q', queue', hq', rfl⟩ := h.owned x hx
    exact ⟨q', queue', hold q' queue' hq' fun heq => hne (congrArg VMQueue.fd heq), rfl⟩

/-! ## Looking up and mapping -/

/-- All that is registered has a name of one word. -/
def System.OneWord (s : System) : Prop :=
  ∀ a ∈ s.registries.reg.list, Solid (nameText (s.registries.reg.mem a).name)

/-- There is a queue of that name, and `int` can hold its size. -/
def System.Openable (s : System) (name : List UInt8) : Prop :=
  ∃ m ∈ s.registries.managers.list, (s.memory m).name.bytes = name ∧ 0 ≤ (s.memory m).size.toInt

/-- Nothing is refused. -/
structure Grants.Granted (g : Grants) : Prop where
  block : g.block ≠ none
  file : g.file ≠ none
  memory : g.memory = true
  place : g.place ≠ none
  fails : ∀ i, g.fails i = false

/-- The names of the queue and of the memory are told apart by their letters. -/
theorem textOf_injective : Function.Injective textOf :=
  List.map_injective_iff.mpr fun a b hab => by
    have hnat := congrArg Char.toNat hab
    rw [ByteText.toNat_ofNat a.toNat_lt, ByteText.toNat_ofNat b.toNat_lt] at hnat
    exact UInt8.toNat_inj.mp hnat

theorem Counted.mem_list (h : Counted r contexts members) (hm : m ∈ r.managers.list) :
    (r.managers.mem m).mem ∈ r.reg.list :=
  h.registries.mem_list hm

theorem name_ext {name name' : Name} (h : name.bytes = name'.bytes) : name = name' := by
  cases name
  cases name'
  cases h
  rfl

/-- What the library finds in the listing is the size of the queue of that name, or nothing. -/
theorem getQueueSize_listing (hinv : Inv s) (hwords : s.OneWord) (name : List UInt8) :
    (∃ a ∈ s.registries.reg.list, (s.registries.reg.mem a).name.bytes = name ∧
      getQueueSize (textOf name) s.listing = some (s.registries.reg.mem a).size.toInt) ∨
    (∀ a ∈ s.registries.reg.list, (s.registries.reg.mem a).name.bytes ≠ name) ∧
      getQueueSize (textOf name) s.listing = some (-1) := by
  have hsolid : ∀ e ∈ s.registries.reg.list.map s.registries.reg.mem,
      Solid (nameText e.name) := by
    intro e he
    obtain ⟨a, ha, rfl⟩ := List.mem_map.mp he
    exact hwords a ha
  have hsome : ∀ e ∈ s.registries.reg.list.map s.registries.reg.mem, nameText e.name ≠ [] := by
    intro e he hempty
    obtain ⟨a, ha, rfl⟩ := List.mem_map.mp he
    exact (hinv.drivers.stored a ha).1 (List.map_eq_nil_iff.mp hempty)
  have hfound := ProcListing.getQueueSizeFrom_show (textOf name) hsolid hsome
  rw [List.find?_map] at hfound
  cases hfind : s.registries.reg.list.find?
      ((fun e => decide (nameText e.name = textOf name)) ∘ s.registries.reg.mem) with
  | some a =>
      have hname := List.find?_some hfind
      rw [hfind] at hfound
      exact .inl ⟨a, List.mem_of_find?_eq_some hfind,
        textOf_injective (of_decide_eq_true hname), hfound⟩
  | none =>
      rw [hfind] at hfound
      refine .inr ⟨fun a ha hname => ?_, hfound⟩
      have hmissing := List.find?_eq_none.mp hfind a ha
      exact hmissing (decide_eq_true (congrArg textOf hname))

/-- Where no page is refused, `vmshm_mmap` maps them all. -/
theorem mapPages_granted {frames : List Frame} {fails : Nat → Bool}
    (hfails : ∀ i, fails i = false) (i pages : Nat) :
    ∃ mapped, Vmshm.mapPages frames fails i pages = .ok mapped := by
  induction pages generalizing i with
  | zero => exact ⟨[], rfl⟩
  | succ pages ih =>
      obtain ⟨rest, hrest⟩ := ih (i + 1)
      refine ⟨frames.getD i 0 :: rest, ?_⟩
      rw [Vmshm.mapPages, if_neg (by rw [hfails]; exact Bool.false_ne_true), hrest]
      rfl

/-- A region that is not too long can be mapped. -/
theorem vmshmRemap_granted {frames : List Frame} {fails : Nat → Bool}
    {mem : Vmshm.VMSharedMemory} {vma : VmArea} (hfails : ∀ i, fails i = false)
    (hshort : ¬ Vmshm.tooLong mem vma) :
    ∃ mapped, vmshmRemap mem frames fails vma = .ok mapped := by
  rw [vmshmRemap]
  split
  · rw [Vmshm.mmapKmem, if_neg hshort, if_neg (by rw [hfails]; exact Bool.false_ne_true)]
    exact ⟨_, rfl⟩
  · rw [Vmshm.mmapVmem, if_neg hshort]
    exact mapPages_granted hfails 0 vma.pages

/-- The size of an entry is that of its pages, of which there is at least one. -/
theorem pagesOf_stored {mem : Vmshm.VMSharedMemory} (h : QueueRegistries.Stored mem)
    (hnonneg : 0 ≤ mem.size.toInt) :
    0 < pagesOf mem.size.toInt ∧
      ((pagesOf mem.size.toInt * pageSize : Nat) : Int) = mem.size.toInt := by
  obtain ⟨-, size, hpos, hsize⟩ := h
  obtain ⟨hpages, hsome⟩ := QueueRegistries.toNat_pageAlign hpos
  rw [← hsize] at hpages hsome
  have hnat : mem.size.toInt = mem.size.toNat := by
    have hcond := BitVec.toInt_eq_toNat_cond mem.size
    have hlt := mem.size.isLt
    split at hcond <;> omega
  have hpage : pageSize = 4096 := rfl
  rw [hnat, pagesOf, hpage, Int.toNat_natCast]
  omega

/-- `vmq_setup` finds a queue of that name, if there is one. -/
theorem vmqSetup_granted (hregs : QueueRegistries.Inv s.registries.unused)
    (hfd : s.contexts fd = some none) {name : Name} (hnamed : name.bytes ≠ [])
    (hm : m ∈ s.registries.managers.list) (hname : (s.memory m).name = name)
    {type : Int} {vmqType : Vmq.VMQType} (htype : setupType type = some vmqType) :
    ∃ m' ∈ s.registries.managers.list, (s.memory m').name = name ∧
      s.vmqSetup fd name type true = (s.join fd ⟨vmqType, m'⟩, .ok 0) := by
  rw [System.vmqSetup, hfd]
  dsimp only
  rw [if_neg hnamed, hregs.lookup_used]
  cases hfind : s.registries.managers.list.find? fun m =>
      (s.registries.reg.mem (s.registries.managers.mem m).mem).name = name with
  | none =>
      have hmissing := List.find?_eq_none.mp hfind m hm
      exact absurd (decide_eq_true hname) hmissing
  | some m' =>
      have hfound := List.find?_some hfind
      refine ⟨m', List.mem_of_find?_eq_some hfind, of_decide_eq_true hfound, ?_⟩
      dsimp only
      rw [htype]
      rfl

/-- The size that the library finds for a queue is that of its memory. -/
theorem getQueueSize_memory (hinv : Inv s) (hwords : s.OneWord)
    (hm : m ∈ s.registries.managers.list) :
    getQueueSize (textOf (s.memory m).name.bytes) s.listing = some (s.memory m).size.toInt := by
  have ha := hinv.drivers.mem_list hm
  rcases getQueueSize_listing hinv hwords (s.memory m).name.bytes
    with ⟨b, hb, hname, hfound⟩ | ⟨hnone, -⟩
  · have hsame := hinv.drivers.registries.refs.eq_of_name hb ha (name_ext hname)
    rw [hfound, hsame]
    rfl
  · exact absurd rfl (hnone _ ha)

/-- The whole memory of a queue can be mapped, at the place that was granted, and the mapping
has as many pages as the memory. -/
theorem mmap_granted (hgranted : g.Granted) {base : Nat} (hplace : g.place = some base)
    (hfd : s.contexts fd = some (some ctxt))
    (hstored : QueueRegistries.Stored (s.memory ctxt.mgr))
    (hnonneg : 0 ≤ (s.memory ctxt.mgr).size.toInt) :
    mmap s g fd (s.memory ctxt.mgr).size.toInt =
      some ⟨base, fd, pagesOf (s.memory ctxt.mgr).size.toInt⟩ := by
  obtain ⟨hpages, hwhole⟩ := pagesOf_stored hstored hnonneg
  have hfits : ¬ Vmshm.tooLong (s.memory ctxt.mgr)
      ⟨0, base, pagesOf (s.memory ctxt.mgr).size.toInt, 0⟩ := by
    rw [Vmshm.tooLong, Int.not_lt]
    exact hwhole.le
  obtain ⟨mapped, hremap⟩ : ∃ mapped, vmshmRemap (s.memory ctxt.mgr) g.frames g.fails
      ⟨0, base, pagesOf (s.memory ctxt.mgr).size.toInt, 0⟩ = .ok mapped :=
    vmshmRemap_granted hgranted.fails hfits
  rw [mmap, hplace, hfd]
  dsimp only
  rw [if_neg hpages.ne', hremap]

/-- A call that is granted everything opens the queue: the listing gives its size, the set-up
finds it, and its memory can be mapped. -/
theorem vmQueueOpen_granted (hinv : Inv s) (hwords : s.OneWord) (hgranted : g.Granted)
    (hopenable : s.Openable name) (mode : Int) :
    ∃ t q, vmQueueOpen s g name mode = some (t, some q) := by
  obtain ⟨m, hm, rfl, hnonneg⟩ := hopenable
  obtain ⟨q, hblock⟩ := Option.ne_none_iff_exists'.mp hgranted.block
  obtain ⟨fd, hfile⟩ := Option.ne_none_iff_exists'.mp hgranted.file
  obtain ⟨base, hplace⟩ := Option.ne_none_iff_exists'.mp hgranted.place
  have ha := hinv.drivers.mem_list hm
  have hsize : getQueueSize (textOf (s.memory m).name.bytes) ((s.malloc q).vmqOpen fd).listing =
      some (s.memory m).size.toInt :=
    getQueueSize_memory hinv hwords hm
  have hset : ((s.malloc q).vmqOpen fd).contexts fd = some none := Function.update_self ..
  have htype : setupType (if mode = vmqModeProducer then vmqTypeProducer
      else vmqTypeConsumer) =
        some (if mode = vmqModeProducer then .producer else .consumer) := by
    split <;> rfl
  have hname : (s.memory m).name = ⟨(s.memory m).name.bytes, (s.memory m).name.short⟩ := rfl
  have hnamed : (⟨(s.memory m).name.bytes, (s.memory m).name.short⟩ : Name).bytes ≠ [] :=
    (hinv.drivers.stored _ ha).1
  obtain ⟨m', hm', hfound, hsetup⟩ := vmqSetup_granted (s := (s.malloc q).vmqOpen fd)
    hinv.drivers.registries hset hnamed hm hname htype
  let ctxt : VMQContext :=
    ⟨if mode = vmqModeProducer then .producer else .consumer, m'⟩
  let u := ((s.malloc q).vmqOpen fd).join fd ctxt
  -- it is the same memory, whichever manager is found
  have hmemory : u.memory ctxt.mgr = s.memory m :=
    (memory_join ..).trans (congrArg s.registries.reg.mem
      (hinv.drivers.registries.refs.eq_of_name (hinv.drivers.mem_list hm') ha hfound))
  have hmmap : mmap u g fd (s.memory m).size.toInt =
      some ⟨base, fd, pagesOf (s.memory m).size.toInt⟩ := by
    have hstored : QueueRegistries.Stored (u.memory ctxt.mgr) :=
      hmemory ▸ hinv.drivers.stored _ ha
    have hctxt : u.contexts fd = some (some ctxt) := Function.update_self ..
    rw [← hmemory] at hnonneg ⊢
    exact mmap_granted hgranted hplace hctxt hstored hnonneg
  refine ⟨{ u with
    regions := ⟨base, fd, pagesOf (s.memory m).size.toInt⟩ :: u.regions
    queues := Function.update u.queues q (some ⟨fd, (s.memory m).size.toInt, base⟩) }, q, ?_⟩
  rw [vmQueueOpen, hblock]
  dsimp only
  rw [hfile]
  dsimp only
  rw [hsize]
  dsimp only
  rw [if_neg (Int.not_lt.mpr hnonneg), dif_pos (s.memory m).name.short, hgranted.memory, hsetup]
  dsimp only
  rw [hmmap]

/-- A call on a listing of words returns: no name in it is too long for the buffer of the loop. -/
theorem vmQueueOpen_returns (hinv : Inv s) (hwords : s.OneWord) (g : Grants) (name : List UInt8)
    (mode : Int) : ∃ t result, vmQueueOpen s g name mode = some (t, result) := by
  rw [vmQueueOpen]
  rcases g.block with _ | q
  · exact ⟨_, _, rfl⟩
  · rcases g.file with _ | fd
    · exact ⟨_, _, rfl⟩
    · have hlisting : ((s.malloc q).vmqOpen fd).listing = s.listing := rfl
      dsimp only
      rw [hlisting]
      rcases getQueueSize_listing hinv hwords name with ⟨a, -, hname, hfound⟩ | ⟨-, hfound⟩
      · have hshort : name.length < vmshmMaxNameLength :=
          hname ▸ (s.registries.reg.mem a).name.short
        rw [hfound]
        dsimp only
        rw [dif_pos hshort]
        split
        · exact ⟨_, _, rfl⟩
        · split
          · exact ⟨_, _, rfl⟩
          · split <;> exact ⟨_, _, rfl⟩
      · rw [hfound]
        exact ⟨_, _, rfl⟩

/-- A call that opens a queue knows its size. -/
theorem Opens.found_size (hinv : Inv s) (hwords : s.OneWord) {base : Nat} {size : Int}
    (h : Opens s g name mode q t fd ctxt base size) : size = (s.memory ctxt.mgr).size.toInt := by
  have hfound := h.found
  rw [← h.named, getQueueSize_memory hinv hwords h.listed] at hfound
  exact (Option.some.inj hfound).symm

/-! ## Whole runs -/

theorem Inv.init (mem : Addr → Vmshm.VMSharedMemory)
    (mgr : Mgr → QueueRegistries.VMQBufferManager) : Inv (init mem mgr) where
  drivers := {
    registries := QueueRegistries.Inv.init mem fun m => { mgr m with refcnt := 0 }
    stored := fun a ha => by cases ha
    counted := fun m hm => by cases hm
    listed := fun fd ctxt h => by cases h
    known := fun ctxt fd h => by cases h
    nodup := fun ctxt => List.nodup_nil }
  files := {
    mapped := fun region h => by cases h
    opened := fun q queue h => by cases h
    owned := fun fd h => absurd rfl h
    apart := fun q q' queue queue' h => by cases h }

/-- What the drivers do otherwise. -/
theorem Counted.step (h : Counted r contexts members) {op : QueueRegistries.Op × Result}
    {r' : Registries} (hstep : QueueRegistries.Step r op r') : Counted r' contexts members := by
  have hkept := hstep.managersKept h.registries
  have hused : ∀ fd ctxt, contexts fd = some (some ctxt) →
      (r.managers.mem ctxt.mgr).refcnt ≠ 0 := by
    intro fd ctxt hfd hzero
    have hcount := h.counted _ (h.listed fd ctxt hfd)
    rw [hzero] at hcount
    exact hcount.empty fd ⟨ctxt.type, hfd⟩
  refine ⟨h.registries.step_used hstep, hstep.stored h.registries h.stored, fun m hm => ?_,
    fun fd ctxt hfd => ?_, h.known, h.nodup⟩
  · rcases hkept.old m hm with ⟨hold, hsame⟩ | ⟨hnew, hzero⟩
    · rw [hsame]
      exact h.counted m hold
    · rw [hzero]
      exact Count.zero fun fd ⟨type, hfd⟩ => hnew (h.listed fd _ hfd)
  · exact (hkept.gone _ (h.listed fd ctxt hfd)).resolve_right (hused fd ctxt hfd)

/-- One more queue is open. -/
theorem Inv.open (hinv : Inv s) (hfresh : g.Fresh s) {base : Nat} {size : Int}
    (h : Opens s g name mode q t fd ctxt base size) : Inv t := by
  have hfd := hfresh.file fd h.file
  have hcontexts : (afterOpen s q fd ctxt base size).contexts =
      Function.update s.contexts fd (some (some ctxt)) := Function.update_idem ..
  rw [h.result]
  constructor
  · rw [hcontexts]
    exact hinv.drivers.join hfd h.listed
  · rw [hcontexts]
    have hqueue : (⟨fd, size, base⟩ : VMQueue).fd = fd := rfl
    exact hinv.files.open hfd (hfresh.block q h.block) hqueue

/-- `VMQueueClose` gives back what belongs to the queue. -/
theorem vmQueueClose_eq (hinv : Inv s) (hq : s.queues q = some queue) :
    ∃ ctxt, s.contexts queue.fd = some (some ctxt) ∧ vmQueueClose s q = {
      registries := addRefcnt s.registries ctxt.mgr (-1)
      contexts := Function.update s.contexts queue.fd none
      members := Function.update s.members ctxt ((s.members ctxt).erase queue.fd)
      regions := s.regions.filter fun region => region.base ≠ queue.base
      queues := Function.update s.queues q none } := by
  obtain ⟨ctxt, hctxt⟩ := hinv.files.opened q queue hq
  have hnone : ∀ region ∈ (s.munmap queue.base).regions, region.file ≠ queue.fd := by
    intro region hregion hfile
    obtain ⟨hregion, hbase⟩ := List.mem_filter.mp hregion
    obtain ⟨q', queue', hq', hfile', hbase'⟩ := hinv.files.mapped region hregion
    have hsame := hinv.files.apart q' q queue' queue hq' hq (hfile'.trans hfile)
    subst hsame
    rw [hq] at hq'
    cases hq'
    exact of_decide_eq_true hbase hbase'.symm
  have hset : (s.munmap queue.base).contexts queue.fd = some (some ctxt) := hctxt
  refine ⟨ctxt, hctxt, ?_⟩
  rw [vmQueueClose, hq]
  dsimp only
  rw [close_eq hnone, System.vmqRelease, hset]
  rfl

/-- `VMQueueClose` gives back what the open queue held. -/
theorem Inv.close (hinv : Inv s) (hq : s.queues q = some queue) : Inv (vmQueueClose s q) := by
  obtain ⟨ctxt, hctxt, heq⟩ := vmQueueClose_eq hinv hq
  rw [heq]
  exact ⟨hinv.drivers.leave hctxt, hinv.files.close hq⟩

/-- Whatever the client or another client does, what is open is held and counted. -/
theorem Inv.step (hinv : Inv s) {op : Op} (hstep : Step s op t) : Inv t := by
  cases hstep with
  | registries step => exact ⟨hinv.drivers.step step, hinv.files⟩
  | vmQueueOpen fresh outcome =>
      rcases vmQueueOpen_cases hinv fresh outcome with ⟨-, rfl⟩ | ⟨q, fd, ctxt, base, size, -, h⟩
      · exact hinv
      · exact hinv.open fresh h
  | @vmQueueClose q opened =>
      obtain ⟨queue, hq⟩ := Option.ne_none_iff_exists'.mp opened
      exact hinv.close hq

/-- Over whole runs, what is open is held and counted. -/
theorem Inv.run {mem : Addr → Vmshm.VMSharedMemory}
    {mgr : Mgr → QueueRegistries.VMQBufferManager} {tr : List Op}
    (hrun : Run Step (QueueOpening.init mem mgr) tr s) : Inv s :=
  hrun.invariant Inv (Inv.init mem mgr) fun _ _ _ hinv hstep => hinv.step hstep

/-! ## What a maintainer can rely on -/

/-- What has been opened can be closed again, and all is as before: the file leaves its list and
the count goes down to what it was. -/
theorem close_afterOpen (hinv : Inv s) (hfresh : g.Fresh s) {base : Nat} {size : Int}
    (h : Opens s g name mode q t fd ctxt base size) : vmQueueClose t q = s := by
  have hfd := hfresh.file fd h.file
  have hq := hfresh.block q h.block
  have hinv' := hinv.open hfresh h
  obtain rfl := h.result
  have hqueue : (afterOpen s q fd ctxt base size).queues q = some ⟨fd, size, base⟩ :=
    Function.update_self ..
  have hctxt : (afterOpen s q fd ctxt base size).contexts fd = some (some ctxt) :=
    Function.update_self ..
  obtain ⟨ctxt', hctxt', hclose⟩ := vmQueueClose_eq hinv' hqueue
  rw [hctxt] at hctxt'
  cases hctxt'
  rw [hclose]
  refine System.ext (addRefcnt_back (hinv.live h.listed)) ?_ ?_ ?_ ?_
  · show Function.update (Function.update (Function.update s.contexts fd (some none)) fd
      (some (some ctxt))) fd none = s.contexts
    rw [Function.update_idem]
    exact update_back hfd
  · show Function.update (Function.update s.members ctxt (s.members ctxt ++ [fd])) ctxt
      ((Function.update s.members ctxt (s.members ctxt ++ [fd]) ctxt).erase fd) = s.members
    rw [Function.update_self, erase_joined (hinv.not_member hfd)]
    exact update_back rfl
  · have hother : ∀ region ∈ s.regions, decide (region.base ≠ base) = true := fun region hregion =>
      decide_eq_true (hfresh.place base h.place region hregion)
    show (⟨base, fd, pagesOf size⟩ :: s.regions).filter (fun region => region.base ≠ base) =
      s.regions
    rw [List.filter_cons_of_neg (by simp), List.filter_eq_self.mpr hother]
  · exact update_back hq

/-- A manager is used as long as a queue is open. -/
theorem Inv.refcnt_ne_zero_iff (hinv : Inv s) (hm : m ∈ s.registries.managers.list) :
    (s.registries.managers.mem m).refcnt ≠ 0 ↔
      ∃ q queue type, s.queues q = some queue ∧ s.contexts queue.fd = some (some ⟨type, m⟩) := by
  have hcount := hinv.drivers.counted m hm
  constructor
  · intro hne
    obtain ⟨fd, type, hset⟩ := hcount.exists hne
    obtain ⟨q, queue, hq, rfl⟩ := hinv.files.owned fd (by rw [hset]; exact Option.some_ne_none _)
    exact ⟨q, queue, type, hq, hset⟩
  · rintro ⟨q, queue, type, hq, hset⟩ hzero
    rw [hzero] at hcount
    exact hcount.empty queue.fd ⟨type, hset⟩

/-- The removal of a queue that is there is refused exactly if its count is not 0. -/
theorem Inv.vmqRemove_busy_iff (hinv : Inv s) (hm : m ∈ s.registries.managers.list) :
    (QueueRegistries.vmqRemove s.registries (.ok (s.memory m).name)).2 = .error .ebusy ↔
      (s.registries.managers.mem m).refcnt ≠ 0 := by
  have hnamed : (s.memory m).name.bytes ≠ [] :=
    (hinv.drivers.stored _ (hinv.drivers.mem_list hm)).1
  have hfind : s.registries.managers.list.find? (fun m' =>
      (s.registries.reg.mem (s.registries.managers.mem m').mem).name = (s.memory m).name) =
        some m := by
    cases hfind : s.registries.managers.list.find? fun m' =>
        (s.registries.reg.mem (s.registries.managers.mem m').mem).name = (s.memory m).name with
    | none => exact absurd (decide_eq_true rfl) (List.find?_eq_none.mp hfind m hm)
    | some m' =>
        -- no other manager has memory of that name
        have hm' := List.mem_of_find?_eq_some hfind
        have hname := List.find?_some hfind
        have hsame := hinv.drivers.registries.refs.eq_of_name (hinv.drivers.mem_list hm')
          (hinv.drivers.mem_list hm) (of_decide_eq_true hname)
        rw [hinv.drivers.registries.owned.apart m' hm' m hm hsame]
  rw [QueueRegistries.vmqRemove, if_neg hnamed, hinv.drivers.registries.lookup_used, hfind]
  dsimp only
  split
  · next hne => exact iff_of_true rfl hne
  · next hzero => exact iff_of_false (fun hbusy => by cases hbusy) hzero

/-- **Nothing is left behind.**  After any operations of the drivers and of the library: a call
of `VMQueueOpen` that fails, whatever is refused to it, leaves everything as it was; one that
succeeds is undone by `VMQueueClose`; and a queue can be removed unless somebody has it open. -/
theorem queue_opening_undone (mem : Addr → Vmshm.VMSharedMemory)
    (mgr : Mgr → QueueRegistries.VMQBufferManager) (tr : List Op) (s : System)
    (hrun : Run Step (init mem mgr) tr s) :
    (∀ g name mode t result, g.Fresh s → vmQueueOpen s g name mode = some (t, result) →
      (result = none → t = s) ∧ ∀ q, result = some q → vmQueueClose t q = s) ∧
    ∀ m ∈ s.registries.managers.list,
      (QueueRegistries.vmqRemove s.registries (.ok (s.memory m).name)).2 = .error .ebusy ↔
        ∃ q queue type, s.queues q = some queue ∧
          s.contexts queue.fd = some (some ⟨type, m⟩) := by
  have hinv := Inv.run hrun
  refine ⟨fun g name mode t result hfresh hcall => ?_, fun m hm =>
    (hinv.vmqRemove_busy_iff hm).trans (hinv.refcnt_ne_zero_iff hm)⟩
  rcases vmQueueOpen_cases hinv hfresh hcall with ⟨rfl, rfl⟩ | ⟨q, fd, ctxt, base, size, rfl, h⟩
  · exact ⟨fun _ => rfl, fun q hq => by cases hq⟩
  · refine ⟨fun hnone => absurd hnone (Option.some_ne_none q), fun q' hq' => ?_⟩
    cases hq'
    exact close_afterOpen hinv hfresh h

def smallInit : System :=
  init (fun _ => Vmshm.newMemory QueueRegistries.smallQueue.name 0 0 0) fun _ => ⟨0, 0, none⟩

/-- The queue `a` has been created. -/
def withSmallQueue : System :=
  { smallInit with registries := QueueRegistries.withSmallQueue }

/-- The small queue is made by one call of `vmq_create`. -/
theorem withSmallQueue_run :
    Run Step smallInit [.registries (.vmqCreate (.ok QueueRegistries.smallQueue))]
      withSmallQueue := by
  obtain ⟨r, hstep, hrest⟩ := QueueRegistries.withSmallQueue_run.cons_inv
  have hsame : QueueRegistries.withSmallQueue = r := hrest.nil_inv
  have hcreate := Step.registries (s := smallInit) hstep
  rw [← hsame] at hcreate
  exact Run.single hcreate

theorem withSmallQueue_oneWord : withSmallQueue.OneWord := by
  intro a ha
  have hlist : withSmallQueue.registries.reg.list = [7] := rfl
  rw [hlist, List.mem_singleton] at ha
  subst ha
  intro c hc
  have hname : nameText (withSmallQueue.registries.reg.mem 7).name = ['a'] := rfl
  rw [hname] at hc
  revert c
  decide

theorem withSmallQueue_openable : withSmallQueue.Openable [97] :=
  ⟨9, List.mem_singleton_self 9, rfl, by decide⟩

/-- Everything is granted. -/
def smallGrants : Grants where
  block := some 1
  file := some 3
  memory := true
  place := some 4096
  frames := []
  fails := fun _ => false

/-- The grants of the example are of descriptors and places that are free. -/
theorem smallGrants_fresh : smallGrants.Fresh withSmallQueue :=
  ⟨fun _ _ => rfl, fun _ _ => rfl, fun _ _ region hregion => by cases hregion⟩

theorem smallGrants_granted : smallGrants.Granted :=
  ⟨Option.some_ne_none 1, Option.some_ne_none 3, rfl, Option.some_ne_none 4096, fun _ => rfl⟩

/-- The queue is opened and closed. -/
theorem queue_opening_undone_small_queue : ∃ t q,
    vmQueueOpen withSmallQueue smallGrants [97] vmqModeProducer = some (t, some q) ∧
      vmQueueClose t q = withSmallQueue := by
  obtain ⟨t, q, hopen⟩ := vmQueueOpen_granted (Inv.run withSmallQueue_run) withSmallQueue_oneWord
    smallGrants_granted withSmallQueue_openable vmqModeProducer
  obtain ⟨hcalls, -⟩ := queue_opening_undone _ _ _ _ withSmallQueue_run
  exact ⟨t, q, hopen, (hcalls _ _ _ _ _ smallGrants_fresh hopen).2 q rfl⟩

/-- **Opening a queue.**  After any operations of the drivers and of the library, with names of
one word: every call of `VMQueueOpen` returns; a call that nothing is refused to succeeds if and
only if there is a queue of that name; and a call that succeeds has mapped exactly the memory of
that queue, into a file that has joined it on the side of the mode. -/
theorem queue_opening_exact (mem : Addr → Vmshm.VMSharedMemory)
    (mgr : Mgr → QueueRegistries.VMQBufferManager) (tr : List Op) (s : System)
    (hrun : Run Step (init mem mgr) tr s) (hwords : s.OneWord) (g : Grants) (hfresh : g.Fresh s)
    (name : List UInt8) (mode : Int) :
    (∃ t result, vmQueueOpen s g name mode = some (t, result)) ∧
    (g.Granted → ((∃ t q, vmQueueOpen s g name mode = some (t, some q)) ↔ s.Openable name)) ∧
    ∀ t q, vmQueueOpen s g name mode = some (t, some q) →
      ∃ m ∈ s.registries.managers.list, (s.memory m).name.bytes = name ∧
        ∃ queue region, t.queues q = some queue ∧ queue.size = (s.memory m).size.toInt ∧
          t.regions = region :: s.regions ∧ region.base = queue.base ∧ region.file = queue.fd ∧
          ((region.pages * pageSize : Nat) : Int) = queue.size ∧
          t.contexts queue.fd =
            some (some ⟨if mode = vmqModeProducer then .producer else .consumer, m⟩) := by
  have hinv := Inv.run hrun
  have hopens : ∀ t q, vmQueueOpen s g name mode = some (t, some q) →
      ∃ fd ctxt base size, Opens s g name mode q t fd ctxt base size := by
    intro t q hopen
    rcases vmQueueOpen_cases hinv hfresh hopen with ⟨hnone, -⟩ | ⟨q', fd, ctxt, base, size, hq, h⟩
    · cases hnone
    · cases hq
      exact ⟨fd, ctxt, base, size, h⟩
  refine ⟨vmQueueOpen_returns hinv hwords g name mode, fun hgranted => ⟨?_, fun hopenable =>
    vmQueueOpen_granted hinv hwords hgranted hopenable mode⟩, fun t q hopen => ?_⟩
  · rintro ⟨t, q, hopen⟩
    obtain ⟨fd, ctxt, base, size, h⟩ := hopens t q hopen
    exact ⟨ctxt.mgr, h.listed, h.named, h.found_size hinv hwords ▸ h.nonneg⟩
  · obtain ⟨fd, ctxt, base, size, h⟩ := hopens t q hopen
    have hsize := h.found_size hinv hwords
    have hnonneg := h.nonneg
    obtain rfl := h.result
    have hctxt : ctxt =
        ⟨if mode = vmqModeProducer then .producer else .consumer, ctxt.mgr⟩ := by
      rw [← h.type]
    have hstored : QueueRegistries.Stored (s.memory ctxt.mgr) :=
      hinv.drivers.stored _ (hinv.drivers.mem_list h.listed)
    refine ⟨ctxt.mgr, h.listed, h.named, ⟨fd, size, base⟩, ⟨base, fd, pagesOf size⟩,
      Function.update_self .., hsize, rfl, rfl, rfl, ?_, ?_⟩
    · rw [hsize] at hnonneg ⊢
      exact (pagesOf_stored hstored hnonneg).2
    · exact (Function.update_self ..).trans (congrArg (fun c => some (some c)) hctxt)

/-- The queue is there and is opened. -/
theorem queue_opening_exact_small_queue : ∃ t q,
    vmQueueOpen withSmallQueue smallGrants [97] vmqModeProducer = some (t, some q) := by
  obtain ⟨-, hopened, -⟩ := queue_opening_exact _ _ _ _ withSmallQueue_run withSmallQueue_oneWord
    smallGrants smallGrants_fresh [97] vmqModeProducer
  exact (hopened smallGrants_granted).mpr withSmallQueue_openable

end QueueOpening

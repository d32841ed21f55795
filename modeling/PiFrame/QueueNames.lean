import PiFrame.CharBuffer
import PiFrame.QueueRegistries

/-!
# The names of queues and memories

`VMQ_CREATE`, `VMQ_SETUP` and `VMQ_REMOVE` of `drivers/vmq/main.c` and
`VMSHM_CREATE` of `drivers/vmshm/main.c` copy a name from the user into an array
of 64 characters.  The copy returns 64 when there is no NUL among that many
bytes, and the terminator that the drivers add then goes one place too far;
`vmshm_create` copies as many bytes on, without looking.

A shorter name goes through every one of these arrays as it is, and so a queue
is found under its own name and no other.
-/

namespace QueueNames

open CharBuffer LinkedEntries Transition
open QueueRegistries (Mgr Registries VMQBufferManager VMQCreateParam linkManager)
open Vmshm (Errno Name vmshmMaxNameLength)

/-- The name arrays of one call: its own, the one of `lookup_buffer_manager`, and
the one in the entry that `vmshm_create` allocates. -/
structure Frame where
  name : Buffer vmshmMaxNameLength
  shmname : Buffer vmshmMaxNameLength
  memName : Buffer vmshmMaxNameLength

/-- No array was left. -/
structure Frame.Inside (f : Frame) : Prop where
  name : f.name.overrun = false
  shmname : f.shmname.overrun = false
  memName : f.memName.overrun = false

/-- `strncpy_from_user(name, .., VMQ_MAX_NAME_LENGTH)` and `name[ret] = 0`. -/
def copyName (name : Buffer vmshmMaxNameLength) (user : CString) : Buffer vmshmMaxNameLength :=
  let (name, ret) := strncpyFromUser name user vmshmMaxNameLength
  name.store ret 0

/-- There is a NUL somewhere behind a name that has been copied. -/
theorem copyName_terminated (name : Buffer vmshmMaxNameLength) (user : CString) :
    ∃ i, (copyName name user).bytes i = 0 :=
  ⟨_, Buffer.store_bytes_self⟩

/-- The string in `name`. -/
def nameOf (name : Buffer vmshmMaxNameLength) (user : CString) : CString :=
  ⟨_, copyName_terminated name user⟩

/-- What every call does with the name it is given, before it uses it. -/
def withName {α : Type} (f : Frame) (user : CString)
    (use : CString → Frame → Frame × Except Errno α) : Frame × Except Errno α :=
  let g := { f with name := copyName f.name user }
  if g.name.bytes 0 = 0 then (g, .error .einval) else use (nameOf f.name user) g

/-- `vmshm_create` as far as names go: `names` are those in `vmshm_list`, and
`memory` tells whether the entry and its pages can be had. -/
def vmshmCreate (names : List CString) (size : BitVec 32) (memory : Bool) (name : CString)
    (f : Frame) : Frame × Except Errno Unit :=
  if names.any fun entry => strcmp entry name then (f, .error .eexist)
  else if size.toInt ≤ 0 then (f, .error .einval)
  else if memory then ({ f with memName := strcpy f.memName name }, .ok ())
  else (f, .error .enomem)

/-- The loop of `lookup_buffer_manager`, over the managers with the names of
their memories. -/
def lookupManager (name : CString) :
    List (Mgr × CString) → Buffer vmshmMaxNameLength → Buffer vmshmMaxNameLength × Option Mgr
  | [], shmname => (shmname, none)
  | (m, memName) :: rest, shmname =>
      let shmname := snprintf shmname vmshmMaxNameLength memName
      if strncmp shmname.bytes name.bytes vmshmMaxNameLength then (shmname, some m)
      else lookupManager name rest shmname

/-- `lookup_buffer_manager`. -/
def lookupBufferManager (managers : List (Mgr × CString)) (name : CString) (f : Frame) :
    Frame × Option Mgr :=
  let (shmname, found) := lookupManager name managers f.shmname
  ({ f with shmname }, found)

/-- `vmq_create`. -/
def vmqCreate (names : List CString) (size : BitVec 32) (memory : Bool) (f : Frame)
    (user : CString) : Frame × Except Errno Unit :=
  withName f user (vmshmCreate names size memory)

/-- `VMSHM_CREATE` of `vmshm_ioctl`. -/
def vmshmIoctlCreate (names : List CString) (size : BitVec 32) (memory : Bool) (f : Frame)
    (user : CString) : Frame × Except Errno Unit :=
  withName f user (vmshmCreate names size memory)

/-- `vmq_setup`. -/
def vmqSetup (managers : List (Mgr × CString)) (f : Frame) (user : CString) :
    Frame × Except Errno Mgr :=
  withName f user fun name f =>
    match lookupBufferManager managers name f with
    | (f, none) => (f, .error .einval)
    | (f, some m) => (f, .ok m)

/-- `vmq_remove`. -/
def vmqRemove (managers : List (Mgr × CString)) (f : Frame) (user : CString) :
    Frame × Except Errno Mgr :=
  withName f user fun name f =>
    match lookupBufferManager managers name f with
    | (f, none) => (f, .error .enoent)
    | (f, some m) => (f, .ok m)

/-! ## Inside the arrays -/

variable {name shmname : Buffer vmshmMaxNameLength} {user : CString} {f : Frame}
  {managers : List (Mgr × CString)} {names : List CString} {size : BitVec 32} {memory : Bool}

/-- The terminator of a longer name goes past the end. -/
theorem copyName_overrun :
    (copyName name user).overrun =
      (name.overrun || decide (vmshmMaxNameLength ≤ user.strlen)) := by
  rw [copyName, strncpyFromUser]
  by_cases hlt : user.strlen < vmshmMaxNameLength
  · have hcopy : ¬ vmshmMaxNameLength < user.strlen + 1 := by omega
    have hstore : ¬ vmshmMaxNameLength ≤ user.strlen := by omega
    simp [hlt, Buffer.store, Buffer.copy_overrun, hcopy, hstore]
  · have hstore : vmshmMaxNameLength ≤ user.strlen := by omega
    simp [hlt, Buffer.store, hstore]

/-- The bytes of a name are copied up to its end or the end of the array. -/
theorem copyName_bytes {i : Nat} (hi : i < min user.strlen vmshmMaxNameLength) :
    (copyName name user).bytes i = user.bytes i := by
  rw [copyName, strncpyFromUser]
  by_cases hlt : user.strlen < vmshmMaxNameLength
  · rw [if_pos hlt]
    dsimp only
    rw [Buffer.store_bytes_of_ne (by omega), Buffer.copy_bytes, if_pos (by omega)]
  · rw [if_neg hlt]
    dsimp only
    rw [Buffer.store_bytes_of_ne (by omega), Buffer.copy_bytes, if_pos (by omega)]

/-- A longer name is cut off after 64 bytes. -/
theorem strlen_nameOf : (nameOf name user).strlen = min user.strlen vmshmMaxNameLength := by
  refine CString.strlen_eq_iff.mpr ⟨?_, fun i hi => ?_⟩
  · show (copyName name user).bytes _ = 0
    rw [copyName, strncpyFromUser]
    by_cases hlt : user.strlen < vmshmMaxNameLength
    · rw [if_pos hlt, Nat.min_eq_left hlt.le]
      exact Buffer.store_bytes_self
    · rw [if_neg hlt, Nat.min_eq_right (by omega)]
      exact Buffer.store_bytes_self
  · show (copyName name user).bytes i ≠ 0
    rw [copyName_bytes hi]
    exact CString.of_lt_strlen (by omega)

/-- A shorter one is the name that the user has given. -/
theorem text_nameOf (hshort : user.strlen < vmshmMaxNameLength) :
    (nameOf name user).text = user.text := by
  have hlen : (nameOf name user).strlen = user.strlen := by
    rw [strlen_nameOf, Nat.min_eq_left hshort.le]
  refine (CString.text_eq_iff.mpr fun i hi => ?_).symm
  rcases Nat.lt_or_eq_of_le hi with hlt | rfl
  · exact (copyName_bytes (by omega)).symm
  · rw [user.at_strlen, ← hlen, CString.at_strlen]

theorem lookupManager_overrun {name : CString} :
    (lookupManager name managers shmname).1.overrun = shmname.overrun := by
  have hroom : ∀ (b : Buffer vmshmMaxNameLength) memName,
      (snprintf b vmshmMaxNameLength memName).overrun = b.overrun :=
    fun b memName => snprintf_overrun (by decide) le_rfl
  induction managers generalizing shmname with
  | nil => rfl
  | cons m rest ih =>
      rw [lookupManager]
      split
      · exact hroom ..
      · rw [ih, hroom]

/-- A call stays inside the arrays exactly if the name is short, provided that
it does not leave them afterwards with a short name, nor return to them. -/
theorem withName_inside {α : Type} {use : CString → Frame → Frame × Except Errno α}
    (hf : f.Inside)
    (hkeep : ∀ name g, g.Inside → name.strlen < vmshmMaxNameLength → (use name g).1.Inside)
    (hname : ∀ name g, (use name g).1.name = g.name) :
    (withName f user use).1.Inside ↔ user.strlen < vmshmMaxNameLength := by
  have hover : (copyName f.name user).overrun = decide (vmshmMaxNameLength ≤ user.strlen) := by
    rw [copyName_overrun, hf.name, Bool.false_or]
  have hsame : (withName f user use).1.name = copyName f.name user := by
    rw [withName]
    dsimp only
    split
    · rfl
    · exact hname ..
  constructor
  · intro hinside
    have hname := hinside.name
    rw [hsame, hover, decide_eq_false_iff_not] at hname
    omega
  · intro hshort
    have hcopy : Frame.Inside { f with name := copyName f.name user } := by
      refine ⟨?_, hf.shmname, hf.memName⟩
      show (copyName f.name user).overrun = false
      rw [hover, decide_eq_false_iff_not]
      omega
    rw [withName]
    dsimp only
    split
    · exact hcopy
    · refine hkeep _ _ hcopy ?_
      rw [strlen_nameOf]
      omega

/-- `vmshm_create` does not write the name that it is given. -/
theorem vmshmCreate_name {name : CString} :
    (vmshmCreate names size memory name f).1.name = f.name := by
  rw [vmshmCreate]
  split
  · rfl
  · split
    · rfl
    · split <;> rfl

/-- With a short name, `vmshm_create` stays inside its arrays. -/
theorem vmshmCreate_inside {name : CString} (hf : f.Inside)
    (hshort : name.strlen < vmshmMaxNameLength) :
    (vmshmCreate names size memory name f).1.Inside := by
  have hcopy : (strcpy f.memName name).overrun = false := by
    rw [strcpy_overrun, hf.memName, Bool.false_or, decide_eq_false_iff_not]
    omega
  rw [vmshmCreate]
  split
  · exact hf
  · split
    · exact hf
    · split
      · exact ⟨hf.name, hf.shmname, hcopy⟩
      · exact hf

theorem lookupBufferManager_inside {name : CString} (hf : f.Inside) :
    (lookupBufferManager managers name f).1.Inside :=
  ⟨hf.name, lookupManager_overrun.trans hf.shmname, hf.memName⟩

/-- `vmq_create` stays inside its frame if and only if the name is short. -/
theorem vmqCreate_inside (hf : f.Inside) :
    (vmqCreate names size memory f user).1.Inside ↔ user.strlen < vmshmMaxNameLength :=
  withName_inside hf (fun _ _ hg hshort => vmshmCreate_inside hg hshort) fun _ _ =>
    vmshmCreate_name

/-- A call that only looks its manager up stays inside its arrays exactly if the name of the
user is shorter than they are. -/
theorem withName_lookup_inside {e : Errno} (hf : f.Inside) :
    (withName f user fun name f =>
      match lookupBufferManager managers name f with
      | (f, none) => (f, .error e)
      | (f, some m) => (f, .ok m)).1.Inside ↔ user.strlen < vmshmMaxNameLength := by
  apply withName_inside hf
  · intro name g hg _
    have hinside : (lookupBufferManager managers name g).1.Inside := lookupBufferManager_inside hg
    cases hlookup : lookupBufferManager managers name g with
    | mk g' found =>
        rw [hlookup] at hinside
        cases found <;> exact hinside
  · intro name g
    have hname : (lookupBufferManager managers name g).1.name = g.name := rfl
    cases hlookup : lookupBufferManager managers name g with
    | mk g' found =>
        rw [hlookup] at hname
        cases found <;> exact hname

/-! ## Which manager is found -/

/-- What `VMQ_CREATE` puts into its entry is the name the user has given, if it is short enough
for its NUL to be copied. -/
theorem vmqCreate_text (hshort : user.strlen < vmshmMaxNameLength)
    (hok : (vmqCreate names size memory f user).2 = .ok ()) :
    ∃ h, (CString.mk (vmqCreate names size memory f user).1.memName.bytes h).text = user.text := by
  have hmemName : (vmqCreate names size memory f user).1.memName =
      strcpy f.memName (nameOf f.name user) := by
    rw [vmqCreate, withName] at hok ⊢
    dsimp only at hok ⊢
    split at hok
    · cases hok
    · next hnamed =>
      rw [if_neg hnamed]
      rw [vmshmCreate] at hok ⊢
      split at hok
      · cases hok
      · next hnew =>
        rw [if_neg hnew]
        split at hok
        · cases hok
        · next hsize =>
          rw [if_neg hsize]
          split at hok
          · next hmemory => rw [if_pos hmemory]
          · cases hok
  have hend : ∃ i, (strcpy f.memName (nameOf f.name user)).bytes i = 0 :=
    ⟨_, (strcpy_bytes le_rfl).trans (CString.at_strlen _)⟩
  rw [hmemName]
  exact ⟨hend, (strcpy_text hend).trans (text_nameOf hshort)⟩

/-- The comparison of `lookup_buffer_manager` with a name that was not cut off. -/
theorem lookup_test {memName name : CString} (hshort : memName.strlen < vmshmMaxNameLength) :
    strncmp (snprintf shmname vmshmMaxNameLength memName).bytes name.bytes vmshmMaxNameLength =
      decide (memName.text = name.text) := by
  rw [Bool.eq_iff_iff, decide_eq_true_iff]
  exact strncmp_iff (fun i hi => snprintf_bytes hshort hi) hshort

/-- With short names, the manager that is found is the first of the name. -/
theorem lookupManager_found {name : CString}
    (hshort : ∀ m ∈ managers, m.2.strlen < vmshmMaxNameLength) :
    (lookupManager name managers shmname).2 =
      (managers.find? fun m => m.2.text = name.text).map Prod.fst := by
  induction managers generalizing shmname with
  | nil => rfl
  | cons m rest ih =>
      have hrest : ∀ b : Buffer vmshmMaxNameLength, (lookupManager name rest b).2 =
          (rest.find? fun m => m.2.text = name.text).map Prod.fst :=
        fun b => ih fun m' hm' => hshort m' (List.mem_cons_of_mem m hm')
      rw [lookupManager, List.find?_cons, lookup_test (hshort m List.mem_cons_self)]
      cases hname : decide (m.2.text = name.text)
      · exact hrest _
      · rfl

variable {s t : Registries}

/-- The managers of a state, where `names` are the strings in the entries of
their memories. -/
def managersOf (s : Registries) (names : Mgr → CString) : List (Mgr × CString) :=
  s.managers.list.map fun m => (m, names m)

/-- Every entry has the name in it that it was created under. -/
def Stored (s : Registries) (names : Mgr → CString) : Prop :=
  ∀ m ∈ s.managers.list, (names m).text = (s.reg.mem (s.managers.mem m).mem).name.bytes

/-- A manager is found under its own name, and under no other. -/
theorem lookup_iff (hinv : QueueRegistries.Inv s) {names : Mgr → CString} (hnames : Stored s names)
    {m : Mgr} (hm : m ∈ s.managers.list) {n : Name} (hn : (s.managers.mem m).procEntry = some n) :
    (lookupBufferManager (managersOf s names) (nameOf name user) f).2 = some m ↔
      user.text = n.bytes := by
  have hmem : n = (s.reg.mem (s.managers.mem m).mem).name :=
    Option.some.inj (hn.symm.trans (hinv.owned.named m hm))
  have hlen : ∀ m' ∈ managersOf s names, m'.2.strlen < vmshmMaxNameLength := by
    intro m' hm'
    obtain ⟨m', hlist, rfl⟩ := List.mem_map.mp hm'
    rw [← CString.length_text, hnames m' hlist]
    exact (s.reg.mem (s.managers.mem m').mem).name.short
  -- a name that was cut off is too long to be stored
  have huser : (nameOf name user).text = n.bytes ↔ user.text = n.bytes := by
    by_cases hshort : user.strlen < vmshmMaxNameLength
    · rw [text_nameOf hshort]
    · have hcut : (nameOf name user).text.length = vmshmMaxNameLength := by
        rw [CString.length_text, strlen_nameOf]
        omega
      refine iff_of_false (fun heq => ?_) fun heq => ?_
      · have hn := n.short
        rw [← heq] at hn
        omega
      · have hn := n.short
        rw [← heq, CString.length_text] at hn
        omega
  have hfound : (lookupBufferManager (managersOf s names) (nameOf name user) f).2 =
      ((managersOf s names).find? fun m => m.2.text = (nameOf name user).text).map Prod.fst :=
    lookupManager_found hlen
  rw [hfound, ← huser]
  constructor
  · intro hsome
    obtain ⟨p, hfind, rfl⟩ := Option.map_eq_some_iff.mp hsome
    have htext := List.find?_some hfind
    obtain ⟨m', hlist, rfl⟩ := List.mem_map.mp (List.mem_of_find?_eq_some hfind)
    rw [hmem, ← hnames m' hlist]
    exact (of_decide_eq_true htext).symm
  · intro htext
    cases hfind : (managersOf s names).find? fun m => m.2.text = (nameOf name user).text with
    | none =>
        have hnone := List.find?_eq_none.mp hfind _ (List.mem_map_of_mem hm)
        refine absurd ?_ hnone
        rw [decide_eq_true_iff, hnames m hm, htext, hmem]
    | some p =>
        have htest := List.find?_some hfind
        have hp := of_decide_eq_true htest
        obtain ⟨m', hlist, rfl⟩ := List.mem_map.mp (List.mem_of_find?_eq_some hfind)
        rw [hnames m' hlist, htext, hmem] at hp
        have hnameEq : (s.reg.mem (s.managers.mem m').mem).name =
            (s.reg.mem (s.managers.mem m).mem).name := by
          cases hb : (s.reg.mem (s.managers.mem m').mem).name
          cases hb' : (s.reg.mem (s.managers.mem m).mem).name
          rw [hb, hb'] at hp
          cases hp
          rfl
        have haddr := hinv.refs.eq_of_name (hinv.mem_list hlist) (hinv.mem_list hm) hnameEq
        exact congrArg some (hinv.owned.apart m' hlist m hm haddr)

/-- The entry under `/proc` has the name of the queue. -/
theorem linkManager_procEntry {entries : Entries VMQBufferManager} {m : Mgr} {n : Name} :
    ((linkManager entries m n).mem m).procEntry = some n := by
  have hself := Entries.modify_mem_self (r := entries) (a := m) fun mgr =>
    { mgr with procEntry := some n }
  exact congrArg VMQBufferManager.procEntry hself

/-- A queue that was created is in the list, under the name it was given. -/
theorem of_vmqCreate {a : Vmshm.Addr} {m : Mgr} {crarg : VMQCreateParam}
    (hcreate : QueueRegistries.vmqCreate s a m (.ok crarg) = (t, .ok 0)) :
    m ∈ t.managers.list ∧ (t.managers.mem m).procEntry = some crarg.name := by
  rw [QueueRegistries.vmqCreate] at hcreate
  split at hcreate
  · cases hcreate
  · split at hcreate
    · cases hcreate
    · dsimp only at hcreate
      split at hcreate
      · cases hcreate
      · rw [QueueRegistries.createBufferManager] at hcreate
        split at hcreate
        · next hmade =>
            split at hmade <;> cases hmade
            cases hcreate
        · next hmade =>
            split at hmade <;> cases hmade
            cases hcreate
            constructor
            · exact List.mem_append_right _ (List.mem_singleton_self m)
            · exact linkManager_procEntry

/-- **The names of queues.**  A call with a name stays inside all arrays exactly
if the name has fewer than 64 bytes, and what `VMQ_CREATE` then puts into its
entry is that name.  After every sequence of operations with such names a lookup
finds a manager under the name it was created under, and under no other of any
length. -/
theorem queue_names (hf : f.Inside) :
    (∀ names size memory,
      ((vmqCreate names size memory f user).1.Inside ↔ user.strlen < vmshmMaxNameLength) ∧
      ((vmshmIoctlCreate names size memory f user).1.Inside ↔
        user.strlen < vmshmMaxNameLength) ∧
      (user.strlen < vmshmMaxNameLength → (vmqCreate names size memory f user).2 = .ok () →
        ∃ h, (CString.mk (vmqCreate names size memory f user).1.memName.bytes h).text =
          user.text)) ∧
    (∀ managers,
      ((vmqSetup managers f user).1.Inside ↔ user.strlen < vmshmMaxNameLength) ∧
      ((vmqRemove managers f user).1.Inside ↔ user.strlen < vmshmMaxNameLength)) ∧
    (∀ (s t : Registries) a m crarg,
      QueueRegistries.vmqCreate s a m (.ok crarg) = (t, .ok 0) →
        m ∈ t.managers.list ∧ (t.managers.mem m).procEntry = some crarg.name) ∧
    ∀ mem mgr tr s, Run QueueRegistries.Step (QueueRegistries.init mem mgr) tr s →
      ∀ names, Stored s names → ∀ m ∈ s.managers.list, ∀ n,
        (s.managers.mem m).procEntry = some n →
          ((lookupBufferManager (managersOf s names) (nameOf f.name user) f).2 = some m ↔
            user.text = n.bytes) := by
  refine ⟨fun names size memory => ⟨vmqCreate_inside hf, vmqCreate_inside hf, vmqCreate_text⟩,
    fun managers => ⟨withName_lookup_inside hf, withName_lookup_inside hf⟩,
    fun s t a m crarg => of_vmqCreate, ?_⟩
  intro mem mgr tr s hrun names hnames m hm n hn
  have hinv : QueueRegistries.Inv s := hrun.invariant QueueRegistries.Inv
    (QueueRegistries.Inv.init mem mgr) fun s op t hs hstep => hs.step hstep
  exact lookup_iff hinv hnames hm hn

/-- A string of `n` bytes that are all `a`. -/
def manyA (n : Nat) : CString where
  bytes := fun i => if i < n then 97 else 0
  terminated := ⟨n, if_neg (lt_irrefl n)⟩

/-- The name of the example is as long as it says. -/
theorem strlen_manyA (n : Nat) : (manyA n).strlen = n := by
  refine CString.strlen_eq_iff.mpr ⟨if_neg (lt_irrefl n), fun i hi => ?_⟩
  show (if i < n then (97 : UInt8) else 0) ≠ 0
  rw [if_pos hi]
  decide

/-- Arrays nothing has been stored in. -/
def blank : Frame where
  name := ⟨fun _ => 0, false⟩
  shmname := ⟨fun _ => 0, false⟩
  memName := ⟨fun _ => 0, false⟩

/-- The name of the small queue, which is found after its creation. -/
theorem queue_names_small_queue :
    (vmqCreate [] 4096 true blank (manyA 1)).1.Inside ∧
      (lookupBufferManager (managersOf QueueRegistries.withSmallQueue fun _ => manyA 1)
        (nameOf blank.name (manyA 1)) blank).2 = some 9 := by
  have htext : (manyA 1).text = QueueRegistries.smallQueue.name.bytes := by
    rw [CString.text, strlen_manyA]
    rfl
  obtain ⟨hinside, -, hcreate, hlookup⟩ :=
    @queue_names (manyA 1) blank ⟨rfl, rfl, rfl⟩
  constructor
  · refine (hinside [] 4096 true).1.mpr ?_
    rw [strlen_manyA]
    decide
  · obtain ⟨hm, hn⟩ := hcreate (QueueRegistries.init
      (fun _ => Vmshm.newMemory QueueRegistries.smallQueue.name 0 0 0) fun _ => ⟨0, 0, none⟩)
      QueueRegistries.withSmallQueue 7 9 QueueRegistries.smallQueue rfl
    refine (hlookup _ _ _ _ QueueRegistries.withSmallQueue_run _ ?_ 9 hm _ hn).mpr htext
    intro m hm
    obtain rfl := List.mem_singleton.mp hm
    exact htext

/-- A name of 64 bytes is accepted and stored past the end of the array. -/
theorem long_name_overruns :
    (vmqCreate [] 4096 true blank (manyA 64)).2 = .ok () ∧
      ¬ (vmqCreate [] 4096 true blank (manyA 64)).1.Inside := by
  have hfirst : (copyName blank.name (manyA 64)).bytes 0 = 97 := by
    rw [copyName_bytes (by rw [strlen_manyA]; decide)]
    rfl
  constructor
  · rw [vmqCreate, withName]
    dsimp only
    rw [if_neg (by rw [hfirst]; decide)]
    rfl
  · intro hinside
    have hlt := (vmqCreate_inside ⟨rfl, rfl, rfl⟩).mp hinside
    rw [strlen_manyA] at hlt
    exact absurd hlt (by decide)

end QueueNames

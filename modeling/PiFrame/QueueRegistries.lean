import PiFrame.VmshmDriver

/-!
# The registries of both drivers

A queue is a buffer manager in `vmq_buffer_list` of `drivers/vmq/main.c`
together with a shared memory in `vmshm_list` of `drivers/vmshm/main.c`.  The
first driver creates both and removes both, the memory by the functions that
the second one exports, and it ignores what `vmshm_remove` answers.  The handles
of `/dev/vmshm` can select the memory of a queue as any other.

Here operations follow one another, each of them complete before the next one
begins, and whatever they allocate or register they get.  The memory of a queue
is then always registered and referenced, and it goes away with the queue
exactly when no handle has it selected.
-/

namespace QueueRegistries

open Headcount LinkedEntries Transition
open Vmshm (Addr Errno File Filp Ioctl Name Referenced Registry addRefcnt lookup newMemory
  of_lookup vmshmRemove vmshmSelect vmshmUnselect)

/-- The address of a `struct VMQBufferManager`. -/
abbrev Mgr := Nat

/-- `struct VMQBufferManager`; `procEntry` is the name of the proc entry it
points to. -/
structure VMQBufferManager where
  mem : Addr
  refcnt : Int
  procEntry : Option Name
  deriving DecidableEq

/-- `struct VMQCreateParam`. -/
structure VMQCreateParam where
  name : Name
  size : BitVec 32
  perm : BitVec 32
  flags : BitVec 32
  pageSize : BitVec 32

/-- Both drivers. -/
structure Registries where
  reg : Registry
  managers : Entries VMQBufferManager
  files : Filp → File

namespace Registries

def withReg (s : Registries) (reg : Registry) : Registries :=
  { s with reg }

def withManagers (s : Registries) (managers : Entries VMQBufferManager) : Registries :=
  { s with managers }

def withFile (s : Registries) (h : Filp) (f : File) : Registries :=
  { s with files := Function.update s.files h f }

end Registries

/-- What an operation returns. -/
abbrev Result := Except Errno (BitVec 32)

/-! ## `drivers/vmshm/main.c` -/

/-- `vmshm_create`; the new entry gets address `a`. -/
def vmshmCreate (r : Registry) (name : Name) (size perm flags : BitVec 32) (a : Addr) :
    Registry × Except Errno Addr :=
  match lookup r name with
  | (r, some _) => (r, .error .eexist)
  | (r, none) =>
      if size.toInt ≤ 0 then (r, .error .einval)
      else ((r.kzalloc a (newMemory name size perm flags)).listAddTail a, .ok a)

/-- `vmshm_ioctl` on a handle with the given `private_data`. -/
def vmshmIoctl (s : Registries) (h : Filp) (privateData : Option Addr) (a : Addr) :
    Ioctl → Registries × Result
  | .create none => (s, .error .efault)
  | .create (some (name, size, perm, flags)) =>
      if name.bytes = [] then (s, .error .einval)
      else
        match vmshmCreate s.reg name size perm flags a with
        | (reg, .error e) => (s.withReg reg, .error e)
        | (reg, .ok _) => (s.withReg reg, .ok 0)
  | .remove none => (s, .error .efault)
  | .remove (some name) =>
      if name.bytes = [] then (s, .error .einval)
      else
        match lookup s.reg name with
        | (reg, none) => (s.withReg reg, .error .enoent)
        | (reg, some mem) =>
            match vmshmRemove reg mem with
            | (reg, none) => (s.withReg reg, .ok 0)
            | (reg, some e) => (s.withReg reg, .error e)
  | .select name =>
      match privateData with
      | some _ => (s, .error .ebusy)
      | none =>
          match name with
          | none => (s, .error .efault)
          | some name =>
              match vmshmSelect s.reg name with
              | (reg, none) => (s.withReg reg, .error .enoent)
              | (reg, some mem) =>
                  ((s.withReg (reg.touch mem)).withFile h (.opened (some mem)),
                    .ok (reg.mem mem).size)
  | .unselect =>
      match privateData with
      | none => (s, .error .einval)
      | some mem => ((s.withReg (vmshmUnselect s.reg mem)).withFile h (.opened none), .ok 0)

/-- `vmshm_release`. -/
def vmshmRelease (s : Registries) (h : Filp) : Option Addr → Registries
  | none => s.withFile h .closed
  | some mem => (s.withReg (addRefcnt s.reg mem (-1))).withFile h .closed

/-! ## `drivers/vmq/main.c` -/

/-- `BA_MIN_PAGE_MASK`, which a page size must not meet. -/
def baMinPageMask : BitVec 32 := 127

/-- `create_buffer_manager`; the new manager gets address `m`.  The only thing
that can go wrong is that `ba_create` does not like the page size. -/
def createBufferManager (managers : Entries VMQBufferManager) (mem : Addr) (pageSize : BitVec 32)
    (m : Mgr) : Entries VMQBufferManager × Except Errno Mgr :=
  let managers := managers.kzalloc m ⟨mem, 0, none⟩
  if pageSize &&& baMinPageMask ≠ 0 then (managers.kfree m, .error .enomem)
  else (managers, .ok m)

/-- `remove_buffer_manager`. -/
def removeBufferManager (s : Registries) (m : Mgr) : Registries :=
  let mem := (s.managers.mem m).mem
  let reg := vmshmUnselect s.reg mem
  let reg := (vmshmRemove reg mem).1
  (s.withReg reg).withManagers ((s.managers.touch m).kfree m)

/-- The loop of `lookup_buffer_manager`. -/
def lookupManager (s : Registries) (name : Name) : List Mgr → Registries × Option Mgr
  | [] => (s, none)
  | m :: rest =>
      let mem := (s.managers.mem m).mem
      let s := (s.withManagers (s.managers.touch m)).withReg (s.reg.touch mem)
      if (s.reg.mem mem).name = name then (s, some m) else lookupManager s name rest

/-- `lookup_buffer_manager`. -/
def lookupBufferManager (s : Registries) (name : Name) : Registries × Option Mgr :=
  lookupManager s name s.managers.list

/-- The new manager gets its proc entry and goes into the list. -/
def linkManager (managers : Entries VMQBufferManager) (m : Mgr) (name : Name) :
    Entries VMQBufferManager :=
  (managers.modify m fun mgr => { mgr with procEntry := some name }).listAddTail m

/-- `vmq_create`; the new memory and the new manager get addresses `a` and
`m`. -/
def vmqCreate (s : Registries) (a : Addr) (m : Mgr) :
    Except Errno VMQCreateParam → Registries × Result
  | .error e => (s, .error e)
  | .ok crarg =>
      if crarg.name.bytes = [] then (s, .error .einval)
      else
        match vmshmCreate s.reg crarg.name crarg.size crarg.perm crarg.flags a with
        | (reg, .error e) => (s.withReg reg, .error e)
        | (reg, .ok mem) =>
            let (reg, selected) := vmshmSelect reg crarg.name
            if selected ≠ some mem then
              (s.withReg (vmshmRemove reg mem).1, .error .efault)
            else
              match createBufferManager s.managers mem crarg.pageSize m with
              | (managers, .error e) =>
                  let reg := vmshmUnselect reg mem
                  ((s.withReg (vmshmRemove reg mem).1).withManagers managers, .error e)
              | (managers, .ok mgr) =>
                  ((s.withReg reg).withManagers (linkManager managers mgr crarg.name), .ok 0)

/-- `vmq_remove`. -/
def vmqRemove (s : Registries) : Except Errno Name → Registries × Result
  | .error e => (s, .error e)
  | .ok name =>
      if name.bytes = [] then (s, .error .einval)
      else
        match lookupBufferManager s name with
        | (s, none) => (s, .error .enoent)
        | (s, some m) =>
            let managers := s.managers.touch m
            if (s.managers.mem m).refcnt ≠ 0 then (s.withManagers managers, .error .ebusy)
            else (removeBufferManager (s.withManagers (managers.listDel m)) m, .ok 0)

/-! ## Sequences of operations -/

/-- An operation with its arguments, or the error met when they are copied. -/
inductive Op
  | vmqCreate (arg : Except Errno VMQCreateParam)
  | vmqRemove (name : Except Errno Name)
  | vmshmIoctl (h : Filp) (call : Ioctl)
  | close (h : Filp)

/-- One complete operation.  The allocator hands out addresses that are not in
use.  A creation with page size zero is refused before `ba_create` divides by
it, or it is never complete. -/
inductive Step : Registries → Op × Result → Registries → Prop
  | vmqCreate {s t : Registries} {arg : Except Errno VMQCreateParam} {a : Addr} {m : Mgr}
      {result : Result}
      (page : ∀ crarg, arg = .ok crarg → crarg.pageSize = 0 → ∃ e, result = .error e)
      (fresh : a ∉ s.reg.live) (freshMgr : m ∉ s.managers.live)
      (outcome : vmqCreate s a m arg = (t, result)) :
      Step s (.vmqCreate arg, result) t
  | vmqRemove {s t : Registries} {name : Except Errno Name} {result : Result}
      (outcome : vmqRemove s name = (t, result)) :
      Step s (.vmqRemove name, result) t
  | vmshmIoctl {s t : Registries} {h : Filp} {p : Option Addr} {call : Ioctl} {a : Addr}
      {result : Result} (at_file : s.files h = .opened p) (fresh : a ∉ s.reg.live)
      (outcome : vmshmIoctl s h p a call = (t, result)) :
      Step s (.vmshmIoctl h call, result) t
  | close {s : Registries} {h : Filp} {p : Option Addr} (at_file : s.files h = .opened p) :
      Step s (.close h, .ok 0) (vmshmRelease s h p)

/-- Both drivers right after they were loaded. -/
def init (mem : Addr → Vmshm.VMSharedMemory) (mgr : Mgr → VMQBufferManager) : Registries where
  reg := { mem, live := ∅, list := [], fault := false }
  managers := { mem := mgr, live := ∅, list := [], fault := false }
  files := fun _ => .opened none

/-! ## What is kept -/

/-- What a file has selected. -/
def selection : File → Option Addr
  | .opened p => p
  | .closed => none

/-- What handles have selected and what managers in the list have. -/
def selections (managers : Entries VMQBufferManager) (files : Filp → File) :
    Filp ⊕ Mgr → Option Addr
  | .inl h => selection (files h)
  | .inr m => if m ∈ managers.list then some (managers.mem m).mem else none

/-- The managers in the list are sound. -/
structure Owned (r : Registry) (managers : Entries VMQBufferManager) : Prop where
  nodup : managers.list.Nodup
  live : ∀ m ∈ managers.list, m ∈ managers.live
  unused : ∀ m ∈ managers.list, (managers.mem m).refcnt = 0
  named : ∀ m ∈ managers.list,
    (managers.mem m).procEntry = some (r.mem (managers.mem m).mem).name
  apart : ∀ m ∈ managers.list, ∀ m' ∈ managers.list,
    (managers.mem m).mem = (managers.mem m').mem → m = m'
  sane : managers.fault = false

/-- Both registries are in order. -/
structure Inv (s : Registries) : Prop where
  refs : Referenced s.reg (selections s.managers s.files)
  owned : Owned s.reg s.managers

variable {s t : Registries} {r reg : Registry} {managers : Entries VMQBufferManager}
  {files : Filp → File} {selected : Filp ⊕ Mgr → Option Addr} {a : Addr} {m : Mgr} {h : Filp}
  {name : Name} {size perm flags : BitVec 32}

/-- Selecting by one file changes the selections of that file alone. -/
theorem selections_withFile (f : File) :
    selections managers (Function.update files h f) =
      Function.update (selections managers files) (.inl h) (selection f) := by
  funext u
  rcases u with g | m
  · by_cases hg : g = h
    · subst hg
      simp [selections]
    · simp [selections, hg]
  · simp [selections]

/-- Whether a manager owns its memory depends on the name of the memory. -/
theorem Owned.congr (ho : Owned r managers)
    (hname : ∀ m ∈ managers.list,
      (reg.mem (managers.mem m).mem).name = (r.mem (managers.mem m).mem).name) :
    Owned reg managers :=
  ⟨ho.nodup, ho.live, ho.unused, fun m hm => (hname m hm).symm ▸ ho.named m hm, ho.apart, ho.sane⟩

/-- The memory of a manager is registered. -/
theorem Inv.mem_list (hinv : Inv s) (hm : m ∈ s.managers.list) :
    (s.managers.mem m).mem ∈ s.reg.list := by
  apply hinv.refs.held (.inr m)
  simp [selections, hm]

/-! ## The operations -/

/-- Either nothing is created, or a new entry with a new name is, and it is the last of the list. -/
theorem of_vmshmCreate (hr : Referenced r selected) (hfresh : a ∉ r.live)
    {result : Except Errno Addr} (hcreate : vmshmCreate r name size perm flags a = (reg, result)) :
    Referenced reg selected ∧ ((∃ e, result = .error e ∧ reg = r) ∨
      result = .ok a ∧ a ∈ reg.list ∧ (reg.mem a).name = name ∧ (reg.mem a).refcnt = 0 ∧
        a ∉ r.list ∧ ∀ b ∈ r.list, reg.mem b = r.mem b) := by
  rw [vmshmCreate] at hcreate
  cases hlookup : lookup r name with
  | mk r' found =>
      obtain ⟨rfl, -, hnone⟩ := of_lookup hr.live hlookup
      rw [hlookup] at hcreate
      cases found with
      | some b =>
          cases hcreate
          exact ⟨hr, .inl ⟨_, rfl, rfl⟩⟩
      | none =>
          dsimp only at hcreate
          split at hcreate
          · cases hcreate
            exact ⟨hr, .inl ⟨_, rfl, rfl⟩⟩
          · cases hcreate
            have hout : a ∉ r'.list := fun ha => hfresh (hr.live a ha)
            have hself : (r'.kzalloc a (newMemory name size perm flags)).mem a =
                newMemory name size perm flags := Function.update_self ..
            have hother : ∀ b ∈ r'.list,
                (r'.kzalloc a (newMemory name size perm flags)).mem b = r'.mem b := by
              intro b hb
              have hne : b ≠ a := fun heq => hout (heq ▸ hb)
              exact Entries.kzalloc_mem_of_ne hne
            refine ⟨?_, .inr ⟨rfl, ?_, ?_, ?_, hout, hother⟩⟩
            · apply (hr.build hfresh _).link (Finset.mem_insert_self ..) hout
              · rw [hself]
                rfl
              · intro b hb
                rw [hself, hother b hb]
                exact hnone rfl b hb
            · exact List.mem_append_right _ (List.mem_singleton_self a)
            · exact congrArg Vmshm.VMSharedMemory.name hself
            · exact congrArg Vmshm.VMSharedMemory.refcnt hself

/-- A handle selects or gives up, and the managers do not notice. -/
theorem Inv.withFile (hinv : Inv s) {f : File} (i : Int)
    (hrefs : Referenced (addRefcnt s.reg a i)
      (Function.update (selections s.managers s.files) (.inl h) (selection f))) :
    Inv ((s.withReg (addRefcnt s.reg a i)).withFile h f) := by
  constructor
  · exact (selections_withFile f).symm ▸ hrefs
  · exact hinv.owned.congr fun m _ => Vmshm.addRefcnt_name i _

/-- Something happens to the list that no manager notices. -/
theorem Inv.withReg (hinv : Inv s) (hrefs : Referenced reg (selections s.managers s.files))
    (hname : ∀ b ∈ s.reg.list, (reg.mem b).name = (s.reg.mem b).name) : Inv (s.withReg reg) :=
  ⟨hrefs, hinv.owned.congr fun _ hm => hname _ (hinv.mem_list hm)⟩

/-- An entry is removed if nobody has it. -/
theorem of_vmshmRemove (hr : Referenced r selected) (ha : a ∈ r.list) :
    Referenced (vmshmRemove r a).1 selected ∧ (vmshmRemove r a).1.mem = r.mem ∧
      (vmshmRemove r a).1.list = if (r.mem a).refcnt = 0 then r.list.erase a else r.list := by
  have hlive := hr.live a ha
  by_cases hzero : (r.mem a).refcnt = 0
  · rw [Vmshm.vmshmRemove_of_zero hlive hzero, if_pos hzero]
    refine ⟨hr.remove ha hzero, ?_, ?_⟩
    · rw [Vmshm.remove_of_live hlive ha]
    · rw [Vmshm.remove_of_live hlive ha]
  · rw [Vmshm.vmshmRemove_of_ne hlive hzero, if_neg hzero]
    exact ⟨hr, rfl, rfl⟩

/-- A call of the memory driver keeps the registries in step.  It may select a queue's memory
and so count it up, but it cannot remove what a queue has selected. -/
theorem Inv.vmshmIoctl (hinv : Inv s) {p : Option Addr} {call : Ioctl} {result : Result}
    (hfile : s.files h = .opened p) (hfresh : a ∉ s.reg.live)
    (hcall : vmshmIoctl s h p a call = (t, result)) : Inv t := by
  have hsel : selections s.managers s.files (.inl h) = p := congrArg selection hfile
  cases call with
  | create arg =>
      rcases arg with _ | ⟨name, size, perm, flags⟩
      · cases hcall
        exact hinv
      · rw [QueueRegistries.vmshmIoctl] at hcall
        split at hcall
        · cases hcall
          exact hinv
        · cases hcreate : vmshmCreate s.reg name size perm flags a with
          | mk reg result =>
              obtain ⟨hrefs, hcases⟩ := of_vmshmCreate hinv.refs hfresh hcreate
              have hmem : ∀ b ∈ s.reg.list, (reg.mem b).name = (s.reg.mem b).name := by
                intro b hb
                rcases hcases with ⟨e, -, rfl⟩ | ⟨-, -, -, -, -, hother⟩
                · rfl
                · rw [hother b hb]
              rw [hcreate] at hcall
              cases result <;> cases hcall <;> exact hinv.withReg hrefs hmem
  | remove arg =>
      rcases arg with _ | name
      · cases hcall
        exact hinv
      · rw [QueueRegistries.vmshmIoctl] at hcall
        split at hcall
        · cases hcall
          exact hinv
        · cases hlookup : lookup s.reg name with
          | mk reg found =>
              obtain ⟨rfl, hsome, -⟩ := of_lookup hinv.refs.live hlookup
              rw [hlookup] at hcall
              rcases found with _ | b
              · cases hcall
                exact hinv
              · obtain ⟨hrefs, hmem, -⟩ := of_vmshmRemove hinv.refs (hsome b rfl).1
                cases hremove : vmshmRemove s.reg b with
                | mk reg err =>
                    rw [hremove] at hrefs hmem
                    have hinv' := hinv.withReg hrefs fun b _ => by rw [hmem]
                    dsimp only at hcall
                    rw [hremove] at hcall
                    cases err <;> cases hcall <;> exact hinv'
  | select arg =>
      cases p with
      | some b =>
          cases hcall
          exact hinv
      | none =>
          rcases arg with _ | name
          · cases hcall
            exact hinv
          · rw [QueueRegistries.vmshmIoctl] at hcall
            cases hselect : vmshmSelect s.reg name with
            | mk reg found =>
                rw [hselect] at hcall
                rcases found with _ | b
                · obtain ⟨rfl, -⟩ := Vmshm.vmshmSelect_missing hinv.refs.live hselect
                  cases hcall
                  exact hinv
                · obtain ⟨-, hb, -, rfl⟩ := Vmshm.vmshmSelect_found hinv.refs.live hselect
                  have hlive : b ∈ (addRefcnt s.reg b 1).live := hinv.refs.live b hb
                  cases hcall
                  rw [Entries.touch_of_live hlive]
                  exact hinv.withFile 1 (hinv.refs.select hb hsel)
  | unselect =>
      cases p with
      | none =>
          cases hcall
          exact hinv
      | some b =>
          cases hcall
          exact hinv.withFile (-1) (hinv.refs.unselect hsel)

/-- Closing a file of the memory driver keeps the registries in step. -/
theorem Inv.vmshmRelease (hinv : Inv s) {p : Option Addr} (hfile : s.files h = .opened p) :
    Inv (vmshmRelease s h p) := by
  have hsel : selections s.managers s.files (.inl h) = p := congrArg selection hfile
  cases p with
  | none =>
      refine ⟨?_, hinv.owned⟩
      have hsame : selections s.managers (Function.update s.files h .closed) =
          selections s.managers s.files := by
        rw [selections_withFile]
        exact Function.update_eq_self_iff.mpr hsel.symm
      exact hsame.symm ▸ hinv.refs
  | some b => exact hinv.withFile (-1) (hinv.refs.unselect hsel)

/-- The new manager has its memory. -/
theorem selections_linkManager :
    selections (linkManager (managers.kzalloc m ⟨a, 0, none⟩) m name) files =
      Function.update (selections managers files) (.inr m) (some a) := by
  funext u
  rcases u with g | m'
  · simp [selections]
  · by_cases hm : m' = m
    · subst hm
      simp [selections, linkManager, Entries.listAddTail, Entries.modify, Entries.touch,
        Entries.kzalloc]
    · simp [selections, linkManager, Entries.listAddTail, Entries.modify, Entries.touch,
        Entries.kzalloc, hm]

/-- A new manager comes into the list, with a memory that was nobody's before. -/
theorem Owned.link (ho : Owned r managers) (hfresh : m ∉ managers.live)
    (hnew : ∀ m ∈ managers.list, (managers.mem m).mem ≠ a) (hname : (r.mem a).name = name) :
    Owned r (linkManager (managers.kzalloc m ⟨a, 0, none⟩) m name) := by
  have hout : m ∉ managers.list := fun hm => hfresh (ho.live m hm)
  have hlist : (linkManager (managers.kzalloc m ⟨a, 0, none⟩) m name).list =
      managers.list ++ [m] := rfl
  have hlive : (linkManager (managers.kzalloc m ⟨a, 0, none⟩) m name).live =
      insert m managers.live := rfl
  have hsane : (linkManager (managers.kzalloc m ⟨a, 0, none⟩) m name).fault = false := by
    simp [linkManager, Entries.listAddTail, Entries.modify, Entries.touch, Entries.kzalloc,
      ho.sane]
  have hself : (linkManager (managers.kzalloc m ⟨a, 0, none⟩) m name).mem m =
      ⟨a, 0, some name⟩ := by
    simp [linkManager, Entries.listAddTail, Entries.modify, Entries.touch, Entries.kzalloc]
  have hother : ∀ m' ∈ managers.list,
      (linkManager (managers.kzalloc m ⟨a, 0, none⟩) m name).mem m' = managers.mem m' := by
    intro m' hm'
    have hne : m' ≠ m := fun heq => hout (heq ▸ hm')
    simp [linkManager, Entries.listAddTail, Entries.modify, Entries.touch, Entries.kzalloc, hne]
  generalize linkManager (managers.kzalloc m ⟨a, 0, none⟩) m name = new at *
  have hmem : ∀ m' ∈ new.list, m' ∈ managers.list ∧ new.mem m' = managers.mem m' ∨ m' = m := by
    intro m' hm'
    rw [hlist, List.mem_append, List.mem_singleton] at hm'
    exact hm'.imp_left fun hm' => ⟨hm', hother m' hm'⟩
  refine ⟨?_, fun m' hm' => ?_, fun m' hm' => ?_, fun m' hm' => ?_, fun m₁ hm₁ m₂ hm₂ heq => ?_,
    hsane⟩
  · rw [hlist]
    exact List.nodup_append'.mpr ⟨ho.nodup, List.nodup_singleton m,
      List.disjoint_singleton.mpr hout⟩
  · rw [hlive, Finset.mem_insert]
    exact (hmem m' hm').elim (fun hold => .inr (ho.live m' hold.1)) .inl
  · rcases hmem m' hm' with ⟨hold, hm'⟩ | rfl
    · rw [hm']
      exact ho.unused m' hold
    · rw [hself]
  · rcases hmem m' hm' with ⟨hold, hm'⟩ | rfl
    · rw [hm']
      exact ho.named m' hold
    · rw [hself, hname]
  · rcases hmem m₁ hm₁ with ⟨hold₁, hm₁⟩ | rfl <;> rcases hmem m₂ hm₂ with ⟨hold₂, hm₂⟩ | rfl
    · rw [hm₁, hm₂] at heq
      exact ho.apart m₁ hold₁ m₂ hold₂ heq
    · rw [hm₁, hself] at heq
      exact absurd heq (hnew m₁ hold₁)
    · rw [hm₂, hself] at heq
      exact absurd heq.symm (hnew m₂ hold₂)
    · rfl

/-- A manager that was allocated and is freed again leaves the owners and the selections as they
were. -/
theorem Owned.kzalloc_kfree (ho : Owned r managers) (hfresh : m ∉ managers.live)
    (files : Filp → File) (mgr : VMQBufferManager) : Owned r ((managers.kzalloc m mgr).kfree m) ∧
      selections ((managers.kzalloc m mgr).kfree m) files = selections managers files := by
  have hne : ∀ m' ∈ managers.list, m' ≠ m := fun m' hm' heq => hfresh (heq ▸ ho.live m' hm')
  have hmem : ∀ m' ∈ managers.list,
      ((managers.kzalloc m mgr).kfree m).mem m' = managers.mem m' :=
    fun m' hm' => Entries.kzalloc_mem_of_ne (hne m' hm')
  have hsane : ((managers.kzalloc m mgr).kfree m).fault = false := by
    rw [Entries.kfree_of_live (Finset.mem_insert_self ..)]
    exact ho.sane
  refine ⟨⟨ho.nodup, fun m' hm' => ?_, fun m' hm' => ?_, fun m' hm' => ?_,
    fun m₁ hm₁ m₂ hm₂ heq => ?_, hsane⟩, ?_⟩
  · exact Finset.mem_erase.mpr ⟨hne m' hm', Finset.mem_insert_of_mem (ho.live m' hm')⟩
  · rw [hmem m' hm']
    exact ho.unused m' hm'
  · rw [hmem m' hm']
    exact ho.named m' hm'
  · rw [hmem m₁ hm₁, hmem m₂ hm₂] at heq
    exact ho.apart m₁ hm₁ m₂ hm₂ heq
  · funext u
    rcases u with g | m'
    · rfl
    · by_cases hm' : m' ∈ managers.list
      · have hlist : m' ∈ ((managers.kzalloc m mgr).kfree m).list := hm'
        simp only [selections, hm', hlist, if_true, hmem m' hm']
      · have hlist : m' ∉ ((managers.kzalloc m mgr).kfree m).list := hm'
        simp only [selections, hm', hlist, if_false]

/-- Whatever becomes of `vmq_create`, both registries have the new entry or neither has it. -/
theorem Inv.vmqCreate (hinv : Inv s) (hfresh : a ∉ s.reg.live) (hfreshMgr : m ∉ s.managers.live)
    {arg : Except Errno VMQCreateParam} {result : Result}
    (hcreate : vmqCreate s a m arg = (t, result)) : Inv t := by
  rcases arg with e | crarg
  · cases hcreate
    exact hinv
  · rw [QueueRegistries.vmqCreate] at hcreate
    split at hcreate
    · cases hcreate
      exact hinv
    · cases hshm : vmshmCreate s.reg crarg.name crarg.size crarg.perm crarg.flags a with
      | mk reg shm =>
          obtain ⟨hrefs, hcases⟩ := of_vmshmCreate hinv.refs hfresh hshm
          rw [hshm] at hcreate
          rcases hcases with ⟨e, rfl, rfl⟩ | ⟨rfl, ha, hname, hzero, hout, hother⟩
          · cases hcreate
            exact hinv
          · have hnone : selections s.managers s.files (.inr m) = none := by
              have hm : m ∉ s.managers.list := fun hm => hfreshMgr (hinv.owned.live m hm)
              simp [selections, hm]
            have hselect : vmshmSelect reg crarg.name = (addRefcnt reg a 1, some a) := by
              rw [← hname]
              exact hrefs.vmshmSelect_of_mem ha
            have howned : Owned (addRefcnt reg a 1) s.managers := by
              apply hinv.owned.congr
              intro m' hm'
              rw [Vmshm.addRefcnt_name, hother _ (hinv.mem_list hm')]
            have hrefs' := hrefs.select ha hnone
            dsimp only at hcreate
            rw [hselect] at hcreate
            dsimp only at hcreate
            rw [if_neg (fun hne => hne rfl), createBufferManager] at hcreate
            by_cases hpage : crarg.pageSize &&& baMinPageMask ≠ 0
            · rw [if_pos hpage] at hcreate
              cases hcreate
              obtain ⟨howned', hsel⟩ := howned.kzalloc_kfree hfreshMgr s.files
                ⟨a, 0, none⟩
              have hback := hrefs'.unselect (h := .inr m) (Function.update_self ..)
              rw [Function.update_idem, Function.update_eq_self_iff.mpr hnone.symm] at hback
              obtain ⟨hremoved, hmem, -⟩ := of_vmshmRemove hback ha
              have hnames : ∀ b,
                  ((vmshmRemove (vmshmUnselect (addRefcnt reg a 1) a) a).1.mem b).name =
                  ((addRefcnt reg a 1).mem b).name := by
                intro b
                rw [hmem]
                exact Vmshm.addRefcnt_name (-1) b
              refine ⟨?_, howned'.congr fun m' _ => hnames _⟩
              exact hsel.symm ▸ hremoved
            · rw [if_neg hpage] at hcreate
              cases hcreate
              refine ⟨?_, howned.link hfreshMgr (fun m' hm' heq => ?_) ?_⟩
              · exact selections_linkManager.symm ▸ hrefs'
              · exact hout (heq ▸ hinv.mem_list hm')
              · rw [Vmshm.addRefcnt_name]
                exact hname

/-- Every manager that the lookup visits may be accessed, and so may its
memory. -/
theorem lookupManager_of_live {list : List Mgr}
    (hlive : ∀ m ∈ list, m ∈ s.managers.live ∧ (s.managers.mem m).mem ∈ s.reg.live) :
    lookupManager s name list =
      (s, list.find? fun m => (s.reg.mem (s.managers.mem m).mem).name = name) := by
  induction list with
  | nil => rfl
  | cons m list ih =>
      obtain ⟨hm, hmem⟩ := hlive m List.mem_cons_self
      have hrest := ih fun m' hm' => hlive m' (List.mem_cons_of_mem m hm')
      have htouch : (s.withManagers (s.managers.touch m)).withReg
          (s.reg.touch (s.managers.mem m).mem) = s := by
        rw [Entries.touch_of_live hm, Entries.touch_of_live hmem]
        rfl
      rw [lookupManager]
      simp only [htouch]
      by_cases hname : (s.reg.mem (s.managers.mem m).mem).name = name
      · simp [hname]
      · simp [hname, hrest]

/-- A lookup changes nothing and finds the manager whose memory has the name. -/
theorem Inv.of_lookup (hinv : Inv s) {found : Option Mgr}
    (hlookup : lookupBufferManager s name = (t, found)) :
    t = s ∧ (∀ m, found = some m → m ∈ s.managers.list ∧
        (s.reg.mem (s.managers.mem m).mem).name = name) := by
  rw [lookupBufferManager, lookupManager_of_live fun m hm => ⟨hinv.owned.live m hm,
    hinv.refs.live _ (hinv.mem_list hm)⟩, Prod.mk.injEq] at hlookup
  obtain ⟨rfl, rfl⟩ := hlookup
  refine ⟨rfl, fun m hm => ?_⟩
  have hname := List.find?_some hm
  exact ⟨List.mem_of_find?_eq_some hm, of_decide_eq_true hname⟩

/-- A manager goes out of the list and is freed, and the others keep their memories. -/
theorem Owned.remove (ho : Owned r managers) (files : Filp → File)
    (hm : m ∈ managers.list) :
    Owned r (((managers.listDel m).touch m).kfree m) ∧
      selections (((managers.listDel m).touch m).kfree m) files =
        Function.update (selections managers files) (.inr m) none := by
  have hlive := ho.live m hm
  have hdel := Entries.listDel_of_mem hlive hm
  have htouch : (managers.listDel m).touch m = managers.listDel m :=
    Entries.touch_of_live hlive
  have hfree : ((managers.listDel m).touch m).kfree m =
      { managers with list := managers.list.erase m, live := managers.live.erase m } := by
    rw [htouch, hdel]
    exact Entries.kfree_of_live (r := { managers with list := managers.list.erase m }) hlive
  rw [hfree]
  have hsub : ∀ m', m' ∈ managers.list.erase m ↔ m' ≠ m ∧ m' ∈ managers.list :=
    fun m' => ho.nodup.mem_erase_iff
  constructor
  · refine ⟨ho.nodup.erase m, fun m' hm' => ?_, fun m' hm' => ?_, fun m' hm' => ?_,
      fun m₁ hm₁ m₂ hm₂ heq => ?_, ho.sane⟩
    · exact Finset.mem_erase.mpr ⟨((hsub m').mp hm').1, ho.live m' ((hsub m').mp hm').2⟩
    · exact ho.unused m' ((hsub m').mp hm').2
    · exact ho.named m' ((hsub m').mp hm').2
    · exact ho.apart m₁ ((hsub m₁).mp hm₁).2 m₂ ((hsub m₂).mp hm₂).2 heq
  · funext u
    rcases u with g | m'
    · simp [selections]
    · by_cases hm' : m' = m
      · subst hm'
        simp [selections, hsub]
      · simp [selections, hsub, hm']

/-- A `VMQ_REMOVE` that succeeds takes a manager of that name away, and its
memory if nobody else has it. -/
theorem Inv.of_vmqRemove (hinv : Inv s) (hremove : vmqRemove s (.ok name) = (t, .ok 0)) :
    ∃ m ∈ s.managers.list, (s.reg.mem (s.managers.mem m).mem).name = name ∧ Inv t ∧
      t.managers.list = s.managers.list.erase m ∧ t.managers.mem = s.managers.mem ∧
      t.reg.list = (if (s.reg.mem (s.managers.mem m).mem).refcnt = 1 then
        s.reg.list.erase (s.managers.mem m).mem else s.reg.list) ∧
      (∀ b, (t.reg.mem b).name = (s.reg.mem b).name) ∧ name.bytes ≠ [] := by
  rw [vmqRemove] at hremove
  split at hremove
  · cases hremove
  · next hempty =>
    cases hlookup : lookupBufferManager s name with
    | mk s' found =>
        obtain ⟨rfl, hsome⟩ := hinv.of_lookup hlookup
        rw [hlookup] at hremove
        rcases found with _ | m
        · cases hremove
        · obtain ⟨hm, hname⟩ := hsome m rfl
          have hzero := hinv.owned.unused m hm
          dsimp only at hremove
          rw [if_neg (fun hne => hne hzero), Entries.touch_of_live (hinv.owned.live m hm)]
            at hremove
          cases hremove
          have ha := hinv.mem_list hm
          obtain ⟨howned, hsel⟩ := hinv.owned.remove s'.files hm
          have hheld : selections s'.managers s'.files (.inr m) =
              some (s'.managers.mem m).mem := by
            simp [selections, hm]
          have hback := hinv.refs.unselect hheld
          obtain ⟨hremoved, hmem, hlist⟩ := of_vmshmRemove hback ha
          have hnames : ∀ b, ((vmshmRemove (vmshmUnselect s'.reg (s'.managers.mem m).mem)
              (s'.managers.mem m).mem).1.mem b).name = (s'.reg.mem b).name := by
            intro b
            rw [hmem]
            exact Vmshm.addRefcnt_name (-1) b
          refine ⟨m, hm, hname, ⟨?_, howned.congr fun m' _ => hnames _⟩, rfl, rfl, ?_, hnames,
            hempty⟩
          · exact hsel.symm ▸ hremoved
          · have hcount : ((vmshmUnselect s'.reg (s'.managers.mem m).mem).mem
                (s'.managers.mem m).mem).refcnt = 0 ↔
                  (s'.reg.mem (s'.managers.mem m).mem).refcnt = 1 := by
              rw [vmshmUnselect, Vmshm.addRefcnt_self]
              omega
            refine hlist.trans ?_
            simp only [hcount]
            rfl

/-- A `VMQ_REMOVE` that fails changes nothing. -/
theorem Inv.vmqRemove_error (hinv : Inv s) {arg : Except Errno Name} {e : Errno}
    (hremove : vmqRemove s arg = (t, .error e)) : t = s := by
  rcases arg with e' | name
  · cases hremove
    rfl
  · rw [vmqRemove] at hremove
    split at hremove
    · cases hremove
      rfl
    · cases hlookup : lookupBufferManager s name with
      | mk s' found =>
          obtain ⟨rfl, hsome⟩ := hinv.of_lookup hlookup
          rw [hlookup] at hremove
          rcases found with _ | m
          · cases hremove
            rfl
          · have hzero := hinv.owned.unused m (hsome m rfl).1
            dsimp only at hremove
            rw [if_neg (fun hne => hne hzero)] at hremove
            cases hremove

theorem vmqRemove_ok {arg : Except Errno Name} {n : BitVec 32}
    (hremove : vmqRemove s arg = (t, .ok n)) : n = 0 ∧ ∃ name, arg = .ok name := by
  rcases arg with e | name
  · cases hremove
  · refine ⟨?_, name, rfl⟩
    rw [vmqRemove] at hremove
    split at hremove
    · cases hremove
    · split at hremove
      · cases hremove
      · dsimp only at hremove
        split at hremove
        · cases hremove
        · cases hremove
          rfl

/-! ## Sequences -/

theorem Inv.step {op : Op × Result} (hinv : Inv s) (hstep : Step s op t) : Inv t := by
  cases hstep with
  | vmqCreate page fresh freshMgr outcome => exact hinv.vmqCreate fresh freshMgr outcome
  | @vmqRemove _ arg result outcome =>
      rcases result with e | n
      · exact hinv.vmqRemove_error outcome ▸ hinv
      · obtain ⟨rfl, name, rfl⟩ := vmqRemove_ok outcome
        obtain ⟨m, -, -, hinv', -⟩ := hinv.of_vmqRemove outcome
        exact hinv'
  | vmshmIoctl at_file fresh outcome => exact hinv.vmshmIoctl at_file fresh outcome
  | close at_file => exact hinv.vmshmRelease at_file

/-- At the start there is neither a queue nor a memory. -/
theorem Inv.init (mem : Addr → Vmshm.VMSharedMemory) (mgr : Mgr → VMQBufferManager) :
    Inv (init mem mgr) := by
  constructor
  · apply Referenced.empty rfl ?_ rfl
    intro u
    cases u <;> rfl
  · constructor
    · exact List.nodup_nil
    · intro m hm
      cases hm
    · intro m hm
      cases hm
    · intro m hm
      cases hm
    · intro m hm
      cases hm
    · rfl

/-- The memory of every manager is registered under the name of the manager,
and somebody refers to it. -/
def Registries.Paired (s : Registries) : Prop :=
  ∀ m ∈ s.managers.list, ∃ name,
    (s.managers.mem m).procEntry = some name ∧ (s.managers.mem m).mem ∈ s.reg.list ∧
      (s.reg.mem (s.managers.mem m).mem).name = name ∧
      1 ≤ (s.reg.mem (s.managers.mem m).mem).refcnt

/-- Neither list has an entry of that name. -/
def Registries.Forgotten (s : Registries) (name : Name) : Prop :=
  (∀ m ∈ s.managers.list, (s.managers.mem m).procEntry ≠ some name) ∧
    ∀ a ∈ s.reg.list, (s.reg.mem a).name ≠ name

/-- Parameters that `vmq_create` has no objection to. -/
structure VMQCreateParam.Valid (crarg : VMQCreateParam) : Prop where
  named : crarg.name.bytes ≠ []
  size : 0 < crarg.size.toInt
  page : 0 < crarg.pageSize.toInt
  aligned : crarg.pageSize &&& baMinPageMask = 0

/-- `VMQ_CREATE` succeeds for every queue of that name. -/
def Registries.Creatable (s : Registries) (name : Name) : Prop :=
  ∀ crarg : VMQCreateParam, crarg.Valid → crarg.name = name →
    ∀ a ∉ s.reg.live, ∀ m ∉ s.managers.live, (vmqCreate s a m (.ok crarg)).2 = .ok 0

/-- No handle has memory of that name selected. -/
def Registries.Unselected (s : Registries) (name : Name) : Prop :=
  ∀ h a, s.files h = .opened (some a) → (s.reg.mem a).name ≠ name

/-- The invariant is enough: every queue has its memory. -/
theorem Inv.paired (hinv : Inv s) : s.Paired := by
  intro m hm
  have ha := hinv.mem_list hm
  refine ⟨_, hinv.owned.named m hm, ha, rfl, ?_⟩
  have hheld : selections s.managers s.files (.inr m) = some (s.managers.mem m).mem := by
    simp [selections, hm]
  exact (hinv.refs.counted _ ha).pos hheld

/-- Nothing stands in the way of a name that is not registered, so `vmq_create` makes the queue. -/
theorem Inv.creatable (hinv : Inv s) (hnew : ∀ a ∈ s.reg.list, (s.reg.mem a).name ≠ name) :
    s.Creatable name := by
  rintro crarg ⟨hnamed, hsize, -, haligned⟩ rfl a hfresh m hfreshMgr
  rw [QueueRegistries.vmqCreate, if_neg hnamed]
  cases hshm : vmshmCreate s.reg crarg.name crarg.size crarg.perm crarg.flags a with
  | mk reg shm =>
      obtain ⟨hrefs, hcases⟩ := of_vmshmCreate hinv.refs hfresh hshm
      have hok : shm = .ok a := by
        rw [vmshmCreate] at hshm
        cases hlookup : lookup s.reg crarg.name with
        | mk r found =>
            obtain ⟨rfl, hsome, -⟩ := Vmshm.of_lookup hinv.refs.live hlookup
            rw [hlookup] at hshm
            rcases found with _ | b
            · dsimp only at hshm
              rw [if_neg (by omega)] at hshm
              cases hshm
              rfl
            · exact absurd (hsome b rfl).2 (hnew b (hsome b rfl).1)
      rcases hcases with ⟨e, rfl, -⟩ | ⟨rfl, ha, hname, -⟩
      · cases hok
      · have hselect : vmshmSelect reg crarg.name = (addRefcnt reg a 1, some a) := by
          rw [← hname]
          exact hrefs.vmshmSelect_of_mem ha
        dsimp only
        rw [hselect]
        dsimp only
        rw [if_neg (fun hne => hne rfl), createBufferManager, if_neg (fun hne => hne haligned)]

/-- The memory of a manager has the count one exactly when no handle has it selected; the one is
the manager's own. -/
theorem Inv.refcnt_eq_one (hinv : Inv s) (hm : m ∈ s.managers.list) :
    (s.reg.mem (s.managers.mem m).mem).refcnt = 1 ↔
      ∀ h, s.files h ≠ .opened (some (s.managers.mem m).mem) := by
  have hheld : selections s.managers s.files (.inr m) = some (s.managers.mem m).mem := by
    simp [selections, hm]
  have ha := hinv.mem_list hm
  have hothers := (hinv.refs.counted _ ha).leave hheld fun u => Iff.rfl
  constructor
  · intro hone h hfile
    rw [hone] at hothers
    apply hothers.empty (.inl h)
    exact ⟨Sum.inl_ne_inr, congrArg selection hfile⟩
  · intro hnone
    by_contra hne
    obtain ⟨u, hu, hsel⟩ := hothers.exists (by omega)
    rcases u with h | m'
    · apply hnone h
      cases hfile : s.files h with
      | opened p =>
          rw [selections, hfile] at hsel
          exact congrArg File.opened hsel
      | closed =>
          rw [selections, hfile] at hsel
          cases hsel
    · rw [selections] at hsel
      split at hsel
      · next hm' =>
          exact hu (congrArg Sum.inr (hinv.owned.apart m' hm' m hm (Option.some.inj hsel)))
      · cases hsel

/-- **The registries stay in step.**  After every sequence of operations the
memory of every queue is registered and referenced.  A `VMQ_REMOVE` that
succeeds then leaves nothing of that name, and the queue can be created again,
exactly when no handle has its memory selected. -/
theorem registries_in_step {mem : Addr → Vmshm.VMSharedMemory} {mgr : Mgr → VMQBufferManager}
    {tr : List (Op × Result)} (hrun : Run Step (init mem mgr) tr s) :
    s.Paired ∧ ∀ name t, vmqRemove s (.ok name) = (t, .ok 0) →
      (t.Forgotten name ∧ t.Creatable name ↔ s.Unselected name) := by
  have hinv : Inv s := hrun.invariant Inv (Inv.init mem mgr) fun s op t hs hstep => hs.step hstep
  refine ⟨hinv.paired, fun name t hremove => ?_⟩
  obtain ⟨m, hm, rfl, hinv', hlist, hmem, hreg, hnames, -⟩ := hinv.of_vmqRemove hremove
  have ha := hinv.mem_list hm
  -- the only entry of that name is the memory of the queue
  have honly : ∀ b ∈ s.reg.list, (s.reg.mem b).name = (s.reg.mem (s.managers.mem m).mem).name →
      b = (s.managers.mem m).mem := fun b hb hname => hinv.refs.eq_of_name hb ha hname
  have hunselected : s.Unselected (s.reg.mem (s.managers.mem m).mem).name ↔
      (s.reg.mem (s.managers.mem m).mem).refcnt = 1 := by
    rw [hinv.refcnt_eq_one hm]
    constructor
    · intro hnone h hfile
      exact hnone h _ hfile rfl
    · intro hnone h b hfile hname
      have hb := hinv.refs.held (.inl h) b (congrArg selection hfile)
      exact hnone h (honly b hb hname ▸ hfile)
  rw [hunselected]
  constructor
  · rintro ⟨⟨-, hgone⟩, -⟩
    by_contra hne
    rw [if_neg hne] at hreg
    exact hgone _ (hreg ▸ ha) (hnames _)
  · intro hone
    rw [if_pos hone] at hreg
    have hgone : ∀ b ∈ t.reg.list,
        (t.reg.mem b).name ≠ (s.reg.mem (s.managers.mem m).mem).name := by
      intro b hb hname
      rw [hreg, hinv.refs.list_nodup.mem_erase_iff] at hb
      exact hb.1 (honly b hb.2 ((hnames b).symm.trans hname))
    refine ⟨⟨fun m' hm' hproc => ?_, hgone⟩, hinv'.creatable hgone⟩
    have hnamed := hinv'.owned.named m' hm'
    rw [hproc] at hnamed
    exact hgone _ (hinv'.mem_list hm') (Option.some.inj hnamed).symm

/-- The parameters of a queue `a` with pages of 128 bytes. -/
def smallQueue : VMQCreateParam where
  name := ⟨[97], by decide⟩
  size := 4096
  perm := 0
  flags := 0
  pageSize := 128

/-- Both drivers after the queue has been created. -/
def withSmallQueue : Registries :=
  (vmqCreate (init (fun _ => newMemory smallQueue.name 0 0 0) fun _ => ⟨0, 0, none⟩) 7 9
    (.ok smallQueue)).1

theorem withSmallQueue_run :
    Run Step (init (fun _ => newMemory smallQueue.name 0 0 0) fun _ => ⟨0, 0, none⟩)
      [(.vmqCreate (.ok smallQueue), .ok 0)] withSmallQueue := by
  have hok : (vmqCreate (init (fun _ => newMemory smallQueue.name 0 0 0) fun _ => ⟨0, 0, none⟩)
      7 9 (.ok smallQueue)).2 = .ok 0 := rfl
  have hpage : ∀ crarg, (.ok smallQueue : Except Errno _) = .ok crarg → crarg.pageSize = 0 →
      ∃ e, (Except.ok 0 : Result) = .error e := by
    intro crarg hcrarg hzero
    cases hcrarg
    cases hzero
  apply Run.single
  exact Step.vmqCreate hpage (Finset.notMem_empty 7) (Finset.notMem_empty 9) (Prod.ext rfl hok)

/-- The queue is removed, and no handle is there. -/
theorem registries_in_step_small_queue : ∃ t,
    vmqRemove withSmallQueue (.ok smallQueue.name) = (t, .ok 0) ∧
      withSmallQueue.Paired ∧ t.Forgotten smallQueue.name ∧ t.Creatable smallQueue.name := by
  obtain ⟨hpaired, hremove⟩ := registries_in_step withSmallQueue_run
  obtain ⟨hgone, hagain⟩ := (hremove smallQueue.name _ rfl).mpr fun h a hfile => by cases hfile
  exact ⟨_, rfl, hpaired, hgone, hagain⟩

/-- A handle selects the memory of a queue, the queue is removed, and its name
is still taken. -/
theorem memory_outlives_queue : ∃ mem mgr tr s t, Run Step (init mem mgr) tr s ∧
    vmqRemove s (.ok smallQueue.name) = (t, .ok 0) ∧ ¬ t.Forgotten smallQueue.name ∧
      (vmqCreate t 8 10 (.ok smallQueue)).2 = .error .eexist := by
  have hrun := withSmallQueue_run.snoc (@Step.vmshmIoctl withSmallQueue _ 0 none
    (.select (some smallQueue.name)) 8 _ rfl (by decide) rfl)
  refine ⟨_, _, _, _, _, hrun, rfl, ?_, rfl⟩
  rintro ⟨-, hgone⟩
  exact hgone 7 (List.mem_singleton_self 7) rfl

end QueueRegistries

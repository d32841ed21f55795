import PiFrame.Headcount
import PiFrame.LinkedEntries

/-!
# The registry of shared memories

`drivers/vmshm/main.c` keeps all shared memories in `vmshm_list`.  Its entries
are referred to by their addresses, in the list, in the private data of the
open files, in the local variables of the calls in flight and in the queues of
the other driver; nothing but `refcnt` keeps an entry alive.

The functions here are the sections under `vmshm_mutex`.  Both drivers call
them.
-/

namespace Vmshm

open Headcount LinkedEntries

/-- The address of a `struct VMSharedMemory`. -/
abbrev Addr := Nat

def vmshmMaxNameLength : Nat := 64

/-- A name as the driver can hold it, without its terminator.  A longer one is
written past the end of `name[VMSHM_MAX_NAME_LENGTH]`, and nothing can be said
about what happens then. -/
structure Name where
  bytes : List UInt8
  short : bytes.length < vmshmMaxNameLength
  deriving DecidableEq

inductive Errno
  | einval | ebusy | efault | enoent | enomem | eexist
  deriving DecidableEq, Repr

/-- `struct VMSharedMemory`. -/
structure VMSharedMemory where
  size : BitVec 32
  perm : BitVec 32
  flags : BitVec 32
  name : Name
  refcnt : Int
  deriving DecidableEq

def vmshmPermMask : BitVec 32 := 0o666
def vmshmFlagMask : BitVec 32 := 1

/-- `PAGE_SIZE` of the kernel. -/
def kernelPageSize : BitVec 32 := 4096

/-- `(size + PAGE_SIZE - 1) & PAGE_MASK`. -/
def pageAlign (size : BitVec 32) : BitVec 32 :=
  (size + kernelPageSize - 1) &&& ~~~(kernelPageSize - 1)

/-- The entry that `vmshm_create` fills in. -/
def newMemory (name : Name) (size perm flags : BitVec 32) : VMSharedMemory where
  size := pageAlign size
  perm := perm &&& vmshmPermMask
  flags := flags &&& vmshmFlagMask
  name := name
  refcnt := 0

/-- `vmshm_list` and the entries behind the addresses. -/
abbrev Registry := Entries VMSharedMemory

/-- `lookup`. -/
def lookup (r : Registry) (name : Name) : Registry × Option Addr :=
  r.find fun entry => entry.name = name

/-- `remove`. -/
def remove (r : Registry) (a : Addr) : Registry :=
  (r.listDel a).kfree a

/-- `atomic_add(i, &mem->refcnt)`. -/
def addRefcnt (r : Registry) (a : Addr) (i : Int) : Registry :=
  r.modify a fun entry => { entry with refcnt := entry.refcnt + i }

/-- `vmshm_remove`, with its error. -/
def vmshmRemove (r : Registry) (a : Addr) : Registry × Option Errno :=
  if (r.mem a).refcnt = 0 then (remove (r.touch a) a, none)
  else (r.touch a, some .ebusy)

/-- `vmshm_select`. -/
def vmshmSelect (r : Registry) (name : Name) : Registry × Option Addr :=
  match lookup r name with
  | (r, some a) => (addRefcnt r a 1, some a)
  | (r, none) => (r, none)

/-- `vmshm_unselect`. -/
def vmshmUnselect (r : Registry) (a : Addr) : Registry :=
  addRefcnt r a (-1)

/-! ## What the sections do to a sound list -/

variable {r reg : Registry} {a : Addr} {name : Name}

/-- A lookup in a sound list changes nothing and finds the entry of the name, if there is one. -/
theorem of_lookup (hlive : ∀ a ∈ r.list, a ∈ r.live) {found : Option Addr}
    (hlookup : lookup r name = (reg, found)) :
    reg = r ∧ (∀ a, found = some a → a ∈ r.list ∧ (r.mem a).name = name) ∧
      (found = none → ∀ a ∈ r.list, (r.mem a).name ≠ name) := by
  obtain ⟨rfl, hsome, hnone⟩ := Entries.of_find hlive hlookup
  refine ⟨rfl, fun a ha => ?_, fun hfound a ha => ?_⟩
  · obtain ⟨hlist, hname⟩ := hsome a ha
    exact ⟨hlist, of_decide_eq_true hname⟩
  · exact of_decide_eq_false (hnone hfound a ha)

/-- A selection that finds its entry. -/
theorem vmshmSelect_found (hlive : ∀ a ∈ r.list, a ∈ r.live)
    (hselect : vmshmSelect r name = (reg, some a)) :
    (lookup r name).2 = some a ∧ a ∈ r.list ∧ (r.mem a).name = name ∧ reg = addRefcnt r a 1 := by
  cases hlookup : lookup r name with
  | mk r' found =>
      obtain ⟨rfl, hsome, -⟩ := of_lookup hlive hlookup
      rw [vmshmSelect, hlookup] at hselect
      cases found with
      | none => cases hselect
      | some b =>
          cases hselect
          obtain ⟨hlist, hname⟩ := hsome a rfl
          exact ⟨rfl, hlist, hname, rfl⟩

/-- A `vmshm_select` that finds nothing changes nothing, and there is no such name. -/
theorem vmshmSelect_missing (hlive : ∀ a ∈ r.list, a ∈ r.live)
    (hselect : vmshmSelect r name = (reg, none)) :
    reg = r ∧ ∀ a ∈ r.list, (r.mem a).name ≠ name := by
  cases hlookup : lookup r name with
  | mk r' found =>
      obtain ⟨rfl, -, hnone⟩ := of_lookup hlive hlookup
      rw [vmshmSelect, hlookup] at hselect
      cases found with
      | none =>
          cases hselect
          exact ⟨rfl, hnone rfl⟩
      | some b => cases hselect

@[simp] theorem addRefcnt_name (i : Int) (b : Addr) :
    ((addRefcnt r a i).mem b).name = (r.mem b).name :=
  Entries.modify_read (g := VMSharedMemory.name)
    (f := fun entry => { entry with refcnt := entry.refcnt + i }) (fun _ => rfl) b

theorem addRefcnt_self (i : Int) : ((addRefcnt r a i).mem a).refcnt = (r.mem a).refcnt + i :=
  congrArg VMSharedMemory.refcnt (Entries.modify_mem_self _)

theorem addRefcnt_of_ne (i : Int) {b : Addr} (hb : b ≠ a) : (addRefcnt r a i).mem b = r.mem b :=
  Entries.modify_mem_of_ne _ hb

/-- Counting a user of an entry that is there is no fault. -/
theorem addRefcnt_of_live (ha : a ∈ r.live) (i : Int) :
    addRefcnt r a i = { r with
      mem := Function.update r.mem a { r.mem a with refcnt := (r.mem a).refcnt + i } } :=
  Entries.modify_of_live ha _

/-- An entry of the list is taken out of it and freed. -/
theorem remove_of_live (ha : a ∈ r.live) (hlist : a ∈ r.list) :
    remove r a = { r with list := r.list.erase a, live := r.live.erase a } := by
  have hdel := Entries.listDel_of_mem ha hlist
  rw [remove, hdel]
  exact Entries.kfree_of_live (r := { r with list := r.list.erase a }) ha

theorem vmshmRemove_of_zero (ha : a ∈ r.live) (hzero : (r.mem a).refcnt = 0) :
    vmshmRemove r a = (remove r a, none) := by
  rw [vmshmRemove, if_pos hzero, Entries.touch_of_live ha]

theorem vmshmRemove_of_ne (ha : a ∈ r.live) (hne : (r.mem a).refcnt ≠ 0) :
    vmshmRemove r a = (r, some .ebusy) := by
  rw [vmshmRemove, if_neg hne, Entries.touch_of_live ha]

/-! ## Who has selected what -/

/-- The list is sound, and so is what those who have selected an entry know of
it. -/
structure Referenced {η : Type*} (r : Registry) (selected : η → Option Addr) : Prop where
  names : (r.list.map fun a => (r.mem a).name).Nodup
  counted : ∀ a ∈ r.list, Count (fun h => selected h = some a) (r.mem a).refcnt
  live : ∀ a ∈ r.list, a ∈ r.live
  held : ∀ h a, selected h = some a → a ∈ r.list
  sane : r.fault = false

namespace Referenced

variable {η : Type*} {selected selected' : η → Option Addr}

theorem list_nodup (hr : Referenced r selected) : r.list.Nodup :=
  hr.names.of_map _

/-- No two entries have the same name. -/
theorem eq_of_name (hr : Referenced r selected) {b : Addr} (ha : a ∈ r.list) (hb : b ∈ r.list)
    (hname : (r.mem a).name = (r.mem b).name) : a = b :=
  List.inj_on_of_nodup_map hr.names ha hb hname

/-- A lookup finds the entry of that name. -/
theorem lookup_of_mem (hr : Referenced r selected) (ha : a ∈ r.list) :
    lookup r (r.mem a).name = (r, some a) := by
  cases hlookup : lookup r (r.mem a).name with
  | mk r' found =>
      obtain ⟨rfl, hsome, hnone⟩ := of_lookup hr.live hlookup
      cases found with
      | none => exact absurd rfl (hnone rfl a ha)
      | some b =>
          obtain ⟨hb, hname⟩ := hsome b rfl
          rw [hr.eq_of_name hb ha hname]

/-- An entry of the list is selected by its name and counted. -/
theorem vmshmSelect_of_mem (hr : Referenced r selected) (ha : a ∈ r.list) :
    vmshmSelect r (r.mem a).name = (addRefcnt r a 1, some a) := by
  rw [vmshmSelect, hr.lookup_of_mem ha]

/-- Nothing is in the list, and nothing is selected. -/
theorem empty (hlist : r.list = []) (hnone : ∀ h, selected h = none) (hsane : r.fault = false) :
    Referenced r selected := by
  refine ⟨?_, fun a ha => ?_, fun a ha => ?_, fun h a ha => ?_, hsane⟩
  · rw [hlist]
    exact List.nodup_nil
  · rw [hlist] at ha
    cases ha
  · rw [hlist] at ha
    cases ha
  · rw [hnone] at ha
    cases ha

/-- A new entry is allocated. -/
theorem build (hr : Referenced r selected) (hfree : a ∉ r.live) (entry : VMSharedMemory) :
    Referenced (r.kzalloc a entry) selected := by
  have hmem : ∀ b ∈ r.list, (r.kzalloc a entry).mem b = r.mem b := by
    intro b hb
    have hne : b ≠ a := fun heq => hfree (heq ▸ hr.live b hb)
    exact Entries.kzalloc_mem_of_ne hne
  refine ⟨?_, fun b hb => ?_, fun b hb => ?_, hr.held, hr.sane⟩
  · have hsame : (r.list.map fun b => ((r.kzalloc a entry).mem b).name) =
        r.list.map fun b => (r.mem b).name := by
      refine List.map_congr_left fun b hb => ?_
      rw [hmem b hb]
    exact hsame ▸ hr.names
  · rw [hmem b hb]
    exact hr.counted b hb
  · exact Finset.mem_insert_of_mem (hr.live b hb)

/-- An entry is inserted that nobody knows, and no other has its name. -/
theorem link (hr : Referenced r selected) (hlive : a ∈ r.live) (hout : a ∉ r.list)
    (hzero : (r.mem a).refcnt = 0) (hnew : ∀ b ∈ r.list, (r.mem b).name ≠ (r.mem a).name) :
    Referenced (r.listAddTail a) selected := by
  rw [Entries.listAddTail_of_live hlive]
  refine ⟨?_, fun b hb => ?_, fun b hb => ?_, fun h b hb => ?_, hr.sane⟩
  · rw [List.map_append, List.nodup_append']
    refine ⟨hr.names, List.nodup_singleton _, ?_⟩
    intro n hn hn'
    obtain ⟨b, hb, rfl⟩ := List.mem_map.mp hn
    exact hnew b hb (List.mem_singleton.mp hn')
  · rcases List.mem_append.mp hb with hb | hb
    · exact hr.counted b hb
    · obtain rfl := List.mem_singleton.mp hb
      show Count _ (r.mem b).refcnt
      rw [hzero]
      exact Count.zero fun h hsel => hout (hr.held h b hsel)
  · rcases List.mem_append.mp hb with hb | hb
    · exact hr.live b hb
    · exact List.mem_singleton.mp hb ▸ hlive
  · exact List.mem_append_left _ (hr.held h b hb)

/-- An entry that nobody has selected is removed. -/
theorem remove (hr : Referenced r selected) (ha : a ∈ r.list) (hzero : (r.mem a).refcnt = 0) :
    Referenced (remove r a) selected := by
  have hlive := hr.live a ha
  have hnobody : ∀ h, selected h ≠ some a := by
    have hcount := hr.counted a ha
    rw [hzero] at hcount
    exact hcount.empty
  rw [remove_of_live hlive ha]
  have hsub : ∀ b, b ∈ r.list.erase a ↔ b ≠ a ∧ b ∈ r.list := fun b => hr.list_nodup.mem_erase_iff
  refine ⟨?_, fun b hb => ?_, fun b hb => ?_, fun h b hb => ?_, hr.sane⟩
  · exact hr.names.sublist (List.erase_sublist.map _)
  · exact hr.counted b ((hsub b).mp hb).2
  · exact Finset.mem_erase.mpr ⟨((hsub b).mp hb).1, hr.live b ((hsub b).mp hb).2⟩
  · exact (hsub b).mpr ⟨fun heq => hnobody h (heq ▸ hb), hr.held h b hb⟩

/-- The reference count of entry `a` follows the selections. -/
theorem recount (hr : Referenced r selected) (ha : a ∈ r.list) {i : Int}
    (hcount : Count (fun h => selected' h = some a) ((r.mem a).refcnt + i))
    (hother : ∀ b, b ≠ a → ∀ h, selected' h = some b ↔ selected h = some b) :
    Referenced (addRefcnt r a i) selected' := by
  have hnames : ((addRefcnt r a i).list.map fun b => ((addRefcnt r a i).mem b).name).Nodup := by
    simp only [addRefcnt_name]
    exact hr.names
  have hmem : ∀ b, b ≠ a → (addRefcnt r a i).mem b = r.mem b := fun b hb => addRefcnt_of_ne i hb
  have hself : ((addRefcnt r a i).mem a).refcnt = (r.mem a).refcnt + i := addRefcnt_self i
  rw [addRefcnt_of_live (hr.live a ha)] at hnames hmem hself ⊢
  refine ⟨hnames, fun b hb => ?_, hr.live, fun h b hb => ?_, hr.sane⟩
  · by_cases hba : b = a
    · rw [hba, hself]
      exact hcount
    · rw [hmem b hba]
      exact (hr.counted b hb).congr fun h => (hother b hba h).symm
  · by_cases hba : b = a
    · exact hba ▸ ha
    · exact hr.held h b ((hother b hba h).mp hb)

variable [DecidableEq η] {h : η}

/-- One that has nothing selected selects the entry, which is counted once more. -/
theorem select (hr : Referenced r selected) (ha : a ∈ r.list) (hnone : selected h = none) :
    Referenced (addRefcnt r a 1) (Function.update selected h (some a)) := by
  have hpoint : ∀ b g, Function.update selected h (some a) g = some b ↔
      g = h ∧ b = a ∨ g ≠ h ∧ selected g = some b := by
    intro b g
    by_cases hg : g = h
    · rw [hg, Function.update_self]
      simp [eq_comm]
    · rw [Function.update_of_ne hg]
      simp [hg]
  apply hr.recount ha
  · have hnot : ¬ selected h = some a := by
      rw [hnone]
      exact (Option.some_ne_none a).symm
    refine (hr.counted a ha).enter hnot fun g => ?_
    rw [hpoint]
    by_cases hg : g = h <;> simp [hg]
  · intro b hb g
    rw [hpoint]
    by_cases hg : g = h
    · simp [hg, hb, hnone]
    · simp [hg]

/-- One that has selected the entry gives it up. -/
theorem unselect (hr : Referenced r selected) (hsel : selected h = some a) :
    Referenced (vmshmUnselect r a) (Function.update selected h none) := by
  have hpoint : ∀ b g, Function.update selected h none g = some b ↔
      g ≠ h ∧ selected g = some b := by
    intro b g
    by_cases hg : g = h
    · rw [hg, Function.update_self]
      simp
    · rw [Function.update_of_ne hg]
      simp [hg]
  have ha := hr.held h a hsel
  apply hr.recount ha
  · exact (hr.counted a ha).leave hsel (hpoint a)
  · intro b hb g
    rw [hpoint]
    by_cases hg : g = h
    · rw [hg, hsel]
      simp [Ne.symm hb]
    · simp [hg]

end Referenced

end Vmshm

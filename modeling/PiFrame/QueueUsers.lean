import PiFrame.QueueRegistries

/-!
# The registries while queues are in use

A buffer manager counts the files that have its queue open, and `vmq_remove` refuses to remove
one that is counted.  Nothing else looks at this count.  So the registries go the same way as if
all counts were zero, and a removal that is refused changes nothing.
-/

namespace QueueRegistries

open LinkedEntries
open Vmshm (Addr Errno Filp Ioctl Name Registry VMSharedMemory addRefcnt lookup newMemory
  pageAlign vmshmRemove vmshmUnselect)

variable {s t : Registries} {managers : Entries VMQBufferManager} {a mem : Addr} {m : Mgr}
  {h g : Filp} {name : Name} {result : Result}

/-- The managers as if nobody had their queues open. -/
def unusedManagers (managers : Entries VMQBufferManager) : Entries VMQBufferManager :=
  { managers with mem := fun m => { managers.mem m with refcnt := 0 } }

def Registries.unused (s : Registries) : Registries :=
  s.withManagers (unusedManagers s.managers)

/-! ## The count makes no difference -/

theorem unusedManagers_kzalloc (procEntry : Option Name) :
    unusedManagers (managers.kzalloc m ⟨mem, 0, procEntry⟩) =
      (unusedManagers managers).kzalloc m ⟨mem, 0, procEntry⟩ := by
  have hmem : (unusedManagers (managers.kzalloc m ⟨mem, 0, procEntry⟩)).mem =
      ((unusedManagers managers).kzalloc m ⟨mem, 0, procEntry⟩).mem := by
    funext x
    by_cases hx : x = m
    · subst hx
      simp [unusedManagers, Entries.kzalloc]
    · simp [unusedManagers, Entries.kzalloc, hx]
  simp only [unusedManagers, Entries.kzalloc] at hmem ⊢
  rw [hmem]

theorem unusedManagers_linkManager :
    unusedManagers (linkManager managers m name) = linkManager (unusedManagers managers) m name := by
  have hmem : (unusedManagers (linkManager managers m name)).mem =
      (linkManager (unusedManagers managers) m name).mem := by
    funext x
    by_cases hx : x = m
    · subst hx
      simp [unusedManagers, linkManager, Entries.listAddTail, Entries.touch, Entries.modify]
    · simp [unusedManagers, linkManager, Entries.listAddTail, Entries.touch, Entries.modify, hx]
  simp only [unusedManagers, linkManager, Entries.listAddTail, Entries.touch, Entries.modify]
    at hmem ⊢
  rw [hmem]
  rfl

/-- Somebody opens or closes a queue, which only the count of its manager shows: without the
counts the managers are the same. -/
theorem unusedManagers_count (hm : m ∈ managers.live) (i : Int) :
    unusedManagers (managers.modify m fun mgr => { mgr with refcnt := mgr.refcnt + i }) =
      unusedManagers managers := by
  have hmem : (fun x => { Function.update managers.mem m
      { managers.mem m with refcnt := (managers.mem m).refcnt + i } x with refcnt := 0 }) =
        fun x => { managers.mem x with refcnt := 0 } := by
    funext x
    by_cases hx : x = m
    · subst hx
      rw [Function.update_self]
    · rw [Function.update_of_ne hx]
  rw [Entries.modify_of_live hm]
  simp only [unusedManagers]
  rw [hmem]

/-- `create_buffer_manager` does not look at the users of the managers. -/
theorem createBufferManager_unused (pageSize : BitVec 32) :
    createBufferManager (unusedManagers managers) mem pageSize m =
      (unusedManagers (createBufferManager managers mem pageSize m).1,
        (createBufferManager managers mem pageSize m).2) := by
  rw [createBufferManager, createBufferManager, ← unusedManagers_kzalloc]
  split <;> rfl

/-- `vmq_create` does the same whether the queues have users or not. -/
theorem vmqCreate_unused (arg : Except Errno VMQCreateParam) :
    vmqCreate s.unused a m arg = ((vmqCreate s a m arg).1.unused, (vmqCreate s a m arg).2) := by
  have hreg : s.unused.reg = s.reg := rfl
  have hmanagers : s.unused.managers = unusedManagers s.managers := rfl
  rcases arg with e | crarg
  · rfl
  · rw [vmqCreate, vmqCreate, hreg, hmanagers]
    split
    · rfl
    · rcases vmshmCreate s.reg crarg.name crarg.size crarg.perm crarg.flags a with ⟨reg, e | b⟩
      · rfl
      · dsimp only
        split
        · rfl
        · rw [createBufferManager_unused]
          rcases createBufferManager s.managers b crarg.pageSize m with ⟨managers, e | mgr⟩
          · rfl
          · dsimp only
            rw [← unusedManagers_linkManager]
            rfl

/-- The memory driver does the same whether the queues have users or not, and leaves them alone. -/
theorem vmshmIoctl_unused (p : Option Addr) (call : Ioctl) :
    vmshmIoctl s.unused h p a call =
        ((vmshmIoctl s h p a call).1.unused, (vmshmIoctl s h p a call).2) ∧
      (vmshmIoctl s h p a call).1.managers = s.managers := by
  have hreg : s.unused.reg = s.reg := rfl
  cases call with
  | create arg =>
      rcases arg with _ | ⟨name, size, perm, flags⟩
      · exact ⟨rfl, rfl⟩
      · rw [vmshmIoctl, vmshmIoctl, hreg]
        split
        · exact ⟨rfl, rfl⟩
        · rcases vmshmCreate s.reg name size perm flags a with ⟨reg, e | b⟩ <;> exact ⟨rfl, rfl⟩
  | remove arg =>
      rcases arg with _ | name
      · exact ⟨rfl, rfl⟩
      · rw [vmshmIoctl, vmshmIoctl, hreg]
        split
        · exact ⟨rfl, rfl⟩
        · rcases lookup s.reg name with ⟨reg, _ | b⟩
          · exact ⟨rfl, rfl⟩
          · dsimp only
            rcases vmshmRemove reg b with ⟨reg, _ | e⟩ <;> exact ⟨rfl, rfl⟩
  | select name =>
      rcases p with _ | b
      · rcases name with _ | name
        · exact ⟨rfl, rfl⟩
        · rw [vmshmIoctl, vmshmIoctl, hreg]
          rcases Vmshm.vmshmSelect s.reg name with ⟨reg, _ | b⟩ <;> exact ⟨rfl, rfl⟩
      · exact ⟨rfl, rfl⟩
  | unselect =>
      rcases p with _ | b <;> exact ⟨rfl, rfl⟩

/-- The manager that a lookup finds. -/
theorem Inv.lookup_used (hinv : Inv s.unused) :
    lookupBufferManager s name = (s, s.managers.list.find? fun m =>
      (s.reg.mem (s.managers.mem m).mem).name = name) :=
  lookupManager_of_live fun m hm => ⟨hinv.owned.live m hm, hinv.refs.live _ (hinv.mem_list hm)⟩

/-- A removal is refused, or goes on as if nobody could have the queue open.  In this way the
results about unused queues carry over. -/
theorem Inv.vmqRemove_used (hinv : Inv s.unused) {arg : Except Errno Name}
    (hremove : vmqRemove s arg = (t, result)) :
    t = s ∧ (∃ e, result = .error e) ∨
      ∃ m ∈ s.managers.list, (s.managers.mem m).refcnt = 0 ∧
        t.managers.list = s.managers.list.erase m ∧ t.managers.mem = s.managers.mem ∧
        t.reg = (vmshmRemove (vmshmUnselect s.reg (s.managers.mem m).mem)
          (s.managers.mem m).mem).1 ∧
        vmqRemove s.unused arg = (t.unused, result) := by
  rcases arg with e | name
  · cases hremove
    exact .inl ⟨rfl, _, rfl⟩
  · rw [vmqRemove] at hremove ⊢
    split at hremove
    · cases hremove
      exact .inl ⟨rfl, _, rfl⟩
    · next hnamed =>
      rw [if_neg hnamed]
      have hunused : lookupBufferManager s.unused name = (s.unused, s.managers.list.find? fun m =>
          (s.reg.mem (s.managers.mem m).mem).name = name) :=
        lookupManager_of_live fun m hm => ⟨hinv.owned.live m hm,
          hinv.refs.live _ (hinv.mem_list hm)⟩
      rw [hinv.lookup_used] at hremove
      rw [hunused]
      cases hfind : s.managers.list.find? fun m =>
          (s.reg.mem (s.managers.mem m).mem).name = name with
      | none =>
          rw [hfind] at hremove
          cases hremove
          exact .inl ⟨rfl, _, rfl⟩
      | some m =>
          have hm := List.mem_of_find?_eq_some hfind
          have htouch : s.managers.touch m = s.managers :=
            Entries.touch_of_live (hinv.owned.live m hm)
          rw [hfind] at hremove
          dsimp only at hremove ⊢
          rw [htouch] at hremove
          split at hremove
          · cases hremove
            exact .inl ⟨rfl, _, rfl⟩
          · next hzero =>
            have htouch' : s.unused.managers.touch m = s.unused.managers :=
              Entries.touch_of_live (hinv.owned.live m hm)
            refine .inr ⟨m, hm, not_not.mp hzero, ?_⟩
            rw [htouch', if_neg (fun hne => hne rfl)]
            cases hremove
            exact ⟨rfl, rfl, rfl, rfl⟩

/-- **The count makes no difference.**  An operation changes nothing, or does what it would do if
nobody had a queue open. -/
theorem Step.unused {op : Op × Result} (hinv : Inv s.unused) (hstep : Step s op t) :
    t = s ∨ Step s.unused op t.unused := by
  cases hstep with
  | vmqCreate page fresh freshMgr outcome =>
      refine .inr (.vmqCreate page fresh freshMgr ?_)
      rw [vmqCreate_unused, outcome]
  | vmqRemove outcome =>
      rcases hinv.vmqRemove_used outcome with ⟨rfl, -⟩ | ⟨m, -, -, -, -, -, hunused⟩
      · exact .inl rfl
      · exact .inr (.vmqRemove hunused)
  | vmshmIoctl at_file fresh outcome =>
      refine .inr (.vmshmIoctl at_file fresh ?_)
      rw [(vmshmIoctl_unused _ _).1, outcome]
  | @close h p at_file =>
      refine .inr ?_
      have hclose : (vmshmRelease s h p).unused = vmshmRelease s.unused h p := by
        cases p <;> rfl
      rw [hclose]
      exact .close at_file

/-- The registries stay in order, whoever has a queue open. -/
theorem Inv.step_used {op : Op × Result} (hinv : Inv s.unused) (hstep : Step s op t) :
    Inv t.unused := by
  rcases hstep.unused hinv with rfl | hstep
  · exact hinv
  · exact hinv.step hstep

/-! ## Entries and managers that come and go -/

/-- An entry as `vmshm_create` makes it: with a name, and a size in whole pages. -/
def Stored (mem : VMSharedMemory) : Prop :=
  mem.name.bytes ≠ [] ∧ ∃ size : BitVec 32, 0 < size.toInt ∧ mem.size = pageAlign size

def AllStored (r : Registry) : Prop :=
  ∀ a ∈ r.list, Stored (r.mem a)

/-- Whole pages, and at least one of them, as long as rounding up does not wrap around. -/
theorem toNat_pageAlign {size : BitVec 32} (hpos : 0 < size.toInt) :
    (pageAlign size).toNat % 4096 = 0 ∧ 0 < (pageAlign size).toNat := by
  have hmask : pageAlign size = (size + 4095) &&& ~~~4095 := by
    rw [pageAlign, Vmshm.kernelPageSize, BitVec.sub_eq_add_neg, BitVec.add_assoc]
    rfl
  have hnot : (~~~(4095 : BitVec 32)).toNat % 2 ^ 12 = 0 := by decide
  rw [hmask]
  constructor
  · rw [BitVec.toNat_and, show 4096 = 2 ^ 12 from rfl, Nat.and_mod_two_pow, hnot, Nat.and_zero]
  · by_contra hzero
    have hnone : (size + 4095) &&& ~~~4095 = 0 := BitVec.eq_of_toNat_eq (by simpa using hzero)
    -- then all of it is below a page
    have hlow : size + 4095 = (size + 4095) &&& 4095 := by
      have hsplit : size + 4095 = ((size + 4095) &&& ~~~4095) ||| ((size + 4095) &&& 4095) := by
        generalize size + 4095 = x
        generalize (4095 : BitVec 32) = mask
        ext i hi
        simp only [BitVec.getElem_or, BitVec.getElem_and, BitVec.getElem_not]
        cases x[i] <;> cases mask[i] <;> rfl
      rw [hnone] at hsplit
      simpa using hsplit
    have hle : (size + 4095).toNat ≤ 4095 := by
      rw [hlow, BitVec.toNat_and]
      exact Nat.and_le_right
    have hsmall := BitVec.toInt_eq_toNat_cond size
    have hlt := size.isLt
    rw [BitVec.toNat_add] at hle
    split at hsmall <;> simp at hle <;> omega

/-- Entries that keep name and size keep their pages. -/
theorem AllStored.of_frame {r reg : Registry} (h : AllStored r)
    (hframe : ∀ a ∈ reg.list, a ∈ r.list ∧ (reg.mem a).name = (r.mem a).name ∧
      (reg.mem a).size = (r.mem a).size) : AllStored reg := by
  intro a ha
  obtain ⟨hold, hname, hsize⟩ := hframe a ha
  obtain ⟨hnamed, size, hpos, hpages⟩ := h a hold
  exact ⟨hname ▸ hnamed, size, hpos, hsize.trans hpages⟩

theorem AllStored.addRefcnt {r : Registry} (h : AllStored r) (b : Addr) (i : Int) :
    AllStored (addRefcnt r b i) :=
  h.of_frame fun a ha => ⟨ha, Vmshm.addRefcnt_name i a,
    Entries.modify_read (g := VMSharedMemory.size)
      (f := fun entry => { entry with refcnt := entry.refcnt + i }) (fun _ => rfl) a⟩

/-- Removing an entry keeps the pages of the others. -/
theorem AllStored.vmshmRemove {r : Registry} (h : AllStored r) (b : Addr) :
    AllStored (vmshmRemove r b).1 := by
  rw [Vmshm.vmshmRemove]
  split
  · exact h.of_frame fun a ha => ⟨List.mem_of_mem_erase ha, rfl, rfl⟩
  · exact h

theorem AllStored.vmshmCreate {r : Registry} (h : AllStored r) (hlive : ∀ a ∈ r.list, a ∈ r.live)
    (hfresh : a ∉ r.live) (hnamed : name.bytes ≠ []) (size perm flags : BitVec 32) :
    AllStored (vmshmCreate r name size perm flags a).1 := by
  rw [QueueRegistries.vmshmCreate]
  rcases hlookup : lookup r name with ⟨r', found⟩
  obtain ⟨rfl, -⟩ := Vmshm.of_lookup hlive hlookup
  rcases found with _ | b
  · dsimp only
    split
    · exact h
    · next hpos =>
      intro b hb
      rcases List.mem_append.mp hb with hb | hb
      · have hne : b ≠ a := fun heq => hfresh (heq ▸ hlive b hb)
        have hmem : (r'.kzalloc a (newMemory name size perm flags)).mem b = r'.mem b :=
          Entries.kzalloc_mem_of_ne hne
        exact hmem.symm ▸ h b hb
      · obtain rfl := List.mem_singleton.mp hb
        have hmem : (r'.kzalloc b (newMemory name size perm flags)).mem b =
            newMemory name size perm flags := Function.update_self ..
        exact hmem.symm ▸ ⟨hnamed, size, Int.not_le.mp hpos, rfl⟩
  · exact h

theorem AllStored.vmshmSelect {r : Registry} (h : AllStored r) (hlive : ∀ a ∈ r.list, a ∈ r.live)
    (name : Name) : AllStored (Vmshm.vmshmSelect r name).1 := by
  rcases hselect : Vmshm.vmshmSelect r name with ⟨reg, _ | b⟩
  · rw [(Vmshm.vmshmSelect_missing hlive hselect).1]
    exact h
  · obtain ⟨-, -, -, rfl⟩ := Vmshm.vmshmSelect_found hlive hselect
    exact h.addRefcnt b 1

/-- After `vmq_create` every memory in the list has its pages. -/
theorem stored_vmqCreate (hinv : Inv s.unused) (h : AllStored s.reg) (hfresh : a ∉ s.reg.live)
    (arg : Except Errno VMQCreateParam) : AllStored (vmqCreate s a m arg).1.reg := by
  rcases arg with e | crarg
  · exact h
  · rw [QueueRegistries.vmqCreate]
    split
    · exact h
    · next hnamed =>
      have hcreated := h.vmshmCreate hinv.refs.live hfresh hnamed crarg.size crarg.perm crarg.flags
      rcases hshm : QueueRegistries.vmshmCreate s.reg crarg.name crarg.size crarg.perm crarg.flags a
        with ⟨reg, e | b⟩
      · rw [hshm] at hcreated
        exact hcreated
      · rw [hshm] at hcreated
        have hrefs := (of_vmshmCreate hinv.refs hfresh hshm).1
        have hselected := hcreated.vmshmSelect hrefs.live crarg.name
        dsimp only
        split
        · exact hselected.vmshmRemove b
        · rcases createBufferManager s.managers b crarg.pageSize m with ⟨managers, e | mgr⟩
          · exact (hselected.addRefcnt b (-1)).vmshmRemove b
          · exact hselected

/-- After a call of the memory driver every memory in the list has its pages: only
`VMSHM_CREATE` adds one, and it allocates them first. -/
theorem stored_vmshmIoctl (hinv : Inv s.unused) (h : AllStored s.reg)
    (hfresh : a ∉ s.reg.live) (p : Option Addr) (call : Ioctl) :
    AllStored (vmshmIoctl s g p a call).1.reg := by
  cases call with
  | create arg =>
      rcases arg with _ | ⟨name, size, perm, flags⟩
      · exact h
      · rw [vmshmIoctl]
        split
        · exact h
        · next hnamed =>
          have hcreated := h.vmshmCreate hinv.refs.live hfresh hnamed size perm flags
          rcases hshm : QueueRegistries.vmshmCreate s.reg name size perm flags a with ⟨reg, e | b⟩ <;>
            exact (congrArg (fun r => AllStored r.1) hshm).mp hcreated
  | remove arg =>
      rcases arg with _ | name
      · exact h
      · rw [vmshmIoctl]
        split
        · exact h
        · rcases hlookup : lookup s.reg name with ⟨reg, found⟩
          obtain ⟨rfl, -⟩ := Vmshm.of_lookup (r := s.reg) hinv.refs.live hlookup
          rcases found with _ | b
          · exact h
          · have hremoved := h.vmshmRemove b
            dsimp only
            rcases hremove : vmshmRemove s.reg b with ⟨reg', _ | e⟩ <;>
              exact (congrArg (fun r => AllStored r.1) hremove).mp hremoved
  | select name =>
      rcases p with _ | b
      · rcases name with _ | name
        · exact h
        · have hselected := h.vmshmSelect hinv.refs.live name
          rw [vmshmIoctl]
          rcases hselect : Vmshm.vmshmSelect s.reg name with ⟨reg, _ | b⟩ <;>
            exact (congrArg (fun r => AllStored r.1) hselect).mp hselected
      · exact h
  | unselect =>
      rcases p with _ | b
      · exact h
      · exact h.addRefcnt b (-1)

/-- The entries stay as `vmshm_create` has made them. -/
theorem Step.stored {op : Op × Result} (hinv : Inv s.unused) (h : AllStored s.reg)
    (hstep : Step s op t) : AllStored t.reg := by
  cases hstep with
  | vmqCreate page fresh freshMgr outcome =>
      exact (congrArg (fun r => AllStored r.1.reg) outcome).mp (stored_vmqCreate hinv h fresh _)
  | vmqRemove outcome =>
      rcases hinv.vmqRemove_used outcome with ⟨rfl, -⟩ | ⟨m, -, -, -, -, hreg, -⟩
      · exact h
      · rw [hreg]
        exact (h.addRefcnt _ (-1)).vmshmRemove _
  | vmshmIoctl at_file fresh outcome =>
      exact (congrArg (fun r => AllStored r.1.reg) outcome).mp
        (stored_vmshmIoctl hinv h fresh _ _)
  | @close h' p at_file =>
      rcases p with _ | b
      · exact h
      · exact h.addRefcnt b (-1)

/-! ## Managers that stay -/

/-- A manager stays as it is; a new one has nobody counted, and one that goes had nobody. -/
structure ManagersKept (managers managers' : Entries VMQBufferManager) : Prop where
  old : ∀ m ∈ managers'.list, m ∈ managers.list ∧ managers'.mem m = managers.mem m ∨
    m ∉ managers.list ∧ (managers'.mem m).refcnt = 0
  gone : ∀ m ∈ managers.list, m ∈ managers'.list ∨ (managers.mem m).refcnt = 0

theorem ManagersKept.refl : ManagersKept managers managers :=
  ⟨fun _ hm => .inl ⟨hm, rfl⟩, fun _ hm => .inl hm⟩

/-- `vmq_create` keeps the managers that there are, and may add one. -/
theorem managersKept_vmqCreate (hlive : ∀ m ∈ s.managers.list, m ∈ s.managers.live)
    (hfresh : m ∉ s.managers.live) (arg : Except Errno VMQCreateParam) :
    ManagersKept s.managers (vmqCreate s a m arg).1.managers := by
  have hout : m ∉ s.managers.list := fun hm => hfresh (hlive m hm)
  rcases arg with e | crarg
  · exact .refl
  · rw [vmqCreate]
    split
    · exact .refl
    · rcases vmshmCreate s.reg crarg.name crarg.size crarg.perm crarg.flags a with ⟨reg, e | b⟩
      · exact .refl
      · dsimp only
        split
        · exact .refl
        · by_cases hpage : crarg.pageSize &&& baMinPageMask ≠ 0
          · -- the manager is freed again
            rw [createBufferManager, if_pos hpage]
            refine ⟨fun m' hm' => .inl ⟨hm', ?_⟩, fun m' hm' => .inl hm'⟩
            have hne : m' ≠ m := fun heq => hout (heq ▸ hm')
            exact Entries.kzalloc_mem_of_ne hne
          · rw [createBufferManager, if_neg hpage]
            have hself : ((linkManager (s.managers.kzalloc m ⟨b, 0, none⟩) m crarg.name).mem
                m).refcnt = 0 := by
              rw [linkManager]
              simp [Entries.listAddTail, Entries.touch, Entries.kzalloc]
            have hother : ∀ m' ∈ s.managers.list,
                (linkManager (s.managers.kzalloc m ⟨b, 0, none⟩) m crarg.name).mem m' =
                  s.managers.mem m' := by
              intro m' hm'
              have hne : m' ≠ m := fun heq => hout (heq ▸ hm')
              have hbefore : (s.managers.kzalloc m ⟨b, 0, none⟩).mem m' = s.managers.mem m' :=
                Entries.kzalloc_mem_of_ne hne
              rw [← hbefore]
              exact Entries.modify_mem_of_ne (r := s.managers.kzalloc m ⟨b, 0, none⟩)
                (fun mgr : VMQBufferManager => { mgr with procEntry := some crarg.name }) hne
            refine ⟨fun m' hm' => ?_, fun m' hm' => .inl (List.mem_append_left _ hm')⟩
            rcases List.mem_append.mp hm' with hold | hnew
            · exact .inl ⟨hold, hother m' hold⟩
            · obtain rfl := List.mem_singleton.mp hnew
              exact .inr ⟨hout, hself⟩

theorem Step.managersKept {op : Op × Result} (hinv : Inv s.unused) (hstep : Step s op t) :
    ManagersKept s.managers t.managers := by
  cases hstep with
  | vmqCreate page fresh freshMgr outcome =>
      exact (congrArg (fun r => ManagersKept s.managers r.1.managers) outcome).mp
        (managersKept_vmqCreate (s := s) hinv.owned.live freshMgr _)
  | vmqRemove outcome =>
      rcases hinv.vmqRemove_used outcome with ⟨rfl, -⟩ | ⟨m, -, hzero, hlist, hmem, -, -⟩
      · exact .refl
      · refine ⟨fun m' hm' => .inl ⟨?_, congrFun hmem m'⟩, fun m' hm' => ?_⟩
        · exact List.mem_of_mem_erase (hlist ▸ hm')
        · by_cases heq : m' = m
          · exact .inr (heq ▸ hzero)
          · exact .inl (hlist ▸ (List.mem_erase_of_ne heq).mpr hm')
  | @vmshmIoctl _ h' p call a result at_file fresh outcome =>
      have hsame := (vmshmIoctl_unused (s := s) (h := h') (a := a) p call).2
      rw [outcome] at hsame
      exact hsame ▸ .refl
  | @close h' p at_file =>
      rcases p with _ | b <;> exact .refl

end QueueRegistries

import PiFrame.QueueRegistries

/-!
# A creation that fails

`vmq_create` of `drivers/vmq/main.c` acquires one thing after the other, in both
drivers, and undoes what it has acquired by a ladder of labels that fall through
into each other.  Here each acquisition may be refused.  The failures of
`vmshm_create` are undone by that function itself.

Two rungs are broken.  `vmshm_create` frees an entry that is in the list already
when the module cannot be had, and `err4` calls a destructor that has done what
`err3` and `err2` do then once more.  The rung for a selection that finds another
entry could never work, but without other tasks nothing gets there.
-/

namespace QueueCreation

open LinkedEntries
open QueueRegistries (Mgr Registries Result VMQBufferManager VMQCreateParam baMinPageMask
  linkManager)
open Vmshm (Addr Errno Name Registry addRefcnt lookup newMemory of_lookup vmshmSelect)

/-- Which of the things a creation asks for are refused. -/
structure Refusals where
  ownModule : Bool
  entry : Bool
  base : Bool
  shmModule : Bool
  manager : Bool
  allocator : Bool
  bitmap : Bool
  procEntry : Bool

/-- A call by which the clean-up gives a shared memory back. -/
inductive Act
  | unselect (mem : Addr)
  | remove (mem : Addr)
  deriving DecidableEq

/-- Both drivers, with the reference counts of their modules.  `cleanup` is not
in the source: it lists what the clean-up of this call has given back. -/
structure Drivers where
  reg : Registry
  managers : Entries VMQBufferManager
  vmshmUsers : Int
  vmqUsers : Int
  cleanup : List Act

namespace Drivers

def withReg (s : Drivers) (reg : Registry) : Drivers :=
  { s with reg }

def withManagers (s : Drivers) (managers : Entries VMQBufferManager) : Drivers :=
  { s with managers }

/-- `try_module_get` and `module_put` of the one driver. -/
def useVmshm (s : Drivers) (i : Int) : Drivers :=
  { s with vmshmUsers := s.vmshmUsers + i }

/-- `try_module_get` and `module_put` of the other. -/
def useVmq (s : Drivers) (i : Int) : Drivers :=
  { s with vmqUsers := s.vmqUsers + i }

def note (s : Drivers) (act : Act) : Drivers :=
  { s with cleanup := s.cleanup ++ [act] }

end Drivers

/-! ## The calls into the shared memory driver -/

/-- `vmshm_create`; the new entry gets address `a`. -/
def vmshmCreate (s : Drivers) (f : Refusals) (name : Name) (size perm flags : BitVec 32)
    (a : Addr) : Drivers × Except Errno Addr :=
  match lookup s.reg name with
  | (reg, some _) => (s.withReg reg, .error .eexist)
  | (reg, none) =>
      if size.toInt ≤ 0 then (s.withReg reg, .error .einval)
      else if f.entry then (s.withReg reg, .error .enomem)
      else
        let reg := reg.kzalloc a (newMemory name size perm flags)
        if f.base then (s.withReg (reg.kfree a), .error .enomem)
        else
          let reg := reg.listAddTail a
          -- the entry is freed and stays in the list
          if f.shmModule then (s.withReg (reg.kfree a), .error .einval)
          else ((s.withReg reg).useVmshm 1, .ok a)

/-- `vmshm_remove`, called by the clean-up. -/
def vmshmRemove (s : Drivers) (mem : Addr) : Drivers :=
  match Vmshm.vmshmRemove s.reg mem with
  | (reg, none) => ((s.withReg reg).useVmshm (-1)).note (.remove mem)
  | (reg, some _) => (s.withReg reg).note (.remove mem)

/-- `vmshm_unselect`, called by the clean-up. -/
def vmshmUnselect (s : Drivers) (mem : Addr) : Drivers :=
  (s.withReg (Vmshm.vmshmUnselect s.reg mem)).note (.unselect mem)

/-! ## `drivers/vmq/main.c` -/

/-- `create_buffer_manager`; the new manager gets address `m`.  `none` is a
`ba_create` that divides by zero, or that writes to a bitmap it has not got; it
never gets one for a negative number of pages. -/
def createBufferManager (s : Drivers) (f : Refusals) (mem : Addr) (size pageSize : BitVec 32)
    (m : Mgr) : Option (Drivers × Except Errno Mgr) :=
  if f.manager then some (s, .error .enomem)
  else
    let managers := s.managers.kzalloc m ⟨mem, 0, none⟩
    if pageSize &&& baMinPageMask ≠ 0 ∨ f.allocator then
      some (s.withManagers (managers.kfree m), .error .enomem)
    else if pageSize = 0 ∨ f.bitmap ∨ (size.sdiv pageSize).toInt < 0 then none
    else some (s.withManagers managers, .ok m)

/-- `remove_buffer_manager`. -/
def removeBufferManager (s : Drivers) (m : Mgr) : Drivers :=
  let mem := (s.managers.mem m).mem
  let s := s.withManagers (s.managers.touch m)
  let s := vmshmRemove (vmshmUnselect s mem) mem
  s.withManagers (s.managers.kfree m)

/-- The code of `vmq_create` from `err1` on. -/
def err1 (s : Drivers) : Drivers :=
  s.useVmq (-1)

/-- From `err2` on. -/
def err2 (s : Drivers) (mem : Addr) : Drivers :=
  err1 (vmshmRemove s mem)

/-- From `err3` on. -/
def err3 (s : Drivers) (mem : Addr) : Drivers :=
  err2 (vmshmUnselect s mem) mem

/-- From `err4` on. -/
def err4 (s : Drivers) (mem : Addr) (m : Mgr) : Drivers :=
  err3 (removeBufferManager s m) mem

/-- `vmq_create`, `none` if it never returns.  The new memory and the new
manager get addresses `a` and `m`.  `others` is what other tasks do to the list
between `vmshm_create` and `vmshm_select`. -/
def vmqCreate (s : Drivers) (f : Refusals) (others : Registry → Registry) (a : Addr) (m : Mgr)
    (arg : Except Errno VMQCreateParam) : Option (Drivers × Result) :=
  if f.ownModule then some (s, .error .einval)
  else
    let s := s.useVmq 1
    match arg with
    | .error e => some (err1 s, .error e)
    | .ok crarg =>
        if crarg.name.bytes = [] then some (err1 s, .error .einval)
        else
          match vmshmCreate s f crarg.name crarg.size crarg.perm crarg.flags a with
          | (s, .error e) => some (err1 s, .error e)
          | (s, .ok mem) =>
              let (reg, selected) := vmshmSelect (others s.reg) crarg.name
              let s := s.withReg reg
              if selected ≠ some mem then some (err2 s mem, .error .efault)
              else
                match createBufferManager s f mem crarg.size crarg.pageSize m with
                | none => none
                | some (s, .error e) => some (err3 s mem, .error e)
                | some (s, .ok mgr) =>
                    if f.procEntry then some (err4 s mem mgr, .error .efault)
                    else some (s.withManagers (linkManager s.managers mgr crarg.name), .ok 0)

/-! ## What a failing call owes -/

/-- A state in which a creation may be called. -/
structure Drivers.Sound (s : Drivers) : Prop where
  live : ∀ a ∈ s.reg.list, a ∈ s.reg.live
  sane : s.reg.fault = false
  liveMgr : ∀ m ∈ s.managers.list, m ∈ s.managers.live
  saneMgr : s.managers.fault = false
  begun : s.cleanup = []

/-- Everything is as it was in `s`, and the shared memories are as in `r`.
Nothing has been accessed after it was freed, and nothing given back twice. -/
structure Undone (r : Registry) (s t : Drivers) : Prop where
  managers : t.managers.list = s.managers.list
  memories : t.reg.list = r.list
  refcnt : ∀ b ∈ r.list, (t.reg.mem b).refcnt = (r.mem b).refcnt
  refcntMgr : ∀ b ∈ s.managers.list, (t.managers.mem b).refcnt = (s.managers.mem b).refcnt
  vmshmUsers : t.vmshmUsers = s.vmshmUsers
  vmqUsers : t.vmqUsers = s.vmqUsers
  sane : t.reg.fault = false ∧ t.managers.fault = false
  once : t.cleanup.Nodup

/-- A call that gets as far as putting the new entry into `vmshm_list`. -/
structure Lists (r : Registry) (f : Refusals) (crarg : VMQCreateParam) : Prop where
  ownModule : f.ownModule = false
  named : crarg.name.bytes ≠ []
  new : ∀ b ∈ r.list, (r.mem b).name ≠ crarg.name
  size : 0 < crarg.size.toInt
  entry : f.entry = false
  base : f.base = false

/-- The new entry is in the list, and then the module of its driver cannot be
had, or last of all the proc entry. -/
def Slips (r : Registry) (f : Refusals) : Except Errno VMQCreateParam → Prop
  | .error _ => False
  | .ok crarg => Lists r f crarg ∧ (f.shmModule = true ∨ f.procEntry = true ∧
      f.manager = false ∧ f.allocator = false ∧ crarg.pageSize &&& baMinPageMask = 0)

variable {s t : Drivers} {f : Refusals} {r : Registry} {a : Addr} {m : Mgr} {name : Name}
  {size perm flags : BitVec 32} {crarg : VMQCreateParam} {arg : Except Errno VMQCreateParam}

/-! ## The rungs -/

/-- `vmshm_list` once the new entry is in it. -/
def listed (r : Registry) (crarg : VMQCreateParam) (a : Addr) : Registry :=
  (r.kzalloc a (newMemory crarg.name crarg.size crarg.perm crarg.flags)).listAddTail a

@[simp] theorem listed_list : (listed r crarg a).list = r.list ++ [a] := rfl

@[simp] theorem listed_live : (listed r crarg a).live = insert a r.live := rfl

@[simp] theorem listed_fault : (listed r crarg a).fault = r.fault := by
  simp [listed, Entries.listAddTail, Entries.touch, Entries.kzalloc]

@[simp] theorem listed_mem_self : (listed r crarg a).mem a =
    newMemory crarg.name crarg.size crarg.perm crarg.flags :=
  Function.update_self ..

theorem listed_mem_of_ne {b : Addr} (hb : b ≠ a) : (listed r crarg a).mem b = r.mem b :=
  Entries.kzalloc_mem_of_ne hb

/-- An entry that nobody has selected is given back. -/
theorem err2_of_zero (hlive : a ∈ s.reg.live) (hlist : a ∈ s.reg.list)
    (hzero : (s.reg.mem a).refcnt = 0) :
    err2 s a = { s with
      reg := { s.reg with list := s.reg.list.erase a, live := s.reg.live.erase a }
      vmshmUsers := s.vmshmUsers + -1
      vmqUsers := s.vmqUsers + -1
      cleanup := s.cleanup ++ [.remove a] } := by
  have hremove : Vmshm.vmshmRemove s.reg a =
      ({ s.reg with list := s.reg.list.erase a, live := s.reg.live.erase a }, none) := by
    rw [Vmshm.vmshmRemove_of_zero hlive hzero, Vmshm.remove_of_live hlive hlist]
  rw [err2, vmshmRemove, hremove]
  rfl

/-- One that only this call has selected is given back. -/
theorem err3_of_one (hlive : a ∈ s.reg.live) (hlist : a ∈ s.reg.list)
    (hone : (s.reg.mem a).refcnt = 1) :
    err3 s a = { s with
      reg :=
        { addRefcnt s.reg a (-1) with
          list := s.reg.list.erase a
          live := s.reg.live.erase a
          fault := s.reg.fault }
      vmshmUsers := s.vmshmUsers + -1
      vmqUsers := s.vmqUsers + -1
      cleanup := s.cleanup ++ [.unselect a, .remove a] } := by
  have hzero : ((addRefcnt s.reg a (-1)).mem a).refcnt = 0 := by
    rw [Vmshm.addRefcnt_self, hone]
    rfl
  have hback := err2_of_zero (s := vmshmUnselect s a) (a := a) hlive hlist hzero
  rw [err3, hback]
  simp [vmshmUnselect, Vmshm.vmshmUnselect, Drivers.note, Drivers.withReg, addRefcnt,
    Entries.modify, Entries.touch, hlive]

/-- Whatever `vmshm_remove` finds, it changes no entry. -/
theorem vmshmRemove_mem : (Vmshm.vmshmRemove r a).1.mem = r.mem := by
  rw [Vmshm.vmshmRemove]
  split <;> rfl

theorem err2_mem : (err2 s a).reg.mem = s.reg.mem := by
  have hmem : (Vmshm.vmshmRemove s.reg a).1.mem = s.reg.mem := vmshmRemove_mem
  rw [err2, vmshmRemove]
  cases hremove : Vmshm.vmshmRemove s.reg a with
  | mk reg err =>
      rw [hremove] at hmem
      cases err <;> exact hmem

/-- An entry that is not there any more is given back. -/
theorem err2_of_freed (hgone : a ∉ s.reg.live) : (err2 s a).reg.fault = true := by
  have htouch : (s.reg.touch a).fault = true := by
    simp [Entries.touch, hgone]
  have hfault : (Vmshm.vmshmRemove s.reg a).1.fault = true := by
    rw [Vmshm.vmshmRemove]
    split
    · simp [Vmshm.remove, Entries.kfree, Entries.listDel, Entries.touch, hgone]
    · exact htouch
  rw [err2, vmshmRemove]
  cases hremove : Vmshm.vmshmRemove s.reg a with
  | mk reg err =>
      rw [hremove] at hfault
      cases err <;> exact hfault

/-! ## How far a call gets -/

theorem Drivers.Sound.fresh (hs : s.Sound) (ha : a ∉ s.reg.live) : a ∉ s.reg.list :=
  fun hlist => ha (hs.live a hlist)

/-- Either `vmshm_create` refuses and has undone what it did, or the entry gets
into the list. -/
theorem Drivers.Sound.vmshmCreate_cases (hs : s.Sound)
    {result : Except Errno Addr} (hown : f.ownModule = false) (hnamed : crarg.name.bytes ≠ [])
    (hcreate : vmshmCreate (s.useVmq 1) f crarg.name crarg.size crarg.perm crarg.flags a =
      (t, result)) :
    (∃ e reg, result = .error e ∧ ¬ Lists s.reg f crarg ∧ t = (s.useVmq 1).withReg reg ∧
        reg.list = s.reg.list ∧ (∀ b, b ≠ a → reg.mem b = s.reg.mem b) ∧ reg.fault = false) ∨
      Lists s.reg f crarg ∧ (f.shmModule = true ∧ result = .error .einval ∧
          t.reg.list = s.reg.list ++ [a] ∨
        f.shmModule = false ∧ result = .ok a ∧
          t = ((s.useVmq 1).withReg (listed s.reg crarg a)).useVmshm 1) := by
  rw [vmshmCreate] at hcreate
  cases hlookup : lookup (s.useVmq 1).reg crarg.name with
  | mk reg found =>
      obtain ⟨rfl, hsome, hnone⟩ := of_lookup hs.live hlookup
      rw [hlookup] at hcreate
      rcases found with _ | b
      · dsimp only at hcreate
        by_cases hsize : crarg.size.toInt ≤ 0
        · rw [if_pos hsize] at hcreate
          cases hcreate
          exact .inl ⟨_, s.reg, rfl, fun hlists => absurd hlists.size (by omega), rfl, rfl,
            fun _ _ => rfl, hs.sane⟩
        · rw [if_neg hsize] at hcreate
          by_cases hentry : f.entry = true
          · rw [if_pos hentry] at hcreate
            cases hcreate
            exact .inl ⟨_, s.reg, rfl, fun hlists => by simp [hlists.entry] at hentry, rfl, rfl,
              fun _ _ => rfl, hs.sane⟩
          · rw [if_neg hentry] at hcreate
            by_cases hbase : f.base = true
            · rw [if_pos hbase] at hcreate
              cases hcreate
              refine .inl ⟨_, _, rfl, fun hlists => by simp [hlists.base] at hbase, rfl, rfl,
                fun b hb => Entries.kzalloc_mem_of_ne hb, ?_⟩
              rw [Entries.kfree_of_live (Finset.mem_insert_self ..)]
              exact hs.sane
            · rw [if_neg hbase] at hcreate
              have hlists : Lists s.reg f crarg := ⟨hown, hnamed, hnone rfl, by omega,
                Bool.eq_false_iff.mpr hentry, Bool.eq_false_iff.mpr hbase⟩
              by_cases hmodule : f.shmModule = true
              · rw [if_pos hmodule] at hcreate
                cases hcreate
                exact .inr ⟨hlists, .inl ⟨hmodule, rfl, rfl⟩⟩
              · rw [if_neg hmodule] at hcreate
                cases hcreate
                exact .inr ⟨hlists, .inr ⟨Bool.eq_false_iff.mpr hmodule, rfl, rfl⟩⟩
      · cases hcreate
        exact .inl ⟨_, s.reg, rfl, fun hlists => hlists.new b (hsome b rfl).1 (hsome b rfl).2, rfl,
          rfl, fun _ _ => rfl, hs.sane⟩

/-- Without other tasks the selection finds the new entry, by its name, which is nobody else's. -/
theorem Drivers.Sound.vmshmSelect_listed (hs : s.Sound) (hlists : Lists s.reg f crarg) :
    vmshmSelect (listed s.reg crarg a) crarg.name =
      (addRefcnt (listed s.reg crarg a) a 1, some a) := by
  have hlive : ∀ b ∈ (listed s.reg crarg a).list, b ∈ (listed s.reg crarg a).live := by
    intro b hb
    rw [listed_list, List.mem_append, List.mem_singleton] at hb
    rw [listed_live, Finset.mem_insert]
    exact hb.symm.imp_right (hs.live b)
  have hself : ((listed s.reg crarg a).mem a).name = crarg.name := by
    rw [listed_mem_self]
    rfl
  cases hselect : vmshmSelect (listed s.reg crarg a) crarg.name with
  | mk reg found =>
      rcases found with _ | b
      · obtain ⟨-, hnone⟩ := Vmshm.vmshmSelect_missing hlive hselect
        exact absurd hself (hnone a (by simp))
      · obtain ⟨-, hb, hname, rfl⟩ := Vmshm.vmshmSelect_found hlive hselect
        by_cases hba : b = a
        · rw [hba]
        · rw [listed_mem_of_ne hba] at hname
          rw [listed_list, List.mem_append, List.mem_singleton] at hb
          exact absurd hname (hlists.new b (hb.resolve_right hba))

/-- `create_buffer_manager` refuses and has undone what it did, or the new
manager is there. -/
theorem createBufferManager_cases (hlive : ∀ b ∈ s.managers.list, b ∈ s.managers.live)
    (hsane : s.managers.fault = false) (hm : m ∉ s.managers.live) {mem : Addr}
    {pageSize : BitVec 32} {result : Except Errno Mgr}
    (hcreate : createBufferManager s f mem size pageSize m = some (t, result)) :
    (∃ e managers, result = .error e ∧
        ¬ (f.manager = false ∧ f.allocator = false ∧ pageSize &&& baMinPageMask = 0) ∧
        t = s.withManagers managers ∧ managers.list = s.managers.list ∧
        (∀ b ∈ s.managers.list, managers.mem b = s.managers.mem b) ∧ managers.fault = false) ∨
      f.manager = false ∧ f.allocator = false ∧ pageSize &&& baMinPageMask = 0 ∧ result = .ok m ∧
        t = s.withManagers (s.managers.kzalloc m ⟨mem, 0, none⟩) := by
  rw [createBufferManager] at hcreate
  by_cases hmanager : f.manager = true
  · rw [if_pos hmanager] at hcreate
    cases hcreate
    exact .inl ⟨_, s.managers, rfl, fun hall => by simp [hall.1] at hmanager, rfl, rfl,
      fun _ _ => rfl, hsane⟩
  · rw [if_neg hmanager] at hcreate
    by_cases hpage : pageSize &&& baMinPageMask ≠ 0 ∨ f.allocator = true
    · rw [if_pos hpage] at hcreate
      cases hcreate
      refine .inl ⟨_, _, rfl, fun hall => ?_, rfl, rfl, fun b hb => ?_, ?_⟩
      · rcases hpage with hpage | hallocator
        · exact hpage hall.2.2
        · simp [hall.2.1] at hallocator
      · exact Entries.kzalloc_mem_of_ne fun heq => hm (heq ▸ hlive b hb)
      · rw [Entries.kfree_of_live (Finset.mem_insert_self ..)]
        exact hsane
    · rw [if_neg hpage] at hcreate
      obtain ⟨haligned, hallocator⟩ := not_or.mp hpage
      split at hcreate
      · cases hcreate
      · cases hcreate
        exact .inr ⟨Bool.eq_false_iff.mpr hmanager, Bool.eq_false_iff.mpr hallocator,
          not_not.mp haligned, rfl, rfl⟩

/-! ## Undone or not -/

/-- A call that has nothing to give back but its own module. -/
theorem Drivers.Sound.undone_err1 (hs : s.Sound) (ha : a ∉ s.reg.live) {reg : Registry}
    (hlist : reg.list = s.reg.list) (hmem : ∀ b, b ≠ a → reg.mem b = s.reg.mem b)
    (hsane : reg.fault = false) : Undone s.reg s (err1 ((s.useVmq 1).withReg reg)) := by
  refine ⟨rfl, hlist, fun b hb => ?_, fun _ _ => rfl, rfl, ?_, ⟨hsane, hs.saneMgr⟩,
    hs.begun ▸ List.nodup_nil⟩
  · exact congrArg Vmshm.VMSharedMemory.refcnt (hmem b fun heq => hs.fresh ha (heq ▸ hb))
  · exact Int.add_neg_cancel_right ..

/-- `err3` gives back the entry that was created and selected, and nothing is left of the call. -/
theorem Drivers.Sound.undone_err3 (hs : s.Sound) (ha : a ∉ s.reg.live)
    {managers : Entries VMQBufferManager} (hlist : managers.list = s.managers.list)
    (hmem : ∀ b ∈ s.managers.list, managers.mem b = s.managers.mem b)
    (hsane : managers.fault = false) :
    Undone s.reg s (err3 (((((s.useVmq 1).withReg (listed s.reg crarg a)).useVmshm 1).withReg
      (addRefcnt (listed s.reg crarg a) a 1)).withManagers managers) a) := by
  have hout := hs.fresh ha
  have hlive : a ∈ (listed s.reg crarg a).live := Finset.mem_insert_self ..
  have hselected := Vmshm.addRefcnt_of_live hlive 1
  have hone : ((addRefcnt (listed s.reg crarg a) a 1).mem a).refcnt = 1 := by
    rw [Vmshm.addRefcnt_self, listed_mem_self]
    rfl
  have hfault : (addRefcnt (listed s.reg crarg a) a 1).fault = false := by
    rw [hselected]
    exact listed_fault.trans hs.sane
  rw [err3_of_one (Finset.mem_insert_self ..) (List.mem_append_right _ (List.mem_singleton_self a))
    hone]
  refine ⟨hlist, ?_, fun b hb => ?_, fun b hb => ?_, ?_, ?_, ⟨hfault, hsane⟩, ?_⟩
  · show (s.reg.list ++ [a]).erase a = s.reg.list
    rw [List.erase_append_right _ hout, List.erase_cons_head, List.append_nil]
  · have hne : b ≠ a := fun heq => hout (heq ▸ hb)
    show ((addRefcnt (addRefcnt (listed s.reg crarg a) a 1) a (-1)).mem b).refcnt = _
    rw [Vmshm.addRefcnt_of_ne _ hne, Vmshm.addRefcnt_of_ne _ hne, listed_mem_of_ne hne]
  · exact congrArg VMQBufferManager.refcnt (hmem b hb)
  · exact Int.add_neg_cancel_right ..
  · exact Int.add_neg_cancel_right ..
  · show (s.cleanup ++ [Act.unselect a, Act.remove a]).Nodup
    rw [hs.begun]
    simp

/-- After `remove_buffer_manager` the lower rungs meet what is gone. -/
theorem err4_fault (hlive : a ∈ s.reg.live) (hlist : a ∈ s.reg.list)
    (hone : (s.reg.mem a).refcnt = 1) (hmem : (s.managers.mem m).mem = a) :
    (err4 s a m).reg.fault = true := by
  have hzero : ((addRefcnt s.reg a (-1)).mem a).refcnt = 0 := by
    rw [Vmshm.addRefcnt_self, hone]
    rfl
  have hgone : a ∉ (removeBufferManager s m).reg.live := by
    have hremove : (vmshmRemove (vmshmUnselect (s.withManagers (s.managers.touch m)) a)
        a).reg.live = s.reg.live.erase a := by
      have hback := err2_of_zero (s := vmshmUnselect (s.withManagers (s.managers.touch m)) a)
        (a := a) hlive hlist hzero
      exact congrArg (fun t : Drivers => t.reg.live) hback
    show a ∉ (vmshmRemove (vmshmUnselect (s.withManagers (s.managers.touch m))
      (s.managers.mem m).mem) (s.managers.mem m).mem).reg.live
    rw [hmem, hremove]
    exact Finset.notMem_erase a _
  exact err2_of_freed (s := vmshmUnselect (removeBufferManager s m) a) hgone

/-- A call that has selected its entry and fails then is undone exactly if it does not slip. -/
theorem Drivers.Sound.undone_selected (hs : s.Sound) (ha : a ∉ s.reg.live)
    (hm : m ∉ s.managers.live) (hlists : Lists s.reg f crarg) (hmodule : f.shmModule = false)
    {u v : Drivers} {result : Except Errno Mgr}
    (hu : u = (((s.useVmq 1).withReg (listed s.reg crarg a)).useVmshm 1).withReg
      (addRefcnt (listed s.reg crarg a) a 1))
    (hcreate : createBufferManager u f a crarg.size crarg.pageSize m = some (v, result))
    (herror : ∀ e, result = .error e → t = err3 v a)
    (hok : ∀ mgr, result = .ok mgr → f.procEntry = true ∧ t = err4 v a mgr) :
    Undone s.reg s t ↔ ¬ Slips s.reg f (.ok crarg) := by
  have hmanagers : u.managers = s.managers := hu ▸ rfl
  rcases createBufferManager_cases (hmanagers ▸ hs.liveMgr) (hmanagers ▸ hs.saneMgr)
      (hmanagers ▸ hm) hcreate with
    ⟨e, managers, rfl, hnot, rfl, hlist, hmem, hsane⟩ |
      ⟨hmanager, hallocator, hpage, rfl, rfl⟩
  · subst hu
    rw [herror e rfl]
    refine iff_of_true (hs.undone_err3 ha hlist hmem hsane) fun hslips => ?_
    rcases hslips.2 with hgone | hproc
    · simp [hmodule] at hgone
    · exact hnot hproc.2
  · obtain ⟨hproc, rfl⟩ := hok m rfl
    subst hu
    refine iff_of_false (fun hundone => ?_)
      (not_not.mpr ⟨hlists, .inr ⟨hproc, hmanager, hallocator, hpage⟩⟩)
    have hone : ((addRefcnt (listed s.reg crarg a) a 1).mem a).refcnt = 1 := by
      rw [Vmshm.addRefcnt_self, listed_mem_self]
      rfl
    have hself : (s.managers.kzalloc m ⟨a, 0, none⟩).mem m = ⟨a, 0, none⟩ :=
      Function.update_self ..
    have hfault := err4_fault
      (s := ((((s.useVmq 1).withReg (listed s.reg crarg a)).useVmshm 1).withReg
        (addRefcnt (listed s.reg crarg a) a 1)).withManagers
          (s.managers.kzalloc m ⟨a, 0, none⟩))
      (Finset.mem_insert_self ..) (List.mem_append_right _ (List.mem_singleton_self a)) hone
      (congrArg VMQBufferManager.mem hself)
    exact Bool.false_ne_true (hundone.sane.1.symm.trans hfault)

/-- A call whose selection does not find the new entry fails, and leaves something behind. -/
theorem Drivers.Sound.not_undone_selection (hs : s.Sound) {others : Registry → Registry}
    (hlists : Lists s.reg f crarg) (hmodule : f.shmModule = false)
    (hothers : others (listed s.reg crarg a) = r) (hlive : ∀ b ∈ r.list, b ∈ r.live)
    (hours : a ∈ r.live → a ∈ r.list ∧ (r.mem a).name = crarg.name)
    (hmissed : (lookup r crarg.name).2 ≠ some a) :
    ∃ t, vmqCreate s f others a m (.ok crarg) = some (t, .error .efault) ∧
      ¬ Undone { r with list := r.list.erase a } s t := by
  have hown : ¬ f.ownModule = true := by simp [hlists.ownModule]
  rw [vmqCreate, if_neg hown]
  dsimp only
  rw [if_neg hlists.named]
  cases hshm : vmshmCreate (s.useVmq 1) f crarg.name crarg.size crarg.perm crarg.flags a with
  | mk u result =>
      rcases hs.vmshmCreate_cases hlists.ownModule hlists.named hshm with
        ⟨_, _, _, hnot, _⟩ | ⟨-, ⟨hgone, _⟩ | ⟨-, rfl, rfl⟩⟩
      · exact absurd hlists hnot
      · simp [hmodule] at hgone
      · have hr : others (((s.useVmq 1).withReg (listed s.reg crarg a)).useVmshm 1).reg = r :=
          hothers
        dsimp only
        rw [hr]
        cases hselect : vmshmSelect r crarg.name with
        | mk reg found =>
            have hne : found ≠ some a := by
              rintro rfl
              exact hmissed (Vmshm.vmshmSelect_found hlive hselect).1
            dsimp only
            rw [if_pos hne]
            refine ⟨_, rfl, fun hundone => ?_⟩
            rcases found with _ | b
            · obtain ⟨rfl, hnone⟩ := Vmshm.vmshmSelect_missing hlive hselect
              have hgone : a ∉ reg.live := fun ha => hnone a (hours ha).1 (hours ha).2
              have hfault := err2_of_freed
                (s := (((s.useVmq 1).withReg (listed s.reg crarg a)).useVmshm 1).withReg reg) hgone
              exact Bool.false_ne_true (hundone.sane.1.symm.trans hfault)
            · obtain ⟨-, hb, -, rfl⟩ := Vmshm.vmshmSelect_found hlive hselect
              have hba : b ≠ a := fun heq => hne (congrArg some heq)
              have hcount := hundone.refcnt b ((List.mem_erase_of_ne hba).mpr hb)
              rw [err2_mem] at hcount
              have hone : ((addRefcnt r b 1).mem b).refcnt = (r.mem b).refcnt + 1 :=
                Vmshm.addRefcnt_self 1
              have hsame : ((addRefcnt r b 1).mem b).refcnt = (r.mem b).refcnt := hcount
              omega

/-! ## When nothing is refused -/

/-- Nothing is refused. -/
def noRefusals : Refusals where
  ownModule := false
  entry := false
  base := false
  shmModule := false
  manager := false
  allocator := false
  bitmap := false
  procEntry := false

/-- Both drivers as a sequence of operations leaves them. -/
def ofRegistries (s : Registries) (vmshmUsers vmqUsers : Int) : Drivers where
  reg := s.reg
  managers := s.managers
  vmshmUsers := vmshmUsers
  vmqUsers := vmqUsers
  cleanup := []

/-- Two registries in step are sound, whatever the counts are. -/
theorem ofRegistries_sound {s : Registries} (hinv : QueueRegistries.Inv s) (n k : Int) :
    (ofRegistries s n k).Sound :=
  ⟨hinv.refs.live, hinv.refs.sane, hinv.owned.live, hinv.owned.sane, rfl⟩

/-- `vmshm_create` is then the one of the sequences. -/
theorem vmshmCreate_noRefusals :
    vmshmCreate s noRefusals name size perm flags a =
      match QueueRegistries.vmshmCreate s.reg name size perm flags a with
      | (reg, .error e) => (s.withReg reg, .error e)
      | (reg, .ok mem) => ((s.withReg reg).useVmshm 1, .ok mem) := by
  rw [vmshmCreate, QueueRegistries.vmshmCreate]
  cases hlookup : lookup s.reg name with
  | mk reg found =>
      cases found with
      | some b => rfl
      | none =>
          by_cases hsize : size.toInt ≤ 0
          · simp [hsize]
          · simp [hsize, noRefusals]

/-- The clean-up gives back to the registry what that one gives back. -/
theorem err2_reg : (err2 s a).reg = (Vmshm.vmshmRemove s.reg a).1 ∧
    (err2 s a).managers = s.managers := by
  rw [err2, vmshmRemove]
  cases hremove : Vmshm.vmshmRemove s.reg a with
  | mk reg err => cases err <;> exact ⟨rfl, rfl⟩

/-- Where nothing is refused and no other task comes between, `vmq_create` is the one over the
registries alone. -/
theorem vmqCreate_noRefusals {u : Registries} {n k : Int} {result : Result}
    (hcall : vmqCreate (ofRegistries u n k) noRefusals id a m arg = some (t, result)) :
    QueueRegistries.vmqCreate u a m arg =
      ((u.withReg t.reg).withManagers t.managers, result) := by
  rw [vmqCreate, if_neg (by simp [noRefusals])] at hcall
  rcases arg with e | crarg
  · cases hcall
    rfl
  · dsimp only at hcall
    rw [QueueRegistries.vmqCreate]
    by_cases hnamed : crarg.name.bytes = []
    · rw [if_pos hnamed] at hcall ⊢
      cases hcall
      rfl
    · rw [if_neg hnamed] at hcall ⊢
      rw [vmshmCreate_noRefusals] at hcall
      have hreg : ((ofRegistries u n k).useVmq 1).reg = u.reg := rfl
      rw [hreg] at hcall
      cases hshm : QueueRegistries.vmshmCreate u.reg crarg.name crarg.size crarg.perm
          crarg.flags a with
      | mk reg created =>
          rw [hshm] at hcall
          cases created with
          | error e =>
              cases hcall
              rfl
          | ok mem =>
              dsimp only [id_eq, Drivers.useVmshm, Drivers.withReg] at hcall ⊢
              by_cases hfound : (vmshmSelect reg crarg.name).2 ≠ some mem
              · rw [if_pos hfound] at hcall ⊢
                cases hcall
                rw [err2_reg.1, err2_reg.2]
                rfl
              · rw [if_neg hfound] at hcall ⊢
                rw [createBufferManager, if_neg (by simp [noRefusals])] at hcall
                rw [QueueRegistries.createBufferManager]
                by_cases hpage : crarg.pageSize &&& baMinPageMask ≠ 0
                · rw [if_pos (.inl hpage)] at hcall
                  rw [if_pos hpage]
                  cases hcall
                  rw [err3, err2_reg.1, err2_reg.2]
                  rfl
                · rw [if_neg (by simpa [noRefusals] using hpage)] at hcall
                  rw [if_neg hpage]
                  by_cases hstuck : crarg.pageSize = 0 ∨ noRefusals.bitmap = true ∨
                      (crarg.size.sdiv crarg.pageSize).toInt < 0
                  · rw [if_pos hstuck] at hcall
                    cases hcall
                  · rw [if_neg hstuck] at hcall
                    cases hcall
                    rfl

/-- **What a failing creation undoes.**  A call that fails while no other task
interferes leaves everything as it was, and gives back once what it had, unless
the module of the other driver cannot be had or the proc entry not be made.  If
other tasks have made the selection fail, by taking the new entry away or adding
one of its name, the clean-up is never right.  They do not get its address while
it is there. -/
theorem create_undone (hs : s.Sound) (ha : a ∉ s.reg.live) (hm : m ∉ s.managers.live) :
    (∀ t e, vmqCreate s f id a m arg = some (t, .error e) →
        (Undone s.reg s t ↔ ¬ Slips s.reg f arg)) ∧
      ∀ (others : Registry → Registry) crarg r, arg = .ok crarg → Lists s.reg f crarg →
        f.shmModule = false → others (listed s.reg crarg a) = r →
        (∀ b ∈ r.list, b ∈ r.live) →
        (a ∈ r.live → a ∈ r.list ∧ (r.mem a).name = crarg.name) →
        (lookup r crarg.name).2 ≠ some a →
        ∃ t, vmqCreate s f others a m arg = some (t, .error .efault) ∧
          ¬ Undone { r with list := r.list.erase a } s t := by
  constructor
  · intro t e hcall
    rw [vmqCreate] at hcall
    by_cases hown : f.ownModule = true
    · rw [if_pos hown] at hcall
      cases hcall
      refine iff_of_true ?_ fun hslips => ?_
      · exact ⟨rfl, rfl, fun _ _ => rfl, fun _ _ => rfl, rfl, rfl, ⟨hs.sane, hs.saneMgr⟩,
          hs.begun ▸ List.nodup_nil⟩
      · cases arg with
        | error e => exact hslips
        | ok crarg => simp [hslips.1.ownModule] at hown
    · rw [if_neg hown] at hcall
      have hown' := Bool.eq_false_iff.mpr hown
      rcases arg with e' | crarg
      · cases hcall
        exact iff_of_true (hs.undone_err1 ha rfl (fun _ _ => rfl) hs.sane) fun hslips => hslips
      · dsimp only at hcall
        by_cases hnamed : crarg.name.bytes = []
        · rw [if_pos hnamed] at hcall
          cases hcall
          exact iff_of_true (hs.undone_err1 ha rfl (fun _ _ => rfl) hs.sane)
            fun hslips => hslips.1.named hnamed
        · rw [if_neg hnamed] at hcall
          cases hshm : vmshmCreate (s.useVmq 1) f crarg.name crarg.size crarg.perm
              crarg.flags a with
          | mk u result =>
              rw [hshm] at hcall
              rcases hs.vmshmCreate_cases hown' hnamed hshm with
                ⟨e', reg, rfl, hnot, rfl, hlist, hmem, hfault⟩ |
                  ⟨hlists, ⟨hmodule, rfl, hlist⟩ | ⟨hmodule, rfl, rfl⟩⟩
              · cases hcall
                exact iff_of_true (hs.undone_err1 ha hlist hmem hfault)
                  fun hslips => hnot hslips.1
              · cases hcall
                refine iff_of_false (fun hundone => ?_) (not_not.mpr ⟨hlists, .inl hmodule⟩)
                have hsame : s.reg.list ++ [a] = s.reg.list := hlist.symm.trans hundone.memories
                exact hs.fresh ha (hsame ▸ List.mem_append_right _ (List.mem_singleton_self a))
              · have hselect : vmshmSelect (id (((s.useVmq 1).withReg
                    (listed s.reg crarg a)).useVmshm 1).reg) crarg.name =
                      (addRefcnt (listed s.reg crarg a) a 1, some a) :=
                  hs.vmshmSelect_listed hlists
                dsimp only at hcall
                rw [hselect] at hcall
                dsimp only at hcall
                rw [if_neg (fun hne => hne rfl)] at hcall
                cases hcreate : createBufferManager ((((s.useVmq 1).withReg
                    (listed s.reg crarg a)).useVmshm 1).withReg
                      (addRefcnt (listed s.reg crarg a) a 1)) f a crarg.size crarg.pageSize m with
                | none =>
                    rw [hcreate] at hcall
                    cases hcall
                | some made =>
                    rw [hcreate] at hcall
                    obtain ⟨v, result⟩ := made
                    refine hs.undone_selected ha hm hlists hmodule rfl hcreate ?_ ?_
                    · rintro e' rfl
                      cases hcall
                      rfl
                    · rintro mgr rfl
                      dsimp only at hcall
                      by_cases hproc : f.procEntry = true
                      · rw [if_pos hproc] at hcall
                        cases hcall
                        exact ⟨hproc, rfl⟩
                      · rw [if_neg hproc] at hcall
                        cases hcall
  · rintro others crarg r rfl hlists hmodule hothers hlive hours hmissed
    exact hs.not_undone_selection hlists hmodule hothers hlive hours hmissed

/-- Both drivers right after they were loaded. -/
def loaded : Drivers :=
  ofRegistries (QueueRegistries.init (fun _ => newMemory QueueRegistries.smallQueue.name 0 0 0)
    fun _ => ⟨0, 0, none⟩) 0 0

/-- The drivers are sound when they have been loaded. -/
theorem loaded_sound : loaded.Sound :=
  ofRegistries_sound (QueueRegistries.Inv.init _ _) 0 0

/-- There is no memory for the manager of the small queue. -/
theorem create_undone_no_manager : ∃ t,
    vmqCreate loaded { noRefusals with manager := true } id 7 9
        (.ok QueueRegistries.smallQueue) = some (t, .error .enomem) ∧
      Undone loaded.reg loaded t ∧ t.cleanup = [.unselect 7, .remove 7] := by
  have hcall : vmqCreate loaded { noRefusals with manager := true } id 7 9
      (.ok QueueRegistries.smallQueue) = some (_, .error .enomem) := rfl
  have hslips : ¬ Slips loaded.reg { noRefusals with manager := true }
      (.ok QueueRegistries.smallQueue) := fun hslips => by
    simp [Slips, noRefusals] at hslips
  exact ⟨_, hcall, ((create_undone loaded_sound (Finset.notMem_empty 7)
    (Finset.notMem_empty 9)).1 _ _ hcall).mpr hslips, rfl⟩

/-- The proc entry of the small queue cannot be made: its memory is unselected
and removed, and then once more when it is gone. -/
theorem created_undone_twice : ∃ s f a m arg t e,
    s.Sound ∧ a ∉ s.reg.live ∧ m ∉ s.managers.live ∧
      vmqCreate s f id a m arg = some (t, .error e) ∧ ¬ Undone s.reg s t ∧
      t.cleanup = [.unselect a, .remove a, .unselect a, .remove a] ∧ t.reg.fault = true := by
  have hcall : vmqCreate loaded { noRefusals with procEntry := true } id 7 9
      (.ok QueueRegistries.smallQueue) = some (_, .error .efault) := rfl
  refine ⟨_, _, _, _, _, _, _, loaded_sound, Finset.notMem_empty 7, Finset.notMem_empty 9, hcall,
    fun hundone => ?_, rfl, rfl⟩
  exact Bool.false_ne_true (hundone.sane.1.symm.trans rfl)

end QueueCreation

import PiFrame.Headcount
import PiFrame.Transition
import PiFrame.VmqDriver
import PiFrame.VmshmRegistry

/-!
# The life of a buffer manager

`drivers/vmq/main.c` once more, now for all buffer managers in
`vmq_buffer_list` and without what goes on inside one of them.  A manager is
created by `VMQ_CREATE`, found by its name by `VMQ_SETUP` and `VMQ_REMOVE`,
counted by `VMQ_SETUP` and by the release of the file, and freed by
`VMQ_REMOVE`.  Each section under a mutex and each atomic operation is a step,
and any number of tasks take them in any order.

`lookup_buffer_manager` does not count the manager it returns, and `VMQ_REMOVE`
tests the count in one step, takes the manager out of the list in a later one
and frees it in a third.  `Careful` keeps lookups out of the time between its
test and its list section, and keeps the test away from tasks that have looked
the manager up and not come to the count; then no manager is freed that is used
or going to be used.
-/

namespace VmqManagers

open Headcount LinkedEntries Transition
open Vmq (Errno VMQType)
open Vmshm (Name)

/-- The address of a `struct VMQBufferManager`. -/
abbrev Mgr := Nat

/-- An open file of the device. -/
abbrev Filp := Nat

/-- A task that calls into the driver. -/
abbrev Task := Nat

/-- `struct VMQBufferManager`; its name is that of its shared memory. -/
structure VMQBufferManager where
  name : Name
  refcnt : Int
  deriving DecidableEq

/-- `struct VMQContext`, as far as it says who uses which manager. -/
structure VMQContext where
  type : VMQType
  mgr : Mgr
  deriving DecidableEq, Repr

inductive File
  | opened (privateData : Option VMQContext)
  | closed
  deriving DecidableEq, Repr

/-- An ioctl with the argument it copies from the user, or the error met on
the way. -/
inductive Ioctl
  | create (name : Except Errno Name)
  | remove (name : Except Errno Name)
  | setup (arg : Except Errno (Name × Int))

/-- Where the call of a task stands. -/
inductive Call
  | idle
  | creating (name : Name)
  | built (mgr : Mgr)
  | removing (name : Name)
  | found (mgr : Mgr)
  | unlinking (mgr : Mgr)
  | freeing (mgr : Mgr)
  | settingUp (h : Filp) (name : Name) (type : Int)
  | looked (h : Filp) (mgr : Mgr) (type : Int)
  | counted (h : Filp) (ctxt : VMQContext)
  | joined (h : Filp) (ctxt : VMQContext)
  | releasing (ctxt : VMQContext)
  | leaving (ctxt : VMQContext)
  deriving DecidableEq

/-- The file that a `VMQ_SETUP` is going to give a context. -/
def Call.file : Call → Option Filp
  | .settingUp h _ _ => some h
  | .looked h _ _ => some h
  | .counted h _ => some h
  | .joined h _ => some h
  | _ => none

/-- The manager that the call has counted. -/
def Call.counts : Call → Option Mgr
  | .counted _ ctxt => some ctxt.mgr
  | .joined _ ctxt => some ctxt.mgr
  | .releasing ctxt => some ctxt.mgr
  | .leaving ctxt => some ctxt.mgr
  | _ => none

/-- The manager that the call uses, or will use: it belongs to a context, or
`VMQ_SETUP` has looked it up. -/
def Call.uses : Call → Option Mgr
  | .looked _ mgr _ => some mgr
  | c => c.counts

/-- The manager that the call has looked up and not counted. -/
def Call.inspects : Call → Option Mgr
  | .looked _ mgr _ => some mgr
  | .found mgr => some mgr
  | .unlinking mgr => some mgr
  | _ => none

/-- The driver. -/
structure Driver where
  managers : Entries VMQBufferManager
  files : Filp → File
  calls : Task → Call

/-- What can be seen of a step. -/
inductive Event
  | run
  | ret (err : Option Errno)

namespace Driver

/-- Task `k` goes on to `c`. -/
def goto (s : Driver) (k : Task) (c : Call) : Driver :=
  { s with calls := Function.update s.calls k c }

def withManagers (s : Driver) (managers : Entries VMQBufferManager) : Driver :=
  { s with managers }

def withFile (s : Driver) (h : Filp) (f : File) : Driver :=
  { s with files := Function.update s.files h f }

end Driver

/-- `lookup_buffer_manager`. -/
def lookupBufferManager (managers : Entries VMQBufferManager) (name : Name) :
    Entries VMQBufferManager × Option Mgr :=
  managers.find fun mgr => mgr.name = name

/-- `atomic_add(i, &mgr->refcnt)`. -/
def addRefcnt (managers : Entries VMQBufferManager) (a : Mgr) (i : Int) :
    Entries VMQBufferManager :=
  managers.modify a fun mgr => { mgr with refcnt := mgr.refcnt + i }

/-- The name of an ioctl, which must not be empty. -/
def checkName : Except Errno Name → Except Errno Name
  | .error e => .error e
  | .ok name => if name.bytes = [] then .error .einval else .ok name

/-- `vmq_ioctl` up to the first section. -/
def vmqIoctl (h : Filp) (privateData : Option VMQContext) : Ioctl → Except Errno Call
  | .create name => (checkName name).map Call.creating
  | .remove name => (checkName name).map Call.removing
  | .setup arg =>
      match privateData with
      | some _ => .error .einval
      | none =>
          match arg with
          | .error e => .error e
          | .ok (name, type) => (checkName (.ok name)).map fun name => .settingUp h name type

/-- `setup.type`. -/
def setupType (type : Int) : Option VMQType :=
  if type = 0 then some .producer else if type = 1 then some .consumer else none

/-- The atomic steps, each labelled with the task it belongs to. -/
inductive Step : Driver → Task × Event → Driver → Prop
  | ioctlRefused {s : Driver} {k : Task} {h : Filp} {p : Option VMQContext} {call : Ioctl}
      {e : Errno} (at_call : s.calls k = .idle) (at_file : s.files h = .opened p)
      (outcome : vmqIoctl h p call = .error e) :
      Step s (k, .ret (some e)) s
  | ioctlEntered {s : Driver} {k : Task} {h : Filp} {p : Option VMQContext} {call : Ioctl}
      {c : Call} (at_call : s.calls k = .idle) (at_file : s.files h = .opened p)
      (outcome : vmqIoctl h p call = .ok c) :
      Step s (k, .run) (s.goto k c)
  /-- The shared memory or the manager cannot be created, and what there was of
  them is gone again. -/
  | createRefused {s : Driver} {k : Task} {name : Name} {e : Errno}
      (at_call : s.calls k = .creating name) :
      Step s (k, .ret (some e)) (s.goto k .idle)
  /-- `create_buffer_manager`. -/
  | build {s : Driver} {k : Task} {name : Name} {a : Mgr} (at_call : s.calls k = .creating name)
      (free : a ∉ s.managers.live) :
      Step s (k, .run) ((s.withManagers (s.managers.kzalloc a ⟨name, 0⟩)).goto k (.built a))
  /-- There is no proc entry, and `remove_buffer_manager` takes the manager
  back. -/
  | procFailed {s : Driver} {k : Task} {a : Mgr} (at_call : s.calls k = .built a) :
      Step s (k, .ret (some .efault)) ((s.withManagers (s.managers.kfree a)).goto k .idle)
  | link {s : Driver} {k : Task} {a : Mgr} (at_call : s.calls k = .built a) :
      Step s (k, .ret none) ((s.withManagers (s.managers.listAddTail a)).goto k .idle)
  | removeFound {s : Driver} {k : Task} {name : Name} {managers : Entries VMQBufferManager}
      {a : Mgr} (at_call : s.calls k = .removing name)
      (outcome : lookupBufferManager s.managers name = (managers, some a)) :
      Step s (k, .run) ((s.withManagers managers).goto k (.found a))
  | removeMissing {s : Driver} {k : Task} {name : Name} {managers : Entries VMQBufferManager}
      (at_call : s.calls k = .removing name)
      (outcome : lookupBufferManager s.managers name = (managers, none)) :
      Step s (k, .ret (some .enoent)) ((s.withManagers managers).goto k .idle)
  | busy {s : Driver} {k : Task} {a : Mgr} (at_call : s.calls k = .found a)
      (test : (s.managers.mem a).refcnt ≠ 0) :
      Step s (k, .ret (some .ebusy)) ((s.withManagers (s.managers.touch a)).goto k .idle)
  | unused {s : Driver} {k : Task} {a : Mgr} (at_call : s.calls k = .found a)
      (test : (s.managers.mem a).refcnt = 0) :
      Step s (k, .run) ((s.withManagers (s.managers.touch a)).goto k (.unlinking a))
  | unlink {s : Driver} {k : Task} {a : Mgr} (at_call : s.calls k = .unlinking a) :
      Step s (k, .run) ((s.withManagers (s.managers.listDel a)).goto k (.freeing a))
  /-- `remove_buffer_manager`. -/
  | free {s : Driver} {k : Task} {a : Mgr} (at_call : s.calls k = .freeing a) :
      Step s (k, .ret none) ((s.withManagers (s.managers.kfree a)).goto k .idle)
  | setupFound {s : Driver} {k : Task} {h : Filp} {name : Name} {type : Int}
      {managers : Entries VMQBufferManager} {a : Mgr}
      (at_call : s.calls k = .settingUp h name type)
      (outcome : lookupBufferManager s.managers name = (managers, some a)) :
      Step s (k, .run) ((s.withManagers managers).goto k (.looked h a type))
  | setupMissing {s : Driver} {k : Task} {h : Filp} {name : Name} {type : Int}
      {managers : Entries VMQBufferManager} (at_call : s.calls k = .settingUp h name type)
      (outcome : lookupBufferManager s.managers name = (managers, none)) :
      Step s (k, .ret (some .einval)) ((s.withManagers managers).goto k .idle)
  /-- No memory for the context. -/
  | setupFailed {s : Driver} {k : Task} {h : Filp} {a : Mgr} {type : Int}
      (at_call : s.calls k = .looked h a type) :
      Step s (k, .ret (some .enomem)) (s.goto k .idle)
  | setupRefused {s : Driver} {k : Task} {h : Filp} {a : Mgr} {type : Int}
      (at_call : s.calls k = .looked h a type) (test : setupType type = none) :
      Step s (k, .ret (some .einval)) (s.goto k .idle)
  /-- `atomic_inc(&mgr->refcnt)`. -/
  | count {s : Driver} {k : Task} {h : Filp} {a : Mgr} {type : Int} {vmqType : VMQType}
      (at_call : s.calls k = .looked h a type) (test : setupType type = some vmqType) :
      Step s (k, .run)
        ((s.withManagers (addRefcnt s.managers a 1)).goto k (.counted h ⟨vmqType, a⟩))
  /-- The section that puts the context into a list of its manager. -/
  | register {s : Driver} {k : Task} {h : Filp} {ctxt : VMQContext}
      (at_call : s.calls k = .counted h ctxt) :
      Step s (k, .run) ((s.withManagers (s.managers.touch ctxt.mgr)).goto k (.joined h ctxt))
  /-- `filp->private_data = ctxt`. -/
  | store {s : Driver} {k : Task} {h : Filp} {ctxt : VMQContext}
      (at_call : s.calls k = .joined h ctxt) :
      Step s (k, .ret none) ((s.withFile h (.opened (some ctxt))).goto k .idle)
  /-- `vmq_release`, once no call on the file is in flight. -/
  | releaseUnused {s : Driver} {k : Task} {h : Filp} (at_call : s.calls k = .idle)
      (at_file : s.files h = .opened none) (ended : ∀ k, (s.calls k).file ≠ some h) :
      Step s (k, .ret none) (s.withFile h .closed)
  | release {s : Driver} {k : Task} {h : Filp} {ctxt : VMQContext} (at_call : s.calls k = .idle)
      (at_file : s.files h = .opened (some ctxt)) (ended : ∀ k, (s.calls k).file ≠ some h) :
      Step s (k, .run) ((s.withFile h .closed).goto k (.releasing ctxt))
  /-- The section that takes the context out of its list, and the wake-up. -/
  | leave {s : Driver} {k : Task} {ctxt : VMQContext} (at_call : s.calls k = .releasing ctxt) :
      Step s (k, .run) ((s.withManagers (s.managers.touch ctxt.mgr)).goto k (.leaving ctxt))
  /-- `atomic_dec(&mgr->refcnt)`. -/
  | drop {s : Driver} {k : Task} {ctxt : VMQContext} (at_call : s.calls k = .leaving ctxt) :
      Step s (k, .ret none) ((s.withManagers (addRefcnt s.managers ctxt.mgr (-1))).goto k .idle)

/-- The driver right after it was loaded. -/
def init (mem : Mgr → VMQBufferManager) : Driver where
  managers := { mem, live := ∅, list := [], fault := false }
  files := fun _ => .opened none
  calls := fun _ => .idle

/-! ## What is kept and what it takes -/

/-- Whatever has a context, or is about to have one, has a manager that is in
the list and allocated; and no manager is accessed or freed after it was
freed. -/
structure Driver.Sound (s : Driver) : Prop where
  files : ∀ h ctxt, s.files h = .opened (some ctxt) →
    ctxt.mgr ∈ s.managers.list ∧ ctxt.mgr ∈ s.managers.live
  calls : ∀ k a, (s.calls k).uses = some a → a ∈ s.managers.list ∧ a ∈ s.managers.live
  sane : s.managers.fault = false

/-- A lookup finds no manager that a `VMQ_REMOVE` is taking out of the list. -/
def Driver.LookupClear (s : Driver) (name : Name) : Prop :=
  ∀ a, (lookupBufferManager s.managers name).2 = some a → ∀ l, s.calls l ≠ .unlinking a

/-- What keeps the lookups and the removals of a manager apart. -/
def Driver.Careful (s : Driver) (e : Task × Event) : Prop :=
  match s.calls e.1 with
  | .removing name => s.LookupClear name
  | .settingUp _ name _ => s.LookupClear name
  | .found a => (s.managers.mem a).refcnt = 0 → ∀ l, l ≠ e.1 → (s.calls l).inspects ≠ some a
  | _ => True

def CarefulStep (s : Driver) (e : Task × Event) (t : Driver) : Prop :=
  Step s e t ∧ s.Careful e

/-! ## The invariant -/

/-- The manager in the hands of a call. -/
def Call.mgr : Call → Option Mgr
  | .built a => some a
  | .found a => some a
  | .unlinking a => some a
  | .freeing a => some a
  | c => c.uses

/-- The manager that the call has for itself. -/
def Call.owns : Call → Option Mgr
  | .built a => some a
  | .unlinking a => some a
  | .freeing a => some a
  | _ => none

/-- What a call relies on. -/
def Call.Fits (m : Entries VMQBufferManager) : Call → Prop
  | .built a => a ∈ m.live ∧ a ∉ m.list ∧ (m.mem a).refcnt = 0
  | .freeing a => a ∈ m.live ∧ a ∉ m.list
  | .unlinking a => a ∈ m.list ∧ (m.mem a).refcnt = 0
  | c => ∀ a, c.mgr = some a → a ∈ m.list

/-- Those that manager `a` has counted: files with a context, and calls. -/
def Refers (files : Filp → File) (calls : Task → Call) (a : Mgr) : Filp ⊕ Task → Prop
  | .inl h => ∃ ctxt, files h = .opened (some ctxt) ∧ ctxt.mgr = a
  | .inr k => (calls k).counts = some a

/-- The bookkeeping of all managers is in order. -/
structure Inv (m : Entries VMQBufferManager) (files : Filp → File) (calls : Task → Call) :
    Prop where
  nodup : m.list.Nodup
  live : ∀ a ∈ m.list, a ∈ m.live
  sane : m.fault = false
  fits : ∀ k, (calls k).Fits m
  listed : ∀ h ctxt, files h = .opened (some ctxt) → ctxt.mgr ∈ m.list
  alone : ∀ k l a, (calls k).owns = some a → (calls l).mgr = some a → l = k
  unowned : ∀ k h ctxt, files h = .opened (some ctxt) → (calls k).owns ≠ some ctxt.mgr
  covers : ∀ a ∈ m.list, Covers (Refers files calls a) (m.mem a).refcnt

variable {m m' : Entries VMQBufferManager} {files : Filp → File} {calls : Task → Call}
  {k l : Task} {h : Filp} {a b : Mgr} {c : Call} {ctxt : VMQContext} {s t : Driver}

/-- A call that is counted works on the manager that counts it. -/
theorem Call.mgr_of_counts (hc : c.counts = some a) : c.mgr = some a := by
  cases c <;> first | exact hc | cases hc

theorem Call.mgr_of_owns (hc : c.owns = some a) : c.mgr = some a := by
  cases c <;> first | exact hc | cases hc

/-- A call that uses a manager has none for itself. -/
theorem Call.listed_of_uses (hc : c.uses = some a) (hfits : c.Fits m) : a ∈ m.list := by
  cases c <;> first | exact hfits a hc | cases hc

/-- A call that fits works on a manager that is there. -/
theorem Call.live_of_mgr (hc : c.mgr = some a) (hfits : c.Fits m)
    (hlive : ∀ a ∈ m.list, a ∈ m.live) : a ∈ m.live := by
  cases c with
  | built b =>
      cases hc
      exact hfits.1
  | freeing b =>
      cases hc
      exact hfits.1
  | unlinking b =>
      cases hc
      exact hlive a hfits.1
  | _ => exact hlive a (hfits a hc)

/-- A call does not notice what happens to the manager of another. -/
theorem Call.fits_congr (hfits : c.Fits m) (hne : c.mgr ≠ some a)
    (hlist : ∀ b, b ≠ a → (b ∈ m'.list ↔ b ∈ m.list))
    (hlive : ∀ b, b ≠ a → b ∈ m.live → b ∈ m'.live)
    (hmem : ∀ b, b ≠ a → b ∈ m.live → m'.mem b = m.mem b) (hm : ∀ a ∈ m.list, a ∈ m.live) :
    c.Fits m' := by
  cases c with
  | built b =>
      have hb : b ≠ a := fun heq => hne (congrArg some heq)
      obtain ⟨hb₁, hb₂, hb₃⟩ := hfits
      exact ⟨hlive b hb hb₁, fun hin => hb₂ ((hlist b hb).mp hin), by rw [hmem b hb hb₁]; exact hb₃⟩
  | freeing b =>
      have hb : b ≠ a := fun heq => hne (congrArg some heq)
      exact ⟨hlive b hb hfits.1, fun hin => hfits.2 ((hlist b hb).mp hin)⟩
  | unlinking b =>
      have hb : b ≠ a := fun heq => hne (congrArg some heq)
      exact ⟨(hlist b hb).mpr hfits.1, by rw [hmem b hb (hm b hfits.1)]; exact hfits.2⟩
  | _ =>
      intro b hc
      have hb : b ≠ a := fun heq => hne (heq ▸ hc)
      exact (hlist b hb).mpr (hfits b hc)

/-- A property of all calls after one of them has moved. -/
theorem forall_calls {P : Task → Call → Prop} (hk : P k c) (hother : ∀ l, l ≠ k → P l (calls l)) :
    ∀ l, P l (Function.update calls k c l) :=
  (Function.forall_update_iff calls P).mpr ⟨hk, hother⟩

/-- What the others have counted. -/
theorem refers_other {files' : Filp → File} {calls' : Task → Call}
    (hfiles : ∀ h ctxt, files' h = .opened (some ctxt) → ctxt.mgr = b →
      files h = .opened (some ctxt))
    (hcalls : ∀ l, (calls' l).counts = some b → (calls l).counts = some b) (u : Filp ⊕ Task)
    (hu : Refers files' calls' b u) : Refers files calls b u := by
  rcases u with h | l
  · obtain ⟨ctxt, hfile, rfl⟩ := hu
    exact ⟨ctxt, hfiles h ctxt hfile rfl, rfl⟩
  · exact hcalls l hu

/-- Task `k` does something to a manager that nobody else knows: it is being made, or has just
been taken out of the list. -/
theorem Inv.change (hinv : Inv m files calls)
    (hlist : ∀ b, b ≠ a → (b ∈ m'.list ↔ b ∈ m.list))
    (hlive : ∀ b, b ≠ a → b ∈ m.live → b ∈ m'.live)
    (hmem : ∀ b, b ≠ a → b ∈ m.live → m'.mem b = m.mem b)
    (hnodup : m'.list.Nodup) (hself : a ∈ m'.list → a ∈ m'.live ∧ (m'.mem a).refcnt = 0)
    (hsane : m'.fault = false) (halone : ∀ l, l ≠ k → (calls l).mgr ≠ some a)
    (hfiles : ∀ h ctxt, files h = .opened (some ctxt) → ctxt.mgr ≠ a)
    (hbefore : (calls k).counts = none) (hfits : c.Fits m')
    (hmgr : ∀ b, c.mgr = some b → b = a) (hcounts : c.counts = none) :
    Inv m' files (Function.update calls k c) := by
  have hsame : ∀ b u, Refers files (Function.update calls k c) b u → Refers files calls b u := by
    intro b u hu
    apply refers_other (fun h ctxt hfile _ => hfile) ?_ u hu
    intro l hl
    by_cases hlk : l = k
    · rw [hlk, Function.update_self, hcounts] at hl
      cases hl
    · rw [Function.update_of_ne hlk] at hl
      exact hl
  refine ⟨hnodup, fun b hb => ?_, hsane, ?_, fun h ctxt hfile => ?_, ?_, ?_, fun b hb => ?_⟩
  · by_cases hba : b = a
    · subst hba
      exact (hself hb).1
    · exact hlive b hba (hinv.live b ((hlist b hba).mp hb))
  · refine forall_calls (P := fun _ c => c.Fits m') hfits fun l hl => ?_
    exact Call.fits_congr (hinv.fits l) (halone l hl) hlist hlive hmem hinv.live
  · exact (hlist _ (hfiles h ctxt hfile)).mpr (hinv.listed h ctxt hfile)
  · intro l l' b hl hl'
    by_cases hlk : l = k <;> by_cases hlk' : l' = k
    · rw [hlk, hlk']
    · rw [hlk, Function.update_self] at hl
      rw [Function.update_of_ne hlk', hmgr b (Call.mgr_of_owns hl)] at hl'
      exact absurd hl' (halone l' hlk')
    · rw [hlk', Function.update_self] at hl'
      rw [Function.update_of_ne hlk, hmgr b hl'] at hl
      exact absurd (Call.mgr_of_owns hl) (halone l hlk)
    · rw [Function.update_of_ne hlk] at hl
      rw [Function.update_of_ne hlk'] at hl'
      exact hinv.alone l l' b hl hl'
  · refine forall_calls (P := fun _ c => ∀ h ctxt, files h = .opened (some ctxt) →
      c.owns ≠ some ctxt.mgr) ?_ fun l _ => hinv.unowned l
    intro h ctxt hfile hown
    exact hfiles h ctxt hfile (hmgr _ (Call.mgr_of_owns hown))
  · by_cases hba : b = a
    · subst hba
      rw [(hself hb).2]
      apply Covers.zero
      intro u hu
      rcases u with h | l
      · obtain ⟨ctxt, hfile, heq⟩ := hu
        exact hfiles h ctxt hfile heq
      · have hl := hsame b (.inr l) hu
        have hlk : l ≠ k := by
          rintro rfl
          rw [Refers, hbefore] at hl
          cases hl
        exact halone l hlk (Call.mgr_of_counts hl)
    · have hb' := (hlist b hba).mp hb
      rw [hmem b hba (hinv.live b hb')]
      exact (hinv.covers b hb').mono (hsame b)

/-- A call goes on without a manager of its own, and its share of the counts stays what it was. -/
theorem Inv.goto (hinv : Inv m files calls) (hfits : c.Fits m) (howns : c.owns = none)
    (hfree : ∀ a, c.mgr = some a → ∀ l, l ≠ k → (calls l).owns ≠ some a)
    (hcounts : ∀ a, c.counts = some a → (calls k).counts = some a) :
    Inv m files (Function.update calls k c) := by
  refine ⟨hinv.nodup, hinv.live, hinv.sane, ?_, hinv.listed, ?_, ?_, fun b hb => ?_⟩
  · exact forall_calls (P := fun _ c => c.Fits m) hfits fun l _ => hinv.fits l
  · intro l l' b hl hl'
    have hlk : l ≠ k := by
      rintro rfl
      rw [Function.update_self, howns] at hl
      cases hl
    rw [Function.update_of_ne hlk] at hl
    by_cases hlk' : l' = k
    · rw [hlk', Function.update_self] at hl'
      exact absurd hl (hfree b hl' l hlk)
    · rw [Function.update_of_ne hlk'] at hl'
      exact hinv.alone l l' b hl hl'
  · refine forall_calls (P := fun _ c => ∀ h ctxt, files h = .opened (some ctxt) →
      c.owns ≠ some ctxt.mgr) ?_ fun l _ => hinv.unowned l
    intro h ctxt _ hown
    rw [howns] at hown
    cases hown
  · refine (hinv.covers b hb).mono (refers_other (fun h ctxt hfile _ => hfile) fun l hl => ?_)
    by_cases hlk : l = k
    · rw [hlk, Function.update_self] at hl
      rw [hlk]
      exact hcounts b hl
    · rw [Function.update_of_ne hlk] at hl
      exact hl

/-- A call ends. -/
theorem Inv.idle (hinv : Inv m files calls) : Inv m files (Function.update calls k .idle) :=
  hinv.goto (c := .idle) (fun a ha => by cases ha) rfl (fun a ha => by cases ha)
    (fun a ha => by cases ha)

/-- A call passes on the manager it uses. -/
theorem Inv.pass (hinv : Inv m files calls) (hcounts : c.counts = (calls k).counts)
    (hmgr : c.mgr = (calls k).mgr) (howns : c.owns = none) (hfits : c.Fits m) :
    Inv m files (Function.update calls k c) := by
  refine hinv.goto hfits howns (fun a ha l hlk hl => ?_) (fun a ha => hcounts ▸ ha)
  rw [hmgr] at ha
  exact hlk (hinv.alone l k a hl ha).symm

/-- While a manager is in the list only a `VMQ_REMOVE` that is about to take
it out has it for itself. -/
theorem Inv.unlinking_of_owns (hinv : Inv m files calls) (ha : a ∈ m.list)
    (hown : (calls l).owns = some a) : calls l = .unlinking a := by
  have hfits := hinv.fits l
  cases hc : calls l <;> rw [hc] at hown hfits <;> cases hown
  · exact absurd ha hfits.2.1
  · rfl
  · exact absurd ha hfits.2

/-- Nobody refers to a manager whose count is zero. -/
theorem Inv.unreferred (hinv : Inv m files calls) (ha : a ∈ m.list)
    (hzero : (m.mem a).refcnt = 0) :
    (∀ h ctxt, files h = .opened (some ctxt) → ctxt.mgr ≠ a) ∧
      ∀ l, (calls l).counts ≠ some a := by
  have hcovers := hinv.covers a ha
  rw [hzero] at hcovers
  constructor
  · intro h ctxt hfile heq
    exact hcovers.empty (.inl h) ⟨ctxt, hfile, heq⟩
  · intro l hl
    exact hcovers.empty (.inr l) hl

/-- `VMQ_REMOVE` has found the count zero, and nobody else has looked. -/
theorem Inv.claim (hinv : Inv m files calls) (hk : calls k = .found a)
    (hzero : (m.mem a).refcnt = 0) (halone : ∀ l, l ≠ k → (calls l).inspects ≠ some a) :
    Inv m files (Function.update calls k (.unlinking a)) := by
  have hfound := hinv.fits k
  rw [hk] at hfound
  have ha : a ∈ m.list := hfound a rfl
  obtain ⟨hfiles, hcounts⟩ := hinv.unreferred ha hzero
  apply hinv.change (a := a) (c := .unlinking a) (fun b _ => Iff.rfl) (fun b _ hb => hb)
    (fun b _ _ => rfl) hinv.nodup (fun _ => ⟨hinv.live a ha, hzero⟩) hinv.sane ?_ hfiles
    (by rw [hk]; rfl) ⟨ha, hzero⟩
    (fun b hb => (Option.some.inj hb).symm) rfl
  intro l hlk hl
  have hinspects := halone l hlk
  have hcounted := hcounts l
  have hfits := hinv.fits l
  cases hc : calls l <;> rw [hc] at hl hinspects hcounted hfits <;>
    first | exact hinspects hl | exact hcounted hl | cases hl
  · exact hfits.2.1 ha
  · exact hfits.2 ha

/-- What a call relies on when a count has changed. -/
theorem Call.fits_recount (hfits : c.Fits m) (hne : c.owns ≠ some a) (i : Int) :
    c.Fits (addRefcnt m a i) := by
  have hmem : ∀ b, b ≠ a → (addRefcnt m a i).mem b = m.mem b :=
    fun b hb => Entries.modify_mem_of_ne _ hb
  cases c with
  | built b =>
      have hb : b ≠ a := fun heq => hne (congrArg some heq)
      exact ⟨hfits.1, hfits.2.1, by rw [hmem b hb]; exact hfits.2.2⟩
  | freeing b => exact hfits
  | unlinking b =>
      have hb : b ≠ a := fun heq => hne (congrArg some heq)
      exact ⟨hfits.1, by rw [hmem b hb]; exact hfits.2⟩
  | _ => exact hfits

/-- A reference to manager `a` comes, goes or changes hands, and the count follows it. -/
theorem Inv.handle (hinv : Inv m files calls) (ha : a ∈ m.list) {files' : Filp → File} {i : Int}
    (hfiles : ∀ g ctxt, files' g = .opened (some ctxt) →
      files g = .opened (some ctxt) ∨ ctxt.mgr = a)
    (hunowned : ∀ l, l ≠ k → (calls l).owns ≠ some a) (howns : c.owns = none)
    (hmgr : ∀ b, c.mgr = some b → b = a) (hfits : c.Fits m)
    (hcovers : Covers (Refers files' (Function.update calls k c) a) ((m.mem a).refcnt + i)) :
    Inv (addRefcnt m a i) files' (Function.update calls k c) := by
  have hlive := hinv.live a ha
  have heq : addRefcnt m a i = { m with
      mem := Function.update m.mem a { m.mem a with refcnt := (m.mem a).refcnt + i } } :=
    Entries.modify_of_live hlive _
  have hlist : (addRefcnt m a i).list = m.list := rfl
  have hsane : (addRefcnt m a i).fault = m.fault := by rw [heq]
  have hne : ∀ l, l ≠ k → ∀ b, (calls l).owns = some b → b ≠ a :=
    fun l hl b hb hba => hunowned l hl (hba ▸ hb)
  refine ⟨hinv.nodup, hinv.live, hsane.trans hinv.sane, ?_, fun g ctxt hfile => ?_, ?_, ?_,
    fun b hb => ?_⟩
  · refine forall_calls (P := fun _ c => c.Fits (addRefcnt m a i)) ?_ fun l hl =>
      Call.fits_recount (hinv.fits l) (hunowned l hl) i
    refine Call.fits_recount hfits (fun hc => ?_) i
    rw [howns] at hc
    cases hc
  · rcases hfiles g ctxt hfile with hbefore | heq
    · exact hinv.listed g ctxt hbefore
    · rw [heq]
      exact ha
  · intro l l' b hl hl'
    have hlk : l ≠ k := by
      rintro rfl
      rw [Function.update_self, howns] at hl
      cases hl
    rw [Function.update_of_ne hlk] at hl
    by_cases hlk' : l' = k
    · rw [hlk', Function.update_self] at hl'
      exact absurd (hmgr b hl') (hne l hlk b hl)
    · rw [Function.update_of_ne hlk'] at hl'
      exact hinv.alone l l' b hl hl'
  · refine forall_calls (P := fun _ c => ∀ g ctxt, files' g = .opened (some ctxt) →
      c.owns ≠ some ctxt.mgr) ?_ fun l hl g ctxt hfile hown => ?_
    · intro g ctxt _ hown
      rw [howns] at hown
      cases hown
    · rcases hfiles g ctxt hfile with hbefore | heq
      · exact hinv.unowned l g ctxt hbefore hown
      · exact hne l hl _ hown heq
  · by_cases hba : b = a
    · subst hba
      have hcount : ((addRefcnt m b i).mem b).refcnt = (m.mem b).refcnt + i :=
        congrArg VMQBufferManager.refcnt (Entries.modify_mem_self _)
      rw [hcount]
      exact hcovers
    · have hmem : (addRefcnt m a i).mem b = m.mem b := Entries.modify_mem_of_ne _ hba
      rw [hmem]
      refine (hinv.covers b hb).mono (refers_other (fun g ctxt hfile heq => ?_) fun l hl => ?_)
      · rcases hfiles g ctxt hfile with hbefore | heq'
        · exact hbefore
        · exact absurd (heq.symm.trans heq') hba
      · by_cases hlk : l = k
        · rw [hlk, Function.update_self] at hl
          exact absurd (hmgr b (Call.mgr_of_counts hl)) hba
        · rw [Function.update_of_ne hlk] at hl
          exact hl

/-! ## Steps and runs -/

/-- The invariant is enough: every file and every call has a live manager. -/
theorem Inv.sound (hinv : Inv s.managers s.files s.calls) : s.Sound := by
  refine ⟨fun h ctxt hfile => ?_, fun k a hk => ?_, hinv.sane⟩
  · have hlisted := hinv.listed h ctxt hfile
    exact ⟨hlisted, hinv.live _ hlisted⟩
  · have hlisted := Call.listed_of_uses hk (hinv.fits k)
    exact ⟨hlisted, hinv.live a hlisted⟩

/-- A lookup that nothing is in the way of. -/
theorem Inv.looked (hinv : Inv m files calls) {name : Name}
    (houtcome : lookupBufferManager m name = (m', some a))
    (hclear : ∀ l, calls l ≠ .unlinking a) :
    m' = m ∧ a ∈ m.list ∧ ∀ l, (calls l).owns ≠ some a := by
  obtain ⟨heq, hsome, -⟩ := Entries.of_find hinv.live houtcome
  have ha := (hsome a rfl).1
  exact ⟨heq, ha, fun l hl => hclear l (hinv.unlinking_of_owns ha hl)⟩

/-- The calls that get past their checks have nothing in their hands yet, so they fit whatever
the managers are. -/
theorem vmqIoctl_mgr {p : Option VMQContext} {call : Ioctl} (hcall : vmqIoctl h p call = .ok c) :
    c.mgr = none ∧ c.owns = none ∧ ∀ m, c.Fits m := by
  have hfits : ∀ {c : Call} {m : Entries VMQBufferManager}, c.mgr = none →
      ∀ a, c.mgr = some a → a ∈ m.list := by
    intro c m hc a ha
    rw [hc] at ha
    cases ha
  have hmap : ∀ {name : Except Errno Name} {f : Name → Call}, (checkName name).map f = .ok c →
      ∃ n, f n = c := by
    intro name f hf
    cases hname : checkName name <;> rw [hname] at hf <;> cases hf
    exact ⟨_, rfl⟩
  cases call with
  | create name =>
      obtain ⟨n, rfl⟩ := hmap hcall
      exact ⟨rfl, rfl, fun m => hfits rfl⟩
  | remove name =>
      obtain ⟨n, rfl⟩ := hmap hcall
      exact ⟨rfl, rfl, fun m => hfits rfl⟩
  | setup arg =>
      cases p with
      | some ctxt => cases hcall
      | none =>
          cases arg with
          | error e => cases hcall
          | ok arg =>
              obtain ⟨n, rfl⟩ := hmap hcall
              exact ⟨rfl, rfl, fun m => hfits rfl⟩

/-- A manager in the hands of a call may be accessed. -/
theorem Inv.touch (hinv : Inv m files calls) (hk : (calls k).mgr = some a) : m.touch a = m :=
  Entries.touch_of_live (Call.live_of_mgr hk (hinv.fits k) hinv.live)

/-- What a call has for itself nobody else knows. -/
theorem Inv.secluded (hinv : Inv m files calls) (hk : (calls k).owns = some a) :
    (∀ l, l ≠ k → (calls l).mgr ≠ some a) ∧
      ∀ h ctxt, files h = .opened (some ctxt) → ctxt.mgr ≠ a := by
  constructor
  · intro l hlk hl
    exact hlk (hinv.alone k l a hk hl)
  · intro h ctxt hfile heq
    exact hinv.unowned k h ctxt hfile (heq ▸ hk)

/-- `create_buffer_manager`: the new manager is known to the call that builds it, and to nobody
else. -/
theorem Inv.build (hinv : Inv m files calls) (hfree : a ∉ m.live) (name : Name)
    (hk : (calls k).counts = none) :
    Inv (m.kzalloc a ⟨name, 0⟩) files (Function.update calls k (.built a)) := by
  have hout : a ∉ m.list := fun ha => hfree (hinv.live a ha)
  have hlist : ∀ b, b ≠ a → (b ∈ (m.kzalloc a ⟨name, 0⟩).list ↔ b ∈ m.list) :=
    fun b _ => Iff.rfl
  have hlive : ∀ b, b ≠ a → b ∈ m.live → b ∈ (m.kzalloc a ⟨name, 0⟩).live :=
    fun b _ hb => Finset.mem_insert_of_mem hb
  have hnew : (m.kzalloc a ⟨name, 0⟩).mem a = ⟨name, 0⟩ := Function.update_self ..
  have hzero : ((m.kzalloc a ⟨name, 0⟩).mem a).refcnt = 0 := by rw [hnew]
  apply hinv.change (c := .built a) hlist hlive (fun b hb _ => Entries.kzalloc_mem_of_ne hb)
    hinv.nodup
    (fun ha => absurd ha hout) hinv.sane ?_ ?_ hk
    ⟨Finset.mem_insert_self .., hout, hzero⟩ (fun b hb => (Option.some.inj hb).symm) rfl
  · intro l _ hl
    exact hfree (Call.live_of_mgr hl (hinv.fits l) hinv.live)
  · intro h ctxt hfile heq
    exact hout (heq ▸ hinv.listed h ctxt hfile)

/-- `kfree`, by the one who has taken the manager out of the list or has never
put it there. -/
theorem Inv.free (hinv : Inv m files calls) (hk : (calls k).owns = some a)
    (hcounts : (calls k).counts = none) (hlive : a ∈ m.live) (hout : a ∉ m.list) :
    Inv (m.kfree a) files (Function.update calls k .idle) := by
  obtain ⟨halone, hfiles⟩ := hinv.secluded hk
  have hlist : ∀ b, b ≠ a → (b ∈ (m.kfree a).list ↔ b ∈ m.list) := fun b _ => Iff.rfl
  have hothers : ∀ b, b ≠ a → b ∈ m.live → b ∈ (m.kfree a).live :=
    fun b hb hbl => Finset.mem_erase.mpr ⟨hb, hbl⟩
  have hsane : (m.kfree a).fault = false := by
    rw [Entries.kfree_of_live hlive]
    exact hinv.sane
  exact hinv.change (c := .idle) hlist hothers (fun b _ _ => rfl) hinv.nodup
    (fun ha => absurd ha hout) hsane halone hfiles hcounts (fun b hb => by cases hb)
    (fun b hb => by cases hb) rfl

/-- The new manager goes into the list, and the call that has built it comes to its end. -/
theorem Inv.link (hinv : Inv m files calls) (hk : calls k = .built a) :
    Inv (m.listAddTail a) files (Function.update calls k .idle) := by
  obtain ⟨halone, hfiles⟩ := hinv.secluded (k := k) (a := a) (by rw [hk]; rfl)
  have hfits := hinv.fits k
  rw [hk] at hfits
  obtain ⟨hlive, hout, hzero⟩ := hfits
  have hlist : ∀ b, b ≠ a → (b ∈ (m.listAddTail a).list ↔ b ∈ m.list) := by
    intro b hb
    simp [Entries.listAddTail, hb]
  have hothers : ∀ b, b ≠ a → b ∈ m.live → b ∈ (m.listAddTail a).live := fun b _ hb => hb
  have hnodup : (m.listAddTail a).list.Nodup :=
    List.nodup_append'.mpr ⟨hinv.nodup, List.nodup_singleton a,
      List.disjoint_singleton.mpr hout⟩
  have hsane : (m.listAddTail a).fault = false := by
    rw [Entries.listAddTail_of_live hlive]
    exact hinv.sane
  exact hinv.change (c := .idle) hlist hothers (fun b _ _ => rfl) hnodup
    (fun _ => ⟨hlive, hzero⟩) hsane halone hfiles (by rw [hk]; rfl) (fun b hb => by cases hb)
    (fun b hb => by cases hb) rfl

/-- The manager goes out of the list, and is left to the call that is to free it. -/
theorem Inv.unlink (hinv : Inv m files calls) (hk : calls k = .unlinking a) :
    Inv (m.listDel a) files (Function.update calls k (.freeing a)) := by
  obtain ⟨halone, hfiles⟩ := hinv.secluded (k := k) (a := a) (by rw [hk]; rfl)
  have hfits := hinv.fits k
  rw [hk] at hfits
  have ha : a ∈ m.list := hfits.1
  have hlive := hinv.live a ha
  have hout : a ∉ (m.listDel a).list := fun hin => (hinv.nodup.mem_erase_iff.mp hin).1 rfl
  have hlist : ∀ b, b ≠ a → (b ∈ (m.listDel a).list ↔ b ∈ m.list) := by
    intro b hb
    exact hinv.nodup.mem_erase_iff.trans (and_iff_right hb)
  have hothers : ∀ b, b ≠ a → b ∈ m.live → b ∈ (m.listDel a).live := fun b _ hb => hb
  have hsane : (m.listDel a).fault = false := by
    rw [Entries.listDel_of_mem hlive ha]
    exact hinv.sane
  exact hinv.change (c := .freeing a) hlist hothers (fun b _ _ => rfl) (hinv.nodup.erase a)
    (fun hin => absurd hin hout) hsane halone hfiles (by rw [hk]; rfl) ⟨hlive, hout⟩
    (fun b hb => (Option.some.inj hb).symm) rfl

/-- A store that changes no count. -/
theorem addRefcnt_zero (ha : a ∈ m.live) : addRefcnt m a 0 = m := by
  rw [addRefcnt, Entries.modify_of_live ha]
  simp

/-- A manager changes hands between a file and the task of the call. -/
theorem Inv.handOver (hinv : Inv m files calls) (ha : a ∈ m.list) {files' : Filp → File}
    (hfiles : ∀ g ctxt, files' g = .opened (some ctxt) →
      files g = .opened (some ctxt) ∨ ctxt.mgr = a)
    (hunowned : ∀ l, l ≠ k → (calls l).owns ≠ some a) (howns : c.owns = none)
    (hmgr : ∀ b, c.mgr = some b → b = a) (hfits : c.Fits m)
    (hcovers : Covers (Refers files' (Function.update calls k c) a) (m.mem a).refcnt) :
    Inv m files' (Function.update calls k c) := by
  have hinv' := hinv.handle (i := 0) ha hfiles hunowned howns hmgr hfits
    (by rw [Int.add_zero]; exact hcovers)
  rwa [addRefcnt_zero (hinv.live a ha)] at hinv'

/-- A file that had no manager is closed, which concerns no manager. -/
theorem Inv.closeUnused (hinv : Inv m files calls) (h : Filp) :
    Inv m (Function.update files h .closed) calls := by
  have hopen : ∀ g ctxt, Function.update files h .closed g = .opened (some ctxt) →
      files g = .opened (some ctxt) := by
    intro g ctxt hg
    by_cases hgh : g = h
    · rw [hgh, Function.update_self] at hg
      cases hg
    · rwa [Function.update_of_ne hgh] at hg
  refine ⟨hinv.nodup, hinv.live, hinv.sane, hinv.fits,
    fun g ctxt hg => hinv.listed g ctxt (hopen g ctxt hg), hinv.alone,
    fun l g ctxt hg => hinv.unowned l g ctxt (hopen g ctxt hg), fun b hb => ?_⟩
  exact (hinv.covers b hb).mono (refers_other (fun g ctxt hg _ => hopen g ctxt hg) fun l hl => hl)

/-- Only task `k` may have come to be among those that were counted. -/
theorem refers_goto {u : Filp ⊕ Task} (hu : Refers files (Function.update calls k c) a u) :
    u = .inr k ∨ u ≠ .inr k ∧ Refers files calls a u := by
  rcases u with h | l
  · exact .inr ⟨Sum.inl_ne_inr, hu⟩
  · by_cases hlk : l = k
    · exact .inl (congrArg Sum.inr hlk)
    · rw [Refers, Function.update_of_ne hlk] at hu
      exact .inr ⟨fun heq => hlk (Sum.inr.inj heq), hu⟩

/-- Only file `h` may have come to be among those that were counted. -/
theorem refers_withFile {h : Filp} {f : File} {u : Filp ⊕ Task}
    (hu : Refers (Function.update files h f) calls a u) :
    u = .inl h ∨ u ≠ .inl h ∧ Refers files calls a u := by
  rcases u with g | l
  · by_cases hgh : g = h
    · exact .inl (congrArg Sum.inl hgh)
    · rw [Refers, Function.update_of_ne hgh] at hu
      exact .inr ⟨fun heq => hgh (Sum.inl.inj heq), hu⟩
  · exact .inr ⟨Sum.inr_ne_inl, hu⟩

/-- A task that has counted nothing is not among those that were counted. -/
theorem not_refers_goto (hcounts : c.counts = none) :
    ¬ Refers files (Function.update calls k c) a (.inr k) := by
  intro hu
  rw [Refers, Function.update_self, hcounts] at hu
  cases hu

/-- Nobody else has the manager in the hands of task `k` for itself. -/
theorem Inv.unowned_of_mgr (hinv : Inv m files calls) (hk : (calls k).mgr = some a) (l : Task)
    (hl : l ≠ k) : (calls l).owns ≠ some a :=
  fun hown => hl (hinv.alone l k a hown hk).symm

/-- `VMQ_SETUP` counts the manager. -/
theorem Inv.count (hinv : Inv m files calls) {h : Filp} (ctxt : VMQContext) {type : Int}
    (hk : calls k = .looked h ctxt.mgr type) :
    Inv (addRefcnt m ctxt.mgr 1) files (Function.update calls k (.counted h ctxt)) := by
  have hfits := hinv.fits k
  rw [hk] at hfits
  have ha : ctxt.mgr ∈ m.list := hfits _ rfl
  apply hinv.handle (c := .counted h ctxt) ha (fun g ctxt hg => .inl hg)
    (hinv.unowned_of_mgr (by rw [hk]; rfl)) rfl (fun b hb => (Option.some.inj hb).symm)
    (fun b hb => Option.some.inj hb ▸ ha)
  apply (hinv.covers _ ha).enter (a := .inr k)
  intro u hu
  exact (refers_goto hu).imp_right And.right

/-- `VMQ_SETUP` gives the manager to the file, and with it the reference that the call had. -/
theorem Inv.store (hinv : Inv m files calls) {h : Filp} {ctxt : VMQContext}
    (hk : calls k = .joined h ctxt) :
    Inv m (Function.update files h (.opened (some ctxt))) (Function.update calls k .idle) := by
  have hfits := hinv.fits k
  rw [hk] at hfits
  have ha : ctxt.mgr ∈ m.list := hfits _ rfl
  have hcounted : Refers files calls ctxt.mgr (.inr k) := by
    rw [Refers, hk]
    rfl
  apply hinv.handOver (c := .idle) ha (fun g ctxt' hg => ?_)
    (hinv.unowned_of_mgr (by rw [hk]; rfl)) rfl
    (fun b hb => by cases hb) (fun b hb => by cases hb)
  · apply (hinv.covers _ ha).replace (b := .inl h) hcounted
    intro u hu
    rcases refers_withFile hu with heq | ⟨-, hu⟩
    · exact .inl heq
    · rcases refers_goto hu with rfl | hu
      · exact absurd hu (not_refers_goto rfl)
      · exact .inr hu
  · by_cases hgh : g = h
    · rw [hgh, Function.update_self] at hg
      cases hg
      exact .inr rfl
    · rw [Function.update_of_ne hgh] at hg
      exact .inl hg

/-- The release takes the manager from the file. -/
theorem Inv.release (hinv : Inv m files calls) {h : Filp} {ctxt : VMQContext}
    (hfile : files h = .opened (some ctxt)) :
    Inv m (Function.update files h .closed) (Function.update calls k (.releasing ctxt)) := by
  have ha := hinv.listed h ctxt hfile
  have hcounted : Refers files calls ctxt.mgr (.inl h) := ⟨ctxt, hfile, rfl⟩
  apply hinv.handOver (c := .releasing ctxt) ha (fun g ctxt' hg => ?_)
    (fun l _ hown => hinv.unowned l h ctxt hfile hown) rfl
    (fun b hb => (Option.some.inj hb).symm) (fun b hb => Option.some.inj hb ▸ ha)
  · apply (hinv.covers _ ha).replace (b := .inr k) hcounted
    intro u hu
    rcases refers_withFile hu with rfl | ⟨hne, hu⟩
    · obtain ⟨ctxt', hclosed, -⟩ := hu
      rw [Function.update_self] at hclosed
      cases hclosed
    · exact (refers_goto hu).imp_right fun hu => ⟨hne, hu.2⟩
  · by_cases hgh : g = h
    · rw [hgh, Function.update_self] at hg
      cases hg
    · rw [Function.update_of_ne hgh] at hg
      exact .inl hg

/-- The release has done with the manager: the reference of its file is given back as the call
ends. -/
theorem Inv.drop (hinv : Inv m files calls) {ctxt : VMQContext} (hk : calls k = .leaving ctxt) :
    Inv (addRefcnt m ctxt.mgr (-1)) files (Function.update calls k .idle) := by
  have hfits := hinv.fits k
  rw [hk] at hfits
  have ha : ctxt.mgr ∈ m.list := hfits _ rfl
  have hcounted : Refers files calls ctxt.mgr (.inr k) := by
    rw [Refers, hk]
    rfl
  apply hinv.handle (c := .idle) ha (fun g ctxt hg => .inl hg)
    (hinv.unowned_of_mgr (by rw [hk]; rfl)) rfl
    (fun b hb => by cases hb) (fun b hb => by cases hb)
  apply (hinv.covers _ ha).leave hcounted
  intro u hu
  rcases refers_goto hu with rfl | hu
  · exact absurd hu (not_refers_goto rfl)
  · exact hu

/-- A call has looked the manager up. -/
theorem Inv.lookup (hinv : Inv m files calls) {name : Name}
    (houtcome : lookupBufferManager m name = (m', some a))
    (hclear : ∀ l, calls l ≠ .unlinking a) (hmgr : c.mgr = some a) (howns : c.owns = none)
    (hfits : a ∈ m.list → c.Fits m) (hcounts : c.counts = none) :
    Inv m' files (Function.update calls k c) := by
  obtain ⟨rfl, ha, hfree⟩ := hinv.looked houtcome hclear
  apply hinv.goto (hfits ha) howns
  · intro b hb l _
    rw [hmgr] at hb
    exact Option.some.inj hb ▸ hfree l
  · intro b hb
    rw [hcounts] at hb
    cases hb

/-- What a careful step preserves: every manager that a file or a call refers to is live, and
its count covers them all. -/
theorem Inv.step (hinv : Inv s.managers s.files s.calls) {e : Task × Event}
    (hstep : CarefulStep s e t) : Inv t.managers t.files t.calls := by
  obtain ⟨hstep, hcareful⟩ := hstep
  cases hstep with
  | ioctlRefused at_call at_file outcome => exact hinv
  | ioctlEntered at_call at_file outcome =>
      obtain ⟨hmgr, howns, hfits⟩ := vmqIoctl_mgr outcome
      apply hinv.goto (hfits _) howns
      · intro a ha
        rw [hmgr] at ha
        cases ha
      · intro a ha
        rw [Call.mgr_of_counts ha] at hmgr
        cases hmgr
  | createRefused at_call => exact hinv.idle
  | build at_call free => exact hinv.build free _ (by rw [at_call]; rfl)
  | @procFailed k a at_call =>
      have hfits := hinv.fits k
      rw [at_call] at hfits
      exact hinv.free (by rw [at_call]; rfl) (by rw [at_call]; rfl) hfits.1 hfits.2.1
  | link at_call => exact hinv.link at_call
  | removeFound at_call outcome =>
      simp only [Driver.Careful, at_call] at hcareful
      exact hinv.lookup outcome (hcareful _ (by rw [outcome])) rfl rfl
        (fun ha b hb => Option.some.inj hb ▸ ha) rfl
  | removeMissing at_call outcome =>
      obtain ⟨rfl, -, -⟩ := Entries.of_find hinv.live outcome
      exact hinv.idle
  | busy at_call test =>
      rw [hinv.touch (by rw [at_call]; rfl)]
      exact hinv.idle
  | unused at_call test =>
      simp only [Driver.Careful, at_call] at hcareful
      rw [hinv.touch (by rw [at_call]; rfl)]
      exact hinv.claim at_call test (hcareful test)
  | unlink at_call => exact hinv.unlink at_call
  | @free k a at_call =>
      have hfits := hinv.fits k
      rw [at_call] at hfits
      exact hinv.free (by rw [at_call]; rfl) (by rw [at_call]; rfl) hfits.1 hfits.2
  | setupFound at_call outcome =>
      simp only [Driver.Careful, at_call] at hcareful
      exact hinv.lookup outcome (hcareful _ (by rw [outcome])) rfl rfl
        (fun ha b hb => Option.some.inj hb ▸ ha) rfl
  | setupMissing at_call outcome =>
      obtain ⟨rfl, -, -⟩ := Entries.of_find hinv.live outcome
      exact hinv.idle
  | setupFailed at_call => exact hinv.idle
  | setupRefused at_call test => exact hinv.idle
  | @count k h a type vmqType at_call test => exact hinv.count ⟨vmqType, a⟩ at_call
  | @register k h ctxt at_call =>
      have hfits := hinv.fits k
      rw [at_call] at hfits
      rw [hinv.touch (by rw [at_call]; rfl)]
      exact hinv.pass (by rw [at_call]; rfl) (by rw [at_call]; rfl) rfl hfits
  | store at_call => exact hinv.store at_call
  | releaseUnused at_call at_file ended => exact hinv.closeUnused _
  | release at_call at_file ended => exact hinv.release at_file
  | @leave k ctxt at_call =>
      have hfits := hinv.fits k
      rw [at_call] at hfits
      rw [hinv.touch (by rw [at_call]; rfl)]
      exact hinv.pass (by rw [at_call]; rfl) (by rw [at_call]; rfl) rfl hfits
  | drop at_call => exact hinv.drop at_call

/-- At the start there is neither a file nor a call nor a manager. -/
theorem Inv.init (mem : Mgr → VMQBufferManager) :
    Inv (init mem).managers (init mem).files (init mem).calls := by
  constructor
  · exact List.nodup_nil
  · intro a ha
    cases ha
  · rfl
  · intro k a ha
    cases ha
  · intro h ctxt hfile
    cases hfile
  · intro k l a hk
    cases hk
  · intro k h ctxt hfile
    cases hfile
  · intro a ha
    cases ha

/-- **Manager lifetime.**  In every run of careful steps a manager that a
context or a `VMQ_SETUP` uses is in the list and allocated, and no manager is
accessed or freed after it was freed. -/
theorem manager_lifetime {mem : Mgr → VMQBufferManager} {tr : List (Task × Event)}
    (hrun : Run CarefulStep (init mem) tr s) : s.Sound := by
  have hinv := hrun.invariant (fun s => Inv s.managers s.files s.calls) (Inv.init mem)
    fun s e t hs hstep => hs.step hstep
  exact hinv.sound

/-- A queue is created, and a file becomes its producer. -/
theorem manager_lifetime_one_producer : ∃ mem tr s, Run CarefulStep (init mem) tr s ∧
    s.files 0 = .opened (some ⟨.producer, 7⟩) ∧ s.managers.list = [7] ∧ s.Sound := by
  let name : Name := ⟨[97], by decide⟩
  have hrun : Run CarefulStep (init fun _ => ⟨name, 0⟩) [] _ := Run.nil
  have hrun := hrun.snoc ⟨@Step.ioctlEntered _ 0 0 none (.create (.ok name)) _ rfl rfl rfl,
    trivial⟩
  have hrun := hrun.snoc ⟨@Step.build _ 0 name 7 rfl (Finset.notMem_empty 7), trivial⟩
  have hrun := hrun.snoc ⟨@Step.link _ 0 7 rfl, trivial⟩
  have hrun := hrun.snoc ⟨@Step.ioctlEntered _ 0 0 none (.setup (.ok (name, 0))) _ rfl rfl rfl,
    trivial⟩
  have hrun := hrun.snoc ⟨@Step.setupFound _ 0 0 name 0 _ 7 rfl rfl, fun a _ l => by
    rcases l with _ | l
    · intro hmid
      cases hmid
    · intro hmid
      cases hmid⟩
  have hrun := hrun.snoc ⟨@Step.count _ 0 0 7 0 .producer rfl rfl, trivial⟩
  have hrun := hrun.snoc ⟨@Step.register _ 0 0 ⟨.producer, 7⟩ rfl, trivial⟩
  have hrun := hrun.snoc ⟨@Step.store _ 0 0 ⟨.producer, 7⟩ rfl, trivial⟩
  exact ⟨_, _, _, hrun, rfl, rfl, manager_lifetime hrun⟩

/-- A `VMQ_SETUP` looks the manager up, a `VMQ_REMOVE` finds it unused and
frees it, and the file gets it nevertheless. -/
theorem manager_freed_in_setup : ∃ mem tr s, Run Step (init mem) tr s ∧
    s.files 0 = .opened (some ⟨.producer, 7⟩) ∧ 7 ∉ s.managers.live ∧ ¬ s.Sound := by
  let name : Name := ⟨[97], by decide⟩
  have hrun := Run.nil.snoc (@Step.ioctlEntered (init fun _ => ⟨name, 0⟩) 0 0 none
    (.create (.ok name)) _ rfl rfl rfl)
  have hrun := hrun.snoc (@Step.build _ 0 name 7 rfl (Finset.notMem_empty 7))
  have hrun := hrun.snoc (@Step.link _ 0 7 rfl)
  have hrun := hrun.snoc (@Step.ioctlEntered _ 0 0 none (.setup (.ok (name, 0))) _ rfl rfl rfl)
  have hrun := hrun.snoc (@Step.setupFound _ 0 0 name 0 _ 7 rfl rfl)
  -- the lookup is over, and the count is still zero
  have hrun := hrun.snoc (@Step.ioctlEntered _ 1 1 none (.remove (.ok name)) _ rfl rfl rfl)
  have hrun := hrun.snoc (@Step.removeFound _ 1 name _ 7 rfl rfl)
  have hrun := hrun.snoc (@Step.unused _ 1 7 rfl rfl)
  have hrun := hrun.snoc (@Step.unlink _ 1 7 rfl)
  have hrun := hrun.snoc (@Step.free _ 1 7 rfl)
  have hrun := hrun.snoc (@Step.count _ 0 0 7 0 .producer rfl rfl)
  have hrun := hrun.snoc (@Step.register _ 0 0 ⟨.producer, 7⟩ rfl)
  have hrun := hrun.snoc (@Step.store _ 0 0 ⟨.producer, 7⟩ rfl)
  refine ⟨_, _, _, hrun, rfl, Finset.notMem_erase 7 _, fun hsound => ?_⟩
  have hlive := (hsound.files 0 ⟨.producer, 7⟩ rfl).2
  exact Finset.notMem_erase 7 _ hlive

end VmqManagers

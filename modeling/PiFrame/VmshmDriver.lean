import PiFrame.Headcount
import PiFrame.Transition
import PiFrame.VmshmRegistry

/-!
# The shared memory driver

`drivers/vmshm/main.c` with any number of open files and any number of tasks
that call into it.  A task proceeds in atomic steps: a section under
`vmshm_mutex`, or the code up to the next access to something shared.  Several
tasks may have calls in flight on one file, whose `private_data` nothing
protects; only `vmshm_release` is known to run when they are over.

Three calls look something up in one section and rely on it in another.
`VMSHM_CREATE` tests for the name and inserts the entry later, `VMSHM_REMOVE`
looks the entry up and removes it later, and `VMSHM_SELECT` and
`VMSHM_UNSELECT` look at `private_data` first and store it last.  `Careful` is
what has to be true when the second section comes, and `Sound` is what every
run of careful steps keeps.
-/

namespace Vmshm

open Headcount LinkedEntries Transition

/-- An open file of the device. -/
abbrev Filp := Nat

/-- A task that calls into the driver. -/
abbrev Task := Nat

inductive File
  | opened (privateData : Option Addr)
  | closed
  deriving DecidableEq, Repr

/-- An ioctl with the argument it copies from the user, `none` if that fails. -/
inductive Ioctl
  | create (arg : Option (Name × BitVec 32 × BitVec 32 × BitVec 32))
  | remove (name : Option Name)
  | select (name : Option Name)
  | unselect

/-- Where the call of a task stands. -/
inductive Call
  | idle
  | creating (name : Name) (size perm flags : BitVec 32)
  | vetted (name : Name) (size perm flags : BitVec 32)
  | built (mem : Addr)
  | listed (mem : Addr)
  | removing (name : Name)
  | found (mem : Addr)
  | selecting (h : Filp) (name : Name)
  | selected (h : Filp) (mem : Addr)
  | stored (h : Filp) (mem : Addr)
  | unselecting (h : Filp) (mem : Addr)
  | unselected (h : Filp)
  deriving DecidableEq

/-- The file whose `private_data` the call has to do with. -/
def Call.file : Call → Option Filp
  | .selecting h _ => some h
  | .selected h _ => some h
  | .stored h _ => some h
  | .unselecting h _ => some h
  | .unselected h => some h
  | _ => none

/-- The file whose entry the call has selected or given up and whose
`private_data` it has not finished with. -/
def Call.midway : Call → Option Filp
  | .selected h _ => some h
  | .stored h _ => some h
  | .unselected h => some h
  | _ => none

/-- The driver.  `selected` is not in the source: it records which entry each
file has selected, as the sections that change `refcnt` leave it. -/
structure Driver where
  reg : Registry
  files : Filp → File
  selected : Filp → Option Addr
  calls : Task → Call

/-- What can be seen of a step. -/
inductive Event
  | run
  | ret (result : Except Errno (BitVec 32))
  | release

namespace Driver

/-- Task `k` goes on to `c`. -/
def goto (s : Driver) (k : Task) (c : Call) : Driver :=
  { s with calls := Function.update s.calls k c }

def withReg (s : Driver) (reg : Registry) : Driver :=
  { s with reg }

def withFile (s : Driver) (h : Filp) (f : File) : Driver :=
  { s with files := Function.update s.files h f }

def withSelected (s : Driver) (h : Filp) (a : Option Addr) : Driver :=
  { s with selected := Function.update s.selected h a }

end Driver

/-- `vmshm_ioctl` up to the first section. -/
def vmshmIoctl (h : Filp) (privateData : Option Addr) : Ioctl → Except Errno Call
  | .create none => .error .efault
  | .create (some (name, size, perm, flags)) =>
      if name.bytes = [] then .error .einval else .ok (.creating name size perm flags)
  | .remove none => .error .efault
  | .remove (some name) => if name.bytes = [] then .error .einval else .ok (.removing name)
  | .select name =>
      match privateData with
      | some _ => .error .ebusy
      | none =>
          match name with
          | none => .error .efault
          | some name => .ok (.selecting h name)
  | .unselect =>
      match privateData with
      | none => .error .einval
      | some a => .ok (.unselecting h a)

/-- The answer of a call that gives no size. -/
def answer : Option Errno → Except Errno (BitVec 32)
  | none => .ok 0
  | some e => .error e

/-- The atomic steps, each labelled with the task it belongs to. -/
inductive Step : Driver → Task × Event → Driver → Prop
  | ioctlRefused {s : Driver} {k : Task} {h : Filp} {p : Option Addr} {call : Ioctl} {e : Errno}
      (at_call : s.calls k = .idle) (at_file : s.files h = .opened p)
      (outcome : vmshmIoctl h p call = .error e) :
      Step s (k, .ret (.error e)) s
  | ioctlEntered {s : Driver} {k : Task} {h : Filp} {p : Option Addr} {call : Ioctl} {c : Call}
      (at_call : s.calls k = .idle) (at_file : s.files h = .opened p)
      (outcome : vmshmIoctl h p call = .ok c) :
      Step s (k, .run) (s.goto k c)
  | duplicated {s : Driver} {k : Task} {name : Name} {size perm flags : BitVec 32}
      {reg : Registry} {a : Addr} (at_call : s.calls k = .creating name size perm flags)
      (outcome : lookup s.reg name = (reg, some a)) :
      Step s (k, .ret (.error .eexist)) ((s.withReg reg).goto k .idle)
  | vetted {s : Driver} {k : Task} {name : Name} {size perm flags : BitVec 32} {reg : Registry}
      (at_call : s.calls k = .creating name size perm flags)
      (outcome : lookup s.reg name = (reg, none)) :
      Step s (k, .run) ((s.withReg reg).goto k (.vetted name size perm flags))
  | sizeRefused {s : Driver} {k : Task} {name : Name} {size perm flags : BitVec 32}
      (at_call : s.calls k = .vetted name size perm flags) (test : size.toInt ≤ 0) :
      Step s (k, .ret (.error .einval)) (s.goto k .idle)
  /-- There is no memory for the entry, or none for its pages and the entry is
  freed again. -/
  | noMemory {s : Driver} {k : Task} {name : Name} {size perm flags : BitVec 32}
      (at_call : s.calls k = .vetted name size perm flags) (test : ¬ size.toInt ≤ 0) :
      Step s (k, .ret (.error .enomem)) (s.goto k .idle)
  | build {s : Driver} {k : Task} {name : Name} {size perm flags : BitVec 32} {a : Addr}
      (at_call : s.calls k = .vetted name size perm flags) (test : ¬ size.toInt ≤ 0)
      (free : a ∉ s.reg.live) :
      Step s (k, .run)
        ((s.withReg (s.reg.kzalloc a (newMemory name size perm flags))).goto k (.built a))
  | link {s : Driver} {k : Task} {a : Addr} (at_call : s.calls k = .built a) :
      Step s (k, .run) ((s.withReg (s.reg.listAddTail a)).goto k (.listed a))
  | created {s : Driver} {k : Task} {a : Addr} (at_call : s.calls k = .listed a) :
      Step s (k, .ret (.ok 0)) (s.goto k .idle)
  /-- `try_module_get` fails; the entry is freed and stays in the list. -/
  | moduleGone {s : Driver} {k : Task} {a : Addr} (at_call : s.calls k = .listed a) :
      Step s (k, .ret (.error .einval)) ((s.withReg (s.reg.kfree a)).goto k .idle)
  | removeFound {s : Driver} {k : Task} {name : Name} {reg : Registry} {a : Addr}
      (at_call : s.calls k = .removing name) (outcome : lookup s.reg name = (reg, some a)) :
      Step s (k, .run) ((s.withReg reg).goto k (.found a))
  | removeMissing {s : Driver} {k : Task} {name : Name} {reg : Registry}
      (at_call : s.calls k = .removing name) (outcome : lookup s.reg name = (reg, none)) :
      Step s (k, .ret (.error .enoent)) ((s.withReg reg).goto k .idle)
  | vmshmRemove {s : Driver} {k : Task} {a : Addr} {reg : Registry} {err : Option Errno}
      (at_call : s.calls k = .found a) (outcome : vmshmRemove s.reg a = (reg, err)) :
      Step s (k, .ret (answer err)) ((s.withReg reg).goto k .idle)
  | selectFound {s : Driver} {k : Task} {h : Filp} {name : Name} {reg : Registry} {a : Addr}
      (at_call : s.calls k = .selecting h name)
      (outcome : vmshmSelect s.reg name = (reg, some a)) :
      Step s (k, .run) (((s.withReg reg).withSelected h (some a)).goto k (.selected h a))
  | selectMissing {s : Driver} {k : Task} {h : Filp} {name : Name} {reg : Registry}
      (at_call : s.calls k = .selecting h name)
      (outcome : vmshmSelect s.reg name = (reg, none)) :
      Step s (k, .ret (.error .enoent)) ((s.withReg reg).goto k .idle)
  /-- `filp->private_data = mem`. -/
  | store {s : Driver} {k : Task} {h : Filp} {a : Addr} (at_call : s.calls k = .selected h a) :
      Step s (k, .run) ((s.withFile h (.opened (some a))).goto k (.stored h a))
  /-- `ret = mem->size`. -/
  | readSize {s : Driver} {k : Task} {h : Filp} {a : Addr} (at_call : s.calls k = .stored h a) :
      Step s (k, .ret (.ok (s.reg.mem a).size)) ((s.withReg (s.reg.touch a)).goto k .idle)
  | vmshmUnselect {s : Driver} {k : Task} {h : Filp} {a : Addr}
      (at_call : s.calls k = .unselecting h a) :
      Step s (k, .run)
        (((s.withReg (vmshmUnselect s.reg a)).withSelected h none).goto k (.unselected h))
  /-- `filp->private_data = (void *)0`. -/
  | clear {s : Driver} {k : Task} {h : Filp} (at_call : s.calls k = .unselected h) :
      Step s (k, .ret (.ok 0)) ((s.withFile h (.opened none)).goto k .idle)
  /-- `vmshm_release`, once no call on the file is in flight. -/
  | releaseUnused {s : Driver} {k : Task} {h : Filp} (at_call : s.calls k = .idle)
      (at_file : s.files h = .opened none) (ended : ∀ k, (s.calls k).file ≠ some h) :
      Step s (k, .release) (s.withFile h .closed)
  | release {s : Driver} {k : Task} {h : Filp} {a : Addr} (at_call : s.calls k = .idle)
      (at_file : s.files h = .opened (some a)) (ended : ∀ k, (s.calls k).file ≠ some h) :
      Step s (k, .release)
        (((s.withReg (vmshmUnselect s.reg a)).withSelected h none).withFile h .closed)

/-- The driver right after it was loaded, every file with nothing selected. -/
def init (mem : Addr → VMSharedMemory) : Driver where
  reg := { mem, live := ∅, list := [], fault := false }
  files := fun _ => .opened none
  selected := fun _ => none
  calls := fun _ => .idle

/-! ## What is kept and what it takes -/

/-- The registry is in order.  A file with no call midway has in its
`private_data` what it has selected. -/
structure Driver.Sound (s : Driver) : Prop where
  names : (s.reg.list.map fun a => (s.reg.mem a).name).Nodup
  counted : ∀ a ∈ s.reg.list, Count (fun h => s.selected h = some a) (s.reg.mem a).refcnt
  selection : ∀ h, (∀ k, (s.calls k).midway ≠ some h) →
    ∀ a, s.selected h = some a ↔ s.files h = .opened (some a)
  sane : s.reg.fault = false

/-- No other task is midway through a call on file `h`. -/
def Driver.Undisturbed (s : Driver) (k : Task) (h : Filp) : Prop :=
  ∀ l, l ≠ k → (s.calls l).midway ≠ some h

/-- What the first section of a call has found still holds when the second one
comes, and `try_module_get` does not fail. -/
def Driver.Careful (s : Driver) (e : Task × Event) : Prop :=
  match s.calls e.1 with
  | .built a => ∀ b ∈ s.reg.list, (s.reg.mem b).name ≠ (s.reg.mem a).name
  | .listed _ => ∀ err, e.2 ≠ .ret (.error err)
  | .found a => a ∈ s.reg.list
  | .selecting h name =>
      (lookup s.reg name).2 ≠ none → s.files h = .opened none ∧ s.Undisturbed e.1 h
  | .unselecting h a => s.files h = .opened (some a) ∧ s.Undisturbed e.1 h
  | _ => True

def CarefulStep (s : Driver) (e : Task × Event) (t : Driver) : Prop :=
  Step s e t ∧ s.Careful e

/-! ## Files and the calls on them -/

/-- What a call that is midway knows of its file. -/
def Call.Agrees (files : Filp → File) (selected : Filp → Option Addr) : Call → Prop
  | .selected h a => selected h = some a ∧ files h = .opened none
  | .stored h a => selected h = some a ∧ files h = .opened (some a)
  | .unselected h => selected h = none
  | _ => True

/-- At most one call is midway on a file, and without one the file has in its
`private_data` what it has selected. -/
structure Settled (files : Filp → File) (selected : Filp → Option Addr) (calls : Task → Call) :
    Prop where
  selection : ∀ h, (∀ k, (calls k).midway ≠ some h) →
    ∀ a, selected h = some a ↔ files h = .opened (some a)
  single : ∀ k l h, (calls k).midway = some h → (calls l).midway = some h → k = l
  agrees : ∀ k, (calls k).Agrees files selected

variable {files files' : Filp → File} {selected selected' : Filp → Option Addr}
  {calls calls' : Task → Call} {k : Task} {h : Filp} {a : Addr} {c : Call}

/-- Whether a call agrees with its file is a matter of that file alone. -/
theorem Call.agrees_congr (hc : c.Agrees files selected)
    (hsame : ∀ g, c.midway = some g → files' g = files g ∧ selected' g = selected g) :
    c.Agrees files' selected' := by
  cases c with
  | selected h a =>
      obtain ⟨hf, hs⟩ := hsame h rfl
      exact ⟨hs.trans hc.1, hf.trans hc.2⟩
  | stored h a =>
      obtain ⟨hf, hs⟩ := hsame h rfl
      exact ⟨hs.trans hc.1, hf.trans hc.2⟩
  | unselected h => exact (hsame h rfl).2.trans hc
  | _ => trivial

/-- A call is midway at one file only. -/
theorem midway_ne {c : Call} (hmid : c.midway = some h) {g : Filp} (hg : g ≠ h) :
    c.midway ≠ some g := by
  rw [hmid]
  exact fun heq => hg (Option.some.inj heq).symm

/-- Task `k` does something to file `h`, and no other task is midway there, so nobody notices
the moment in which the two are not in step. -/
theorem Settled.change (hs : Settled files selected calls)
    (hfiles : ∀ g, g ≠ h → files' g = files g) (hsel : ∀ g, g ≠ h → selected' g = selected g)
    (hcalls : ∀ l, l ≠ k → calls' l = calls l)
    (halone : ∀ l, l ≠ k → (calls l).midway ≠ some h)
    (hbefore : ∀ g, g ≠ h → (calls k).midway ≠ some g)
    (hafter : ∀ g, g ≠ h → (calls' k).midway ≠ some g)
    (hagrees : (calls' k).Agrees files' selected')
    (hdone : (calls' k).midway ≠ some h →
      ∀ a, selected' h = some a ↔ files' h = .opened (some a)) :
    Settled files' selected' calls' := by
  refine ⟨fun g hnone => ?_, fun l l' g hl hl' => ?_, fun l => ?_⟩
  · by_cases hgh : g = h
    · subst hgh
      exact hdone (hnone k)
    · rw [hfiles g hgh, hsel g hgh]
      apply hs.selection g
      intro l
      by_cases hlk : l = k
      · rw [hlk]
        exact hbefore g hgh
      · rw [← hcalls l hlk]
        exact hnone l
  · have hother : ∀ l, l ≠ k → (calls' l).midway = some g → g ≠ h := by
      intro l hlk hl hgh
      rw [hcalls l hlk, hgh] at hl
      exact halone l hlk hl
    by_cases hlk : l = k <;> by_cases hlk' : l' = k
    · rw [hlk, hlk']
    · rw [hlk] at hl
      exact absurd hl (hafter g (hother l' hlk' hl'))
    · rw [hlk'] at hl'
      exact absurd hl' (hafter g (hother l hlk hl))
    · rw [hcalls l hlk] at hl
      rw [hcalls l' hlk'] at hl'
      exact hs.single l l' g hl hl'
  · by_cases hlk : l = k
    · rw [hlk]
      exact hagrees
    · rw [hcalls l hlk]
      apply Call.agrees_congr (hs.agrees l)
      intro g hg
      have hgh : g ≠ h := fun heq => halone l hlk (heq ▸ hg)
      exact ⟨hfiles g hgh, hsel g hgh⟩

/-- A move between two places that are not midway changes nothing of what has been selected. -/
theorem Settled.calm (hs : Settled files selected calls) (hk : (calls k).midway = none)
    (hc : c.midway = none) : Settled files selected (Function.update calls k c) := by
  have hother : ∀ l, l ≠ k → Function.update calls k c l = calls l :=
    fun l hl => Function.update_of_ne hl ..
  have hself : Function.update calls k c k = c := Function.update_self ..
  refine ⟨fun h hnone => hs.selection h fun l => ?_, fun l l' h hl hl' => ?_, fun l => ?_⟩
  · by_cases hlk : l = k
    · rw [hlk, hk]
      exact Option.some_ne_none h |>.symm
    · rw [← hother l hlk]
      exact hnone l
  · have hne : ∀ l, (Function.update calls k c l).midway = some h → l ≠ k := by
      intro l hl heq
      rw [heq, hself, hc] at hl
      cases hl
    have h₁ := hne l hl
    have h₂ := hne l' hl'
    rw [hother l h₁] at hl
    rw [hother l' h₂] at hl'
    exact hs.single l l' h hl hl'
  · by_cases hlk : l = k
    · rw [hlk, hself]
      cases c <;> trivial
    · rw [hother l hlk]
      exact hs.agrees l

section Moves

variable (hs : Settled files selected calls)
include hs

/-- `VMSHM_SELECT` has found an entry for a file with nothing selected. -/
theorem Settled.select (hfile : files h = .opened none) (hk : (calls k).midway = none)
    (halone : ∀ l, l ≠ k → (calls l).midway ≠ some h) (a : Addr) :
    Settled files (Function.update selected h (some a))
      (Function.update calls k (.selected h a)) := by
  have hself : Function.update calls k (.selected h a) k = .selected h a := Function.update_self ..
  apply hs.change (h := h) (fun g _ => rfl) (fun g hg => Function.update_of_ne hg ..)
    (fun l hl => Function.update_of_ne hl ..) halone
  · intro g _ hg
    rw [hk] at hg
    cases hg
  · intro g hg
    rw [hself]
    exact midway_ne rfl hg
  · rw [hself]
    exact ⟨Function.update_self .., hfile⟩
  · rw [hself]
    exact fun hne => absurd rfl hne

theorem Settled.alone (hk : (calls k).midway = some h) (l : Task) (hl : l ≠ k) :
    (calls l).midway ≠ some h :=
  fun hm => hl (hs.single l k h hm hk)

/-- The selection is stored in `private_data`. -/
theorem Settled.store (hk : calls k = .selected h a) :
    Settled (Function.update files h (.opened (some a))) selected
      (Function.update calls k (.stored h a)) := by
  have hagrees := hs.agrees k
  rw [hk] at hagrees
  have hmid : (calls k).midway = some h := by rw [hk]; rfl
  have hself : Function.update calls k (.stored h a) k = .stored h a := Function.update_self ..
  apply hs.change (h := h) (fun g hg => Function.update_of_ne hg ..) (fun g _ => rfl)
    (fun l hl => Function.update_of_ne hl ..) (hs.alone hmid)
  · exact fun g hg => midway_ne hmid hg
  · intro g hg
    rw [hself]
    exact midway_ne rfl hg
  · rw [hself]
    exact ⟨hagrees.1, Function.update_self ..⟩
  · rw [hself]
    exact fun hne => absurd rfl hne

/-- `VMSHM_SELECT` is over. -/
theorem Settled.finish (hk : calls k = .stored h a) :
    Settled files selected (Function.update calls k .idle) := by
  have hagrees := hs.agrees k
  rw [hk] at hagrees
  have hmid : (calls k).midway = some h := by rw [hk]; rfl
  have hself : Function.update calls k .idle k = .idle := Function.update_self ..
  apply hs.change (h := h) (fun g _ => rfl) (fun g _ => rfl)
    (fun l hl => Function.update_of_ne hl ..) (hs.alone hmid)
  · exact fun g hg => midway_ne hmid hg
  · intro g _
    rw [hself]
    exact (Option.some_ne_none g).symm
  · rw [hself]
    trivial
  · intro _ b
    rw [hagrees.1, hagrees.2]
    simp

/-- `VMSHM_UNSELECT` gives up what its file has selected. -/
theorem Settled.unselect (hk : (calls k).midway = none)
    (halone : ∀ l, l ≠ k → (calls l).midway ≠ some h) :
    Settled files (Function.update selected h none)
      (Function.update calls k (.unselected h)) := by
  have hself : Function.update calls k (.unselected h) k = .unselected h :=
    Function.update_self ..
  apply hs.change (h := h) (fun g _ => rfl) (fun g hg => Function.update_of_ne hg ..)
    (fun l hl => Function.update_of_ne hl ..) halone
  · intro g _ hg
    rw [hk] at hg
    cases hg
  · intro g hg
    rw [hself]
    exact midway_ne rfl hg
  · rw [hself]
    exact Function.update_self ..
  · rw [hself]
    exact fun hne => absurd rfl hne

/-- `VMSHM_UNSELECT` is over. -/
theorem Settled.clear (hk : calls k = .unselected h) :
    Settled (Function.update files h (.opened none)) selected
      (Function.update calls k .idle) := by
  have hagrees := hs.agrees k
  rw [hk] at hagrees
  have hnone : selected h = none := hagrees
  have hmid : (calls k).midway = some h := by rw [hk]; rfl
  have hself : Function.update calls k .idle k = .idle := Function.update_self ..
  apply hs.change (h := h) (fun g hg => Function.update_of_ne hg ..) (fun g _ => rfl)
    (fun l hl => Function.update_of_ne hl ..) (hs.alone hmid)
  · exact fun g hg => midway_ne hmid hg
  · intro g _
    rw [hself]
    exact (Option.some_ne_none g).symm
  · rw [hself]
    trivial
  · intro _ b
    rw [hnone, Function.update_self]
    simp

/-- The file is closed. -/
theorem Settled.close (hover : ∀ k, (calls k).file ≠ some h) :
    Settled (Function.update files h .closed) (Function.update selected h none) calls := by
  have hmid : ∀ k g, (calls k).midway = some g → g ≠ h := by
    intro k g hk hgh
    apply hover k
    rw [← hgh]
    cases hc : calls k <;> rw [hc] at hk <;> first | exact hk | cases hk
  refine ⟨fun g hnone b => ?_, hs.single, fun k => ?_⟩
  · by_cases hgh : g = h
    · rw [hgh, Function.update_self, Function.update_self]
      simp
    · rw [Function.update_of_ne hgh, Function.update_of_ne hgh]
      exact hs.selection g hnone b
  · apply Call.agrees_congr (hs.agrees k)
    intro g hg
    exact ⟨Function.update_of_ne (hmid k g hg) .., Function.update_of_ne (hmid k g hg) ..⟩

end Moves

/-! ## The registry -/

/-- The list is sound, and so is what the files and the calls know of it. -/
structure Kept (r : Registry) (selected : Filp → Option Addr) (calls : Task → Call) : Prop
    extends Referenced r selected where
  built : ∀ k a, calls k = .built a → a ∈ r.live ∧ a ∉ r.list ∧ (r.mem a).refcnt = 0
  apart : ∀ k l a, calls k = .built a → calls l = .built a → k = l

variable {r : Registry} {s t : Driver}

/-- A call goes on, and has no new entry. -/
theorem Kept.goto (hk : Kept r selected calls) (hc : ∀ a, c ≠ .built a) :
    Kept r selected (Function.update calls k c) := by
  have hback : ∀ l a, Function.update calls k c l = .built a → calls l = .built a := by
    intro l a hl
    by_cases hlk : l = k
    · rw [hlk, Function.update_self] at hl
      exact absurd hl (hc a)
    · rw [Function.update_of_ne hlk] at hl
      exact hl
  exact ⟨hk.toReferenced, fun l a hl => hk.built l a (hback l a hl),
    fun l l' a hl hl' => hk.apart l l' a (hback l a hl) (hback l' a hl')⟩

/-- A new entry, known to its task only, has nobody who counts in it. -/
theorem Kept.build (hk : Kept r selected calls) (hfree : a ∉ r.live) {entry : VMSharedMemory}
    (hzero : entry.refcnt = 0) :
    Kept (r.kzalloc a entry) selected (Function.update calls k (.built a)) := by
  have hback : ∀ l b, Function.update calls k (.built a) l = .built b →
      l = k ∧ b = a ∨ calls l = .built b := by
    intro l b hl
    by_cases hlk : l = k
    · rw [hlk, Function.update_self] at hl
      cases hl
      exact .inl ⟨hlk, rfl⟩
    · rw [Function.update_of_ne hlk] at hl
      exact .inr hl
  refine ⟨hk.toReferenced.build hfree entry, fun l b hl => ?_, fun l l' b hl hl' => ?_⟩
  · rcases hback l b hl with ⟨-, rfl⟩ | hl
    · refine ⟨Finset.mem_insert_self .., fun hb => hfree (hk.live b hb), ?_⟩
      rw [show (r.kzalloc b entry).mem b = entry from Function.update_self ..]
      exact hzero
    · obtain ⟨hlive, hout, hcount⟩ := hk.built l b hl
      have hne : b ≠ a := fun heq => hfree (heq ▸ hlive)
      refine ⟨Finset.mem_insert_of_mem hlive, hout, ?_⟩
      rw [Entries.kzalloc_mem_of_ne hne]
      exact hcount
  · have hold : ∀ l, calls l ≠ .built a := fun l hl => hfree (hk.built l a hl).1
    rcases hback l b hl with ⟨hlk, hb⟩ | hbefore <;>
      rcases hback l' b hl' with ⟨hlk', hb'⟩ | hbefore'
    · rw [hlk, hlk']
    · exact absurd (hb ▸ hbefore') (hold l')
    · exact absurd (hb' ▸ hbefore) (hold l)
    · exact hk.apart l l' b hbefore hbefore'

/-- The new entry is inserted, and no other has its name. -/
theorem Kept.link (hk : Kept r selected calls) (hcall : calls k = .built a)
    (hnew : ∀ b ∈ r.list, (r.mem b).name ≠ (r.mem a).name) :
    Kept (r.listAddTail a) selected (Function.update calls k (.listed a)) := by
  obtain ⟨hlive, hout, hzero⟩ := hk.built k a hcall
  have hkeep := hk.goto (k := k) (c := .listed a) fun b => Call.noConfusion
  refine ⟨hk.toReferenced.link hlive hout hzero hnew, fun l b hl => ?_, hkeep.apart⟩
  obtain ⟨hlive', hout', hzero'⟩ := hkeep.built l b hl
  rw [Entries.listAddTail_of_live hlive]
  refine ⟨hlive', fun hb => ?_, hzero'⟩
  rcases List.mem_append.mp hb with hb | hb
  · exact hout' hb
  · obtain rfl := List.mem_singleton.mp hb
    have hlk : l ≠ k := fun heq => by rw [heq, Function.update_self] at hl; cases hl
    rw [Function.update_of_ne hlk] at hl
    exact hlk (hk.apart l k b hl hcall)

/-- An entry that nobody has selected is removed. -/
theorem Kept.remove (hk : Kept r selected calls) (ha : a ∈ r.list)
    (hzero : (r.mem a).refcnt = 0) : Kept (remove r a) selected calls := by
  refine ⟨hk.toReferenced.remove ha hzero, fun l b hl => ?_, hk.apart⟩
  obtain ⟨hlive, hout, hzero'⟩ := hk.built l b hl
  have hba : b ≠ a := fun heq => hout (heq ▸ ha)
  rw [remove_of_live (hk.live a ha) ha]
  exact ⟨Finset.mem_erase.mpr ⟨hba, hlive⟩, fun hb => hout (List.mem_of_mem_erase hb), hzero'⟩

/-- The new entries do not notice a change of a count. -/
theorem Kept.withRefs (hk : Kept r selected calls) (ha : a ∈ r.list) {i : Int}
    (hrefs : Referenced (addRefcnt r a i) selected') : Kept (addRefcnt r a i) selected' calls := by
  refine ⟨hrefs, fun l b hl => ?_, hk.apart⟩
  obtain ⟨hlive, hout, hzero⟩ := hk.built l b hl
  have hba : b ≠ a := fun heq => hout (heq ▸ ha)
  refine ⟨hlive, hout, ?_⟩
  rw [addRefcnt_of_ne i hba]
  exact hzero

/-- `atomic_inc(&mem->refcnt)` for a file with nothing selected. -/
theorem Kept.select (hk : Kept r selected calls) (ha : a ∈ r.list) (hnone : selected h = none) :
    Kept (addRefcnt r a 1) (Function.update selected h (some a)) calls :=
  hk.withRefs ha (hk.toReferenced.select ha hnone)

/-- `vmshm_unselect`, or the `atomic_dec` of `vmshm_release`. -/
theorem Kept.unselect (hk : Kept r selected calls) (hsel : selected h = some a) :
    Kept (vmshmUnselect r a) (Function.update selected h none) calls :=
  hk.withRefs (hk.held h a hsel) (hk.toReferenced.unselect hsel)

/-! ## Steps and runs -/

/-- Everything that is kept. -/
structure Inv (s : Driver) : Prop where
  kept : Kept s.reg s.selected s.calls
  settled : Settled s.files s.selected s.calls

/-- The invariant is enough: what is selected is in the list and counted. -/
theorem Inv.sound (hinv : Inv s) : s.Sound :=
  ⟨hinv.kept.names, hinv.kept.counted, hinv.settled.selection, hinv.kept.sane⟩

/-- A task goes on without touching anything shared. -/
theorem Inv.goto (hinv : Inv s) (hk : (s.calls k).midway = none) (hc : c.midway = none)
    (hnew : ∀ a, c ≠ .built a) : Inv (s.goto k c) :=
  ⟨hinv.kept.goto hnew, hinv.settled.calm hk hc⟩

/-- Walking over the list changes nothing. -/
theorem Inv.lookup (hinv : Inv s) {name : Name} {reg : Registry} {found : Option Addr}
    (houtcome : lookup s.reg name = (reg, found)) : reg = s.reg :=
  (of_lookup hinv.kept.live houtcome).1

/-- A file that only task `k` has to do with, and not yet. -/
theorem Inv.selection_of_alone (hinv : Inv s) (hk : (s.calls k).midway = none)
    (halone : s.Undisturbed k h) (a : Addr) :
    s.selected h = some a ↔ s.files h = .opened (some a) := by
  apply hinv.settled.selection
  intro l
  by_cases hlk : l = k
  · rw [hlk, hk]
    exact (Option.some_ne_none h).symm
  · exact halone l hlk

/-- A file that is opened without an entry has nothing selected. -/
theorem Inv.nothing_selected (hinv : Inv s) (hk : (s.calls k).midway = none)
    (halone : s.Undisturbed k h) (hfile : s.files h = .opened none) : s.selected h = none := by
  by_contra hne
  obtain ⟨a, ha⟩ := Option.ne_none_iff_exists'.mp hne
  cases hfile.symm.trans ((hinv.selection_of_alone hk halone a).mp ha)

/-- A file that no call has to do with. -/
theorem Inv.selection_of_over (hinv : Inv s) (hover : ∀ k, (s.calls k).file ≠ some h) (a : Addr) :
    s.selected h = some a ↔ s.files h = .opened (some a) := by
  apply hinv.settled.selection
  intro k hk
  apply hover k
  cases hc : s.calls k <;> rw [hc] at hk <;> first | exact hk | cases hk

/-- The calls that get past their checks. -/
theorem vmshmIoctl_calm {p : Option Addr} {call : Ioctl} (hcall : vmshmIoctl h p call = .ok c) :
    c.midway = none ∧ ∀ a, c ≠ .built a := by
  unfold vmshmIoctl at hcall
  split at hcall
  · cases hcall
  · split at hcall <;> cases hcall
    exact ⟨rfl, fun a => Call.noConfusion⟩
  · cases hcall
  · split at hcall <;> cases hcall
    exact ⟨rfl, fun a => Call.noConfusion⟩
  · split at hcall
    · cases hcall
    · split at hcall <;> cases hcall
      exact ⟨rfl, fun a => Call.noConfusion⟩
  · split at hcall <;> cases hcall
    exact ⟨rfl, fun a => Call.noConfusion⟩

theorem Inv.step (hinv : Inv s) {e : Task × Event} (hstep : CarefulStep s e t) : Inv t := by
  obtain ⟨hstep, hcareful⟩ := hstep
  cases hstep with
  | ioctlRefused at_call at_file outcome => exact hinv
  | ioctlEntered at_call at_file outcome =>
      obtain ⟨hcalm, hnew⟩ := vmshmIoctl_calm outcome
      exact hinv.goto (by rw [at_call]; rfl) hcalm hnew
  | duplicated at_call outcome =>
      obtain rfl := hinv.lookup outcome
      exact hinv.goto (by rw [at_call]; rfl) rfl fun a => Call.noConfusion
  | vetted at_call outcome =>
      obtain rfl := hinv.lookup outcome
      exact hinv.goto (by rw [at_call]; rfl) rfl fun a => Call.noConfusion
  | sizeRefused at_call test => exact hinv.goto (by rw [at_call]; rfl) rfl fun a => Call.noConfusion
  | noMemory at_call test => exact hinv.goto (by rw [at_call]; rfl) rfl fun a => Call.noConfusion
  | build at_call test free =>
      exact ⟨hinv.kept.build free rfl, hinv.settled.calm (by rw [at_call]; rfl) rfl⟩
  | link at_call =>
      simp only [Driver.Careful, at_call] at hcareful
      exact ⟨hinv.kept.link at_call hcareful, hinv.settled.calm (by rw [at_call]; rfl) rfl⟩
  | created at_call => exact hinv.goto (by rw [at_call]; rfl) rfl fun a => Call.noConfusion
  | moduleGone at_call =>
      simp only [Driver.Careful, at_call] at hcareful
      exact absurd rfl (hcareful .einval)
  | removeFound at_call outcome =>
      obtain rfl := hinv.lookup outcome
      exact hinv.goto (by rw [at_call]; rfl) rfl fun a => Call.noConfusion
  | removeMissing at_call outcome =>
      obtain rfl := hinv.lookup outcome
      exact hinv.goto (by rw [at_call]; rfl) rfl fun a => Call.noConfusion
  | @vmshmRemove k a reg err at_call outcome =>
      simp only [Driver.Careful, at_call] at hcareful
      have htouch := Entries.touch_of_live (hinv.kept.live a hcareful)
      rw [Vmshm.vmshmRemove, htouch] at outcome
      have hcalm : Settled s.files s.selected (Function.update s.calls k .idle) :=
        hinv.settled.calm (by rw [at_call]; rfl) rfl
      split at outcome
      · next hzero =>
          cases outcome
          exact ⟨(hinv.kept.remove hcareful hzero).goto fun b => Call.noConfusion, hcalm⟩
      · cases outcome
        exact ⟨hinv.kept.goto fun b => Call.noConfusion, hcalm⟩
  | @selectFound k h name reg a at_call outcome =>
      obtain ⟨hfound, hlist, -, rfl⟩ := vmshmSelect_found hinv.kept.live outcome
      simp only [Driver.Careful, at_call] at hcareful
      obtain ⟨hfile, halone⟩ := hcareful (by rw [hfound]; exact Option.some_ne_none a)
      have hmid : (s.calls k).midway = none := by
        rw [at_call]
        rfl
      have hnone := hinv.nothing_selected hmid halone hfile
      exact ⟨(hinv.kept.select hlist hnone).goto fun b => Call.noConfusion,
        hinv.settled.select hfile hmid halone a⟩
  | selectMissing at_call outcome =>
      obtain ⟨rfl, -⟩ := vmshmSelect_missing hinv.kept.live outcome
      exact hinv.goto (by rw [at_call]; rfl) rfl fun a => Call.noConfusion
  | store at_call =>
      exact ⟨hinv.kept.goto fun a => Call.noConfusion, hinv.settled.store at_call⟩
  | @readSize k h a at_call =>
      have hagrees := hinv.settled.agrees k
      rw [at_call] at hagrees
      have hlive := hinv.kept.live a (hinv.kept.held h a hagrees.1)
      rw [Entries.touch_of_live hlive]
      exact ⟨hinv.kept.goto fun b => Call.noConfusion, hinv.settled.finish at_call⟩
  | @vmshmUnselect k h a at_call =>
      simp only [Driver.Careful, at_call] at hcareful
      obtain ⟨hfile, halone⟩ := hcareful
      have hmid : (s.calls k).midway = none := by
        rw [at_call]
        rfl
      have hsel := (hinv.selection_of_alone hmid halone a).mpr hfile
      exact ⟨(hinv.kept.unselect hsel).goto fun b => Call.noConfusion,
        hinv.settled.unselect hmid halone⟩
  | clear at_call =>
      exact ⟨hinv.kept.goto fun a => Call.noConfusion, hinv.settled.clear at_call⟩
  | @releaseUnused k h at_call at_file ended =>
      have hnone : s.selected h = none := by
        by_contra hne
        obtain ⟨a, ha⟩ := Option.ne_none_iff_exists'.mp hne
        cases at_file.symm.trans ((hinv.selection_of_over ended a).mp ha)
      have hclose := hinv.settled.close ended
      rw [← hnone, Function.update_eq_self] at hclose
      exact ⟨hinv.kept, hclose⟩
  | @release k h a at_call at_file ended =>
      have hsel : s.selected h = some a := (hinv.selection_of_over ended a).mpr at_file
      exact ⟨hinv.kept.unselect hsel, hinv.settled.close ended⟩

theorem Inv.init (mem : Addr → VMSharedMemory) : Inv (init mem) := by
  constructor
  · refine ⟨Referenced.empty rfl (fun h => rfl) rfl, fun k a hk => ?_, fun k l a hk => ?_⟩
    · cases hk
    · cases hk
  · refine ⟨fun h _ a => ?_, fun k l h hk => ?_, fun k => trivial⟩
    · constructor
      · intro ha
        cases ha
      · intro ha
        cases ha
    · cases hk

/-- **The shared memory registry.**  In every run of careful steps the names
in the list are distinct, the reference counts are the numbers of files that
have the entries selected, and nothing freed is accessed. -/
theorem vmshm_registry {mem : Addr → VMSharedMemory} {tr : List (Task × Event)}
    (hrun : Run CarefulStep (init mem) tr s) : s.Sound := by
  have hinv : Inv s := hrun.invariant Inv (Inv.init mem) fun s e t hs hstep => hs.step hstep
  exact hinv.sound

/-- One entry, selected by one file. -/
theorem vmshm_registry_one_selection : ∃ mem tr s, Run CarefulStep (init mem) tr s ∧
    s.files 0 = .opened (some 7) ∧ s.reg.list = [7] ∧ s.Sound := by
  let name : Name := ⟨[97], by decide⟩
  have hrun : Run CarefulStep (init fun _ => newMemory name 0 0 0) [] _ := Run.nil
  have hrun := hrun.snoc ⟨@Step.ioctlEntered _ 0 0 none (.create (some (name, 1, 0, 0))) _
    rfl rfl rfl, trivial⟩
  have hrun := hrun.snoc ⟨@Step.vetted _ 0 name 1 0 0 _ rfl rfl, trivial⟩
  have hrun := hrun.snoc ⟨@Step.build _ 0 name 1 0 0 7 rfl (by decide) (Finset.notMem_empty 7),
    trivial⟩
  have hrun := hrun.snoc ⟨@Step.link _ 0 7 rfl, fun b hb => by cases hb⟩
  have hrun := hrun.snoc ⟨@Step.created _ 0 7 rfl, fun err => by simp⟩
  have hrun := hrun.snoc ⟨@Step.ioctlEntered _ 0 0 none (.select (some name)) _ rfl rfl rfl,
    trivial⟩
  have hrun := hrun.snoc ⟨@Step.selectFound _ 0 0 name _ 7 rfl rfl, fun _ => ⟨rfl, fun l hl => by
    rcases l with _ | l
    · exact absurd rfl hl
    · intro hmid
      cases hmid⟩⟩
  have hrun := hrun.snoc ⟨@Step.store _ 0 0 7 rfl, trivial⟩
  exact ⟨_, _, _, hrun, rfl, rfl, vmshm_registry hrun⟩

/-- Two creations of one name, and two removals of one entry. -/
theorem vmshm_registry_races : ∃ mem,
    (∃ tr s, Run Step (init mem) tr s ∧
      ¬ (s.reg.list.map fun a => (s.reg.mem a).name).Nodup) ∧
    (∃ tr s, Run Step (init mem) tr s ∧ s.reg.fault = true) := by
  let name : Name := ⟨[97], by decide⟩
  refine ⟨fun _ => newMemory name 0 0 0, ?_, ?_⟩
  · -- both find the name unused before either inserts its entry
    have hrun := Run.nil.snoc (@Step.ioctlEntered (init fun _ => newMemory name 0 0 0) 0 0 none
      (.create (some (name, 1, 0, 0))) _ rfl rfl rfl)
    have hrun := hrun.snoc (@Step.ioctlEntered _ 1 1 none (.create (some (name, 1, 0, 0))) _
      rfl rfl rfl)
    have hrun := hrun.snoc (@Step.vetted _ 0 name 1 0 0 _ rfl rfl)
    have hrun := hrun.snoc (@Step.vetted _ 1 name 1 0 0 _ rfl rfl)
    have hrun := hrun.snoc (@Step.build _ 0 name 1 0 0 7 rfl (by decide) (Finset.notMem_empty 7))
    have hrun := hrun.snoc (@Step.build _ 1 name 1 0 0 8 rfl (by decide) (by decide))
    have hrun := hrun.snoc (@Step.link _ 0 7 rfl)
    have hrun := hrun.snoc (@Step.link _ 1 8 rfl)
    refine ⟨_, _, hrun, ?_⟩
    intro hnodup
    exact (List.nodup_cons.mp hnodup).1 List.mem_cons_self
  · -- both find the entry before either removes it
    have hrun := Run.nil.snoc (@Step.ioctlEntered (init fun _ => newMemory name 0 0 0) 0 0 none
      (.create (some (name, 1, 0, 0))) _ rfl rfl rfl)
    have hrun := hrun.snoc (@Step.vetted _ 0 name 1 0 0 _ rfl rfl)
    have hrun := hrun.snoc (@Step.build _ 0 name 1 0 0 7 rfl (by decide) (Finset.notMem_empty 7))
    have hrun := hrun.snoc (@Step.link _ 0 7 rfl)
    have hrun := hrun.snoc (@Step.created _ 0 7 rfl)
    have hrun := hrun.snoc (@Step.ioctlEntered _ 0 0 none (.remove (some name)) _ rfl rfl rfl)
    have hrun := hrun.snoc (@Step.ioctlEntered _ 1 1 none (.remove (some name)) _ rfl rfl rfl)
    have hrun := hrun.snoc (@Step.removeFound _ 0 name _ 7 rfl rfl)
    have hrun := hrun.snoc (@Step.removeFound _ 1 name _ 7 rfl rfl)
    have hrun := hrun.snoc (@Step.vmshmRemove _ 0 7 _ none rfl rfl)
    have hrun := hrun.snoc (@Step.vmshmRemove _ 1 7 _ none rfl rfl)
    exact ⟨_, _, hrun, rfl⟩

end Vmshm

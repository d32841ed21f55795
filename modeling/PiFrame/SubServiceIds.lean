import PiFrame.CyclicNames
import PiFrame.WatchdogServices

/-!
# The ids of sub-services

`PFWatchdogSubRegister` gives a handle the lower half of the process id and the lower
half of a counter for its id.  The counter is not compared with the ids that are still
in use, so an id comes back with the registration `2 ^ 16` registrations later.

The watchdog looks for a sub-service by its id and takes the first one, so two handles
with one id are one sub-service to it.
-/

namespace SubServiceIds

open CyclicNames Transition Watchdog

/-- A handle that has not been given back.  The registrations of the process are
numbered; nothing in the code has these numbers. -/
structure Live where
  address : Nat
  handle : VMWdtHandler
  serial : Nat

/-- A process that uses the library. -/
structure Process where
  wdi : PFWDInfo
  live : List Live
  made : Nat

/-- `PFWatchdogSubRegister`, `calloc` returning the address. -/
def Process.register (p : Process) (pid timeout : BitVec 32) (now : Int) (address : Nat) :
    Process :=
  match pfWatchdogSubRegister p.wdi pid now timeout with
  | (wdi, some handle, _) =>
      { wdi, live := ⟨address, handle, p.made⟩ :: p.live, made := p.made + 1 }
  | (wdi, none, _) => { p with wdi }

/-- `PFWatchdogSubUnregister`, which frees the handle when it returns 0. -/
def Process.unregister (p : Process) (pid : BitVec 32) (h : Live) : Process :=
  if (pfWatchdogSubUnregister p.wdi pid h.handle).1 = 0 then
    { p with live := p.live.filter (·.address ≠ h.address) }
  else p

/-- A call, with its arguments and with what it gets from its surroundings. -/
inductive Call
  | register (timeout : BitVec 32) (now : Int) (address : Nat)
  | unregister (address : Nat)

/-- The calls of process `pid`.  `calloc` returns a free address, and a handle that is
given back is a live one. -/
inductive Step (pid : BitVec 32) : Process → Call → Process → Prop
  | register {p : Process} {timeout : BitVec 32} {now : Int} {address : Nat}
      (fresh : ∀ h ∈ p.live, h.address ≠ address) :
      Step pid p (.register timeout now address) (p.register pid timeout now address)
  | unregister {p : Process} {h : Live} (live : h ∈ p.live) :
      Step pid p (.unregister h.address) (p.unregister pid h)

/-- Before the first call. -/
def start (wdi : PFWDInfo) : Process := ⟨wdi, [], 0⟩

/-- What the watchdog does about one id neither refreshes nor removes the sub-services
with another. -/
def Unmixed (id other : BitVec 32) : Prop :=
  ∀ (now : Int) (subs : List ListSubService),
    (hearSub id now subs).filter (·.subId = other) = subs.filter (·.subId = other) ∧
      (subs.eraseP (·.subId = id)).filter (·.subId = other) = subs.filter (·.subId = other)

/-- Handles that are live at the same time have different ids, and the watchdog does not
mix them up. -/
def Distinct (p : Process) : Prop :=
  p.live.Pairwise fun a b => a.handle.subId ≠ b.handle.subId ∧
    Unmixed a.handle.subId b.handle.subId ∧ Unmixed b.handle.subId a.handle.subId

/-- The call does not register a multiple of `2 ^ 16` registrations after a handle that is
still live. -/
def Spaced (p : Process) : Call → Prop
  | .register .. => ∀ h ∈ p.live, ¬ p.made ≡ h.serial [MOD 2 ^ 16]
  | .unregister _ => True

def SpacedStep (pid : BitVec 32) (p : Process) (c : Call) (p' : Process) : Prop :=
  Step pid p c p' ∧ Spaced p c

variable {pid x y : BitVec 32} {wdi : PFWDInfo} {p p' : Process} {c : Call} {h : Live}
  {tr : List Call}

/-! ## The watchdog and one id -/

/-- Hearing from one id leaves the sub-services with another alone. -/
theorem filter_hearSub {id other : BitVec 32} {now : Int} {subs : List ListSubService}
    (hne : id ≠ other) :
    (hearSub id now subs).filter (·.subId = other) = subs.filter (·.subId = other) := by
  induction subs with
  | nil => rfl
  | cons sub subs ih =>
      rw [hearSub]
      split
      · next hid =>
        rw [List.filter_cons_of_neg (by simpa [hid] using hne),
          List.filter_cons_of_neg (by simpa [hid] using hne)]
      · rw [List.filter_cons, List.filter_cons, ih]

/-- Removing one id leaves the sub-services with another alone. -/
theorem filter_eraseP {id other : BitVec 32} {subs : List ListSubService} (hne : id ≠ other) :
    (subs.eraseP (·.subId = id)).filter (·.subId = other) = subs.filter (·.subId = other) := by
  induction subs with
  | nil => rfl
  | cons sub subs ih =>
      by_cases hid : sub.subId = id
      · rw [List.eraseP_cons_of_pos (by simpa using hid),
          List.filter_cons_of_neg (by simpa [hid] using hne)]
      · rw [List.eraseP_cons_of_neg (by simpa using hid), List.filter_cons, List.filter_cons, ih]

/-- Two ids that differ are never taken for each other. -/
theorem unmixed_of_ne {id other : BitVec 32} (hne : id ≠ other) : Unmixed id other :=
  fun _ _ => ⟨filter_hearSub hne, filter_eraseP hne⟩

/-- The ids are distinct if no two live handles share one. -/
theorem distinct_iff : Distinct p ↔
    p.live.Pairwise fun a b => a.handle.subId ≠ b.handle.subId :=
  ⟨fun h => h.imp fun hab => hab.1,
    fun h => h.imp fun hne => ⟨hne, unmixed_of_ne hne, unmixed_of_ne hne.symm⟩⟩

/-! ## Ids come back -/

def lowHalf (x : BitVec 32) : BitVec 32 := x &&& 0xffff

/-- The id that the registration with that number gets. -/
def subId (pid first : BitVec 32) (serial : Nat) : BitVec 32 :=
  pid <<< 16 ||| lowHalf (first + BitVec.ofNat 32 serial)

/-- The lower half of a word is its remainder by `2 ^ 16`. -/
theorem toNat_lowHalf : (lowHalf x).toNat = x.toNat % 2 ^ 16 := by
  rw [lowHalf, BitVec.toNat_and]
  exact Nat.and_two_pow_sub_one_eq_mod _ 16

/-- Two counts have the same lower half if they are congruent. -/
theorem lowHalf_eq_iff : lowHalf x = lowHalf y ↔ x.toNat ≡ y.toNat [MOD 2 ^ 16] := by
  rw [BitVec.toNat_eq, toNat_lowHalf, toNat_lowHalf]
  rfl

/-- The lower half of an id is that of the counter. -/
theorem lowHalf_or : lowHalf (pid <<< 16 ||| lowHalf x) = lowHalf x := by
  have hshift : (pid <<< 16).toNat % 2 ^ 16 = 0 := by
    rw [BitVec.toNat_shiftLeft, Nat.shiftLeft_eq]
    omega
  rw [BitVec.toNat_eq, toNat_lowHalf, BitVec.toNat_or, Nat.or_mod_two_pow, hshift, Nat.zero_or,
    toNat_lowHalf, Nat.mod_mod]

/-- The ids of one process come round after `2 ^ 16` registrations. -/
theorem cyclic_subId {first : BitVec 32} : Cyclic (2 ^ 16) (subId pid first) := by
  intro i j
  have hlow : subId pid first i = subId pid first j ↔
      lowHalf (first + BitVec.ofNat 32 i) = lowHalf (first + BitVec.ofNat 32 j) := by
    refine ⟨fun heq => ?_, fun heq => by rw [subId, subId, heq]⟩
    have hboth := congrArg lowHalf heq
    rwa [subId, subId, lowHalf_or, lowHalf_or] at hboth
  have hcount : ∀ k, (first + BitVec.ofNat 32 k).toNat % 2 ^ 16 = (first.toNat + k) % 2 ^ 16 := by
    intro k
    rw [BitVec.toNat_add, BitVec.toNat_ofNat]
    omega
  rw [hlow, lowHalf_eq_iff, Nat.ModEq, hcount, hcount]
  exact ((cyclic_mod (2 ^ 16)).shift first.toNat) i j

/-! ## Histories -/

/-- Every live handle has the id of its registration, and every registration its own
handle. -/
structure Inv (pid : BitVec 32) (wdi : PFWDInfo) (p : Process) : Prop where
  count : p.wdi.subCount = wdi.subCount + BitVec.ofNat 32 p.made
  named : ∀ h ∈ p.live, h.handle.subId = subId pid wdi.subCount h.serial
  opened : p.wdi.eventQ = false → p.live = []

/-- At the start no sub-service has been registered. -/
theorem inv_start : Inv pid wdi (start wdi) where
  count := by simp [start]
  named _ h := by cases h
  opened _ := rfl

/-- A registration without an open queue does nothing; with one it makes a handle with the next
id. -/
theorem register_cases {timeout : BitVec 32} {now : Int} {address : Nat} :
    (p.wdi.eventQ = false ∧ p.register pid timeout now address = p) ∨
      ∃ h, h.address = address ∧ h.handle.subId = pid <<< 16 ||| lowHalf p.wdi.subCount ∧
        h.serial = p.made ∧ p.wdi.eventQ = true ∧
        p.register pid timeout now address =
          ⟨{ p.wdi with subCount := p.wdi.subCount + 1 }, h :: p.live, p.made + 1⟩ := by
  unfold Process.register pfWatchdogSubRegister
  cases hq : p.wdi.eventQ with
  | false => exact .inl ⟨rfl, by simp⟩
  | true =>
      exact .inr ⟨⟨address, ⟨now, pid <<< 16 ||| lowHalf p.wdi.subCount⟩, p.made⟩, rfl, rfl, rfl,
        rfl, by simp [lowHalf, hq]⟩

theorem unregister_cases : (p.unregister pid h).live.Sublist p.live ∧
    (p.unregister pid h).wdi = p.wdi ∧ (p.unregister pid h).made = p.made := by
  unfold Process.unregister
  split
  · exact ⟨List.filter_sublist, rfl, rfl⟩
  · exact ⟨.refl _, rfl, rfl⟩

/-- Every call keeps the ids those of the registrations.  A registration takes the next count
for its handle, and nothing else writes a handle's id. -/
theorem Inv.step (hinv : Inv pid wdi p) (hstep : Step pid p c p') : Inv pid wdi p' := by
  cases hstep with
  | register fresh =>
      obtain ⟨-, heq⟩ | ⟨h, -, hid, hserial, hopen, heq⟩ := register_cases
      · rw [heq]
        exact hinv
      · rw [heq]
        refine ⟨?_, ?_, fun hclosed => ?_⟩
        · show p.wdi.subCount + 1 = _
          rw [hinv.count, BitVec.ofNat_add, BitVec.add_assoc]
          rfl
        · intro a ha
          rcases List.mem_cons.1 ha with rfl | ha
          · rw [hid, hserial, subId, hinv.count]
          · exact hinv.named a ha
        · exact absurd (hopen.symm.trans hclosed) (by decide)
  | unregister live =>
      obtain ⟨hsub, hwdi, hmade⟩ := unregister_cases
      refine ⟨?_, fun a ha => hinv.named a (hsub.subset ha), fun hclosed => ?_⟩
      · rw [hwdi, hmade, hinv.count]
      · rw [hwdi] at hclosed
        have hnone := hinv.opened hclosed
        rw [hnone] at hsub
        exact List.sublist_nil.1 hsub

/-- A handle gets an id that is in use when a registration a multiple of `2 ^ 16` before it
is still live. -/
theorem Inv.distinct_step_iff (hinv : Inv pid wdi p) (hdistinct : Distinct p)
    (hstep : Step pid p c p') : Distinct p' ↔ Spaced p c := by
  cases hstep with
  | register fresh =>
      obtain ⟨hclosed, heq⟩ | ⟨h, -, hid, -, -, heq⟩ := register_cases
      · rw [heq]
        refine iff_of_true hdistinct fun h hh => ?_
        rw [hinv.opened hclosed] at hh
        cases hh
      · have hnew : h.handle.subId = subId pid wdi.subCount p.made := by
          rw [hid, subId, hinv.count]
        rw [heq, distinct_iff, List.pairwise_cons, and_iff_left (distinct_iff.1 hdistinct)]
        refine forall₂_congr fun a ha => ?_
        rw [hnew, hinv.named a ha, ne_eq, cyclic_subId p.made a.serial]
  | unregister live =>
      exact iff_of_true (hdistinct.sublist unregister_cases.1) trivial

/-- Over whole runs, the ids are those of the registrations. -/
theorem Inv.run (hrun : Run (Step pid) (start wdi) tr p) : Inv pid wdi p :=
  hrun.invariant (Inv pid wdi) inv_start fun _ _ _ => Inv.step

theorem distinct_start : Distinct (start wdi) :=
  List.Pairwise.nil

/-- **Ids of live handles.**  In every history whose registrations keep their distance
from the live handles, the handles have different ids, and the next call leaves it so
exactly when it keeps its distance, too. -/
theorem ids_distinct_iff (hrun : Run (SpacedStep pid) (start wdi) tr p) :
    Distinct p ∧ ∀ {c p'}, Step pid p c p' → (Distinct p' ↔ Spaced p c) := by
  have hboth : Inv pid wdi p ∧ Distinct p := by
    refine hrun.invariant (fun p => Inv pid wdi p ∧ Distinct p) ⟨inv_start, distinct_start⟩ ?_
    rintro q c q' ⟨hinv, hdistinct⟩ ⟨hstep, hspaced⟩
    exact ⟨hinv.step hstep, (hinv.distinct_step_iff hdistinct hstep).2 hspaced⟩
  exact ⟨hboth.2, fun hstep => hboth.1.distinct_step_iff hboth.2 hstep⟩

/-! ## A handle that outlives the others -/

/-- A process that has registered. -/
def registered : PFWDInfo where
  eventQ := true
  info := ⟨⟨0, 1234, ⟨⟨[100], by decide⟩, by decide⟩⟩, freshClient.info.params, 0, 0⟩
  subCount := 0

/-- Two handles, one after the other. -/
theorem ids_distinct_iff_two : ∃ p, Run (SpacedStep 1234) (start registered)
    [.register 10 0 0, .register 10 0 1] p ∧ Distinct p := by
  have hfirst : SpacedStep 1234 (start registered) (.register 10 0 0)
      ((start registered).register 1234 10 0 0) :=
    ⟨.register fun h hh => (by cases hh), fun h hh => by cases hh⟩
  have hsecond : SpacedStep 1234 ((start registered).register 1234 10 0 0) (.register 10 0 1)
      (((start registered).register 1234 10 0 0).register 1234 10 0 1) :=
    ⟨.register (by decide), by unfold Spaced; decide⟩
  have hrun := (Run.single hfirst).snoc hsecond
  exact ⟨_, hrun, (ids_distinct_iff hrun).1⟩

/-- A process knows its handles. -/
theorem ownHandle_of_subId (hid : h.handle.subId = pid <<< 16 ||| lowHalf x) :
    ownHandle pid h.handle = true := by
  have hpid : (pid <<< 16 ||| lowHalf x) >>> 16 &&& 0xffff = pid &&& 0xffff := by
    change lowHalf ((pid <<< 16 ||| lowHalf x) >>> 16) = lowHalf pid
    rw [lowHalf_eq_iff, BitVec.toNat_ushiftRight, BitVec.toNat_or, Nat.shiftRight_or_distrib,
      BitVec.toNat_shiftLeft, toNat_lowHalf, Nat.shiftRight_eq_div_pow, Nat.shiftRight_eq_div_pow,
      Nat.shiftLeft_eq, Nat.div_eq_of_lt (Nat.mod_lt _ (by decide)), Nat.or_zero]
    show pid.toNat * 2 ^ 16 % 2 ^ 32 / 2 ^ 16 % 2 ^ 16 = pid.toNat % 2 ^ 16
    omega
  rw [ownHandle, hid, beq_iff_eq]
  exact hpid

/-- Handles are registered at one address and given back at once. -/
def churn (n : Nat) : List Call :=
  (List.replicate n [.register 0 0 1, .unregister 1]).flatten

/-- A registration, while the queue is open. -/
theorem register_open (pid timeout : BitVec 32) (now : Int) {address : Nat}
    (hopen : p.wdi.eventQ = true) (hfree : ∀ h ∈ p.live, h.address ≠ address) :
    ∃ h p', h.address = address ∧ h.handle.subId = pid <<< 16 ||| lowHalf p.wdi.subCount ∧
      h.serial = p.made ∧ Step pid p (.register timeout now address) p' ∧
      p'.wdi.eventQ = true ∧ p'.live = h :: p.live ∧ p'.made = p.made + 1 := by
  obtain ⟨hclosed, -⟩ | ⟨h, haddress, hid, hserial, -, heq⟩ := register_cases
  · rw [hopen] at hclosed
    cases hclosed
  · refine ⟨h, _, haddress, hid, hserial, .register hfree, ?_⟩
    rw [heq]
    exact ⟨hopen, rfl, rfl⟩

/-- A handle that is registered and given back leaves nothing but the count. -/
theorem churn_once (pid : BitVec 32) (hopen : p.wdi.eventQ = true)
    (hfree : ∀ h ∈ p.live, h.address ≠ 1) :
    ∃ p', Run (Step pid) p [.register 0 0 1, .unregister 1] p' ∧ p'.wdi.eventQ = true ∧
      p'.live = p.live ∧ p'.made = p.made + 1 := by
  obtain ⟨h, q, haddress, hid, -, hstep, hq, hlive, hmade⟩ := register_open pid 0 0 hopen hfree
  have hmem : h ∈ q.live := hlive ▸ List.mem_cons_self
  have hback : Step pid q (.unregister 1) (q.unregister pid h) := haddress ▸ .unregister hmem
  refine ⟨_, (Run.single hstep).snoc hback, ?_⟩
  have hkept : p.live.filter (·.address ≠ 1) = p.live :=
    List.filter_eq_self.2 fun a ha => decide_eq_true (hfree a ha)
  have hself : (h :: p.live).filter (·.address ≠ h.address) = p.live := by
    rw [haddress, List.filter_cons_of_neg (by simp [haddress]), hkept]
  rw [Process.unregister, pfWatchdogSubUnregister, if_pos hq, if_pos (ownHandle_of_subId hid),
    if_pos rfl, hlive, hself]
  exact ⟨hq, rfl, hmade⟩

/-- Registering and unregistering over and over counts the ids on and leaves the other handles
alone. -/
theorem churn_run (pid : BitVec 32) (hopen : p.wdi.eventQ = true)
    (hfree : ∀ h ∈ p.live, h.address ≠ 1) (n : Nat) :
    ∃ p', Run (Step pid) p (churn n) p' ∧ p'.wdi.eventQ = true ∧ p'.live = p.live ∧
      p'.made = p.made + n := by
  induction n generalizing p with
  | zero => exact ⟨p, .nil, hopen, rfl, rfl⟩
  | succ n ih =>
      obtain ⟨q, honce, hq, hlive, hmade⟩ := churn_once pid hopen hfree
      obtain ⟨p', hrest, hp', hlive', hmade'⟩ := ih hq (hlive ▸ hfree)
      refine ⟨p', ?_, hp', hlive'.trans hlive, by omega⟩
      rw [churn, List.replicate_succ, List.flatten_cons]
      exact honce.append hrest

/-- The first handle is live when the counter comes round: 65535 registrations later, the next
one gets its id again. -/
theorem ids_not_distinct : ∃ p, Run (Step 1234) (start registered)
    (.register 10 0 0 :: churn 65535 ++ [.register 10 0 1]) p ∧ ¬ Distinct p := by
  have hnone : ∀ n, ∀ h ∈ (start registered).live, h.address ≠ n := fun n h hh => by cases hh
  obtain ⟨h, q, haddress, -, hserial, hfirst, hopen, hlive, hmade⟩ :=
    register_open 1234 10 0 rfl (hnone 0)
  have hfree : ∀ a ∈ q.live, a.address ≠ 1 := by
    intro a ha
    rw [hlive, List.mem_cons] at ha
    obtain rfl | ha := ha
    · rw [haddress]
      decide
    · exact hnone 1 a ha
  obtain ⟨q', hchurn, _, hlive', hmade'⟩ := churn_run 1234 hopen hfree 65535
  have hrun := (Run.single hfirst).append hchurn
  have hlast : Step 1234 q' (.register 10 0 1) (q'.register 1234 10 0 1) :=
    .register (hlive' ▸ hfree)
  have hone : Distinct q' := by
    rw [Distinct, hlive', hlive]
    exact List.pairwise_singleton _ h
  refine ⟨_, hrun.snoc hlast, fun hdistinct => ?_⟩
  have hspaced := ((Inv.run hrun).distinct_step_iff hone hlast).1 hdistinct
  refine hspaced h (by rw [hlive', hlive]; exact List.mem_cons_self) ?_
  rw [hmade', hmade, hserial]
  rfl

end SubServiceIds

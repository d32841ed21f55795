import PiFrame.CyclicNames
import PiFrame.TimerService

/-!
# Keys for queries and for timers

The driver hands out query keys with `vmq_getkey` and the timer library timer keys
with `getTimerKey`, each from its own counter of 32 bits.  A key of 0 means that
there is none, in an event as well as in a call of `PFU_timerDelete`.
-/

namespace KeyGenerators

open CyclicNames Transition

/-! ## Query keys -/

def uniqueKey : Nat := 0x08012015

/-- `vmq_getkey`: the key that the caller finds in its memory when `copy_to_user` leaves
nothing `uncopied`, and `-EFAULT` otherwise. -/
def vmqGetkey (uniqueKey uncopied : Nat) : Option Nat × Nat :=
  let key := uniqueKey
  let uniqueKey := (uniqueKey + 1) % 2 ^ 32
  let uniqueKey := if uniqueKey = 0 then (uniqueKey + 1) % 2 ^ 32 else uniqueKey
  (if uncopied = 0 then some key else none, uniqueKey)

/-- A call, in whatever process. -/
def VmqStep (key : Nat) (answer : Option Nat) (key' : Nat) : Prop :=
  ∃ uncopied, vmqGetkey key uncopied = (answer, key')

/-! ## Timer keys -/

open Timer

/-- The step of a `PFU_timerAdd` that gives timer `t` its key. -/
def Registers (s s' : Timers) (t : TimerPtr) : Prop :=
  s.adding t = some .allocated ∧ s'.adding t = some .registered

/-- A step of the timer library with the key that it hands out. -/
inductive TimerStep : Timers → Option Nat → Timers → Prop
  | register {s s' : Timers} {e : ApiEvent} {t : TimerPtr} (step : Timer.Step s e s')
      (call : Registers s s' t) : TimerStep s (some (s'.timer t).key) s'
  | other {s s' : Timers} {e : ApiEvent} (step : Timer.Step s e s')
      (no_call : ∀ t, ¬ Registers s s' t) : TimerStep s none s'

/-- No call is answered with key 0, and no two calls with the same key that are fewer
than `2 ^ 32 - 1` calls apart. -/
structure Fresh (answers : List (Option Nat)) : Prop where
  nonzero : some 0 ∉ answers
  distinct : ∀ {i j key : Nat}, i < j → j - i < 2 ^ 32 - 1 →
    answers[i]? = some (some key) → answers[j]? ≠ some (some key)

/-! ## What the calls find -/

variable {s s' : Timers} {t : TimerPtr} {key key' : Nat} {answer : Option Nat}
  {answers : List (Option Nat)}

/-- Every call of `vmq_getkey` counts, up to the wrap at `2 ^ 32`. -/
theorem vmqStep_counter (h : VmqStep key answer key') : key' = next (2 ^ 32) key := by
  obtain ⟨uncopied, h⟩ := h
  cases h
  unfold next
  split
  · next hzero => rw [hzero]
                  rfl
  · rfl

/-- A call answers with the value before it counts. -/
theorem vmqStep_answer (h : VmqStep key answer key') : ∀ k ∈ answer, k = key := by
  obtain ⟨uncopied, h⟩ := h
  cases h
  simp only [Option.mem_def]
  split
  · simp
  · simp

/-- A step that neither allocates a timer nor gives one its key. -/
structure Keyless (s s' : Timers) : Prop where
  counter : s'.timerListKey = s.timerListKey
  adding : ∀ t, s'.adding t = some .registered → s.adding t = some .registered

/-- A step without a key is no call of the generator. -/
theorem Keyless.no_call (h : Keyless s s') : ∀ t, ¬ Registers s s' t := by
  rintro t ⟨hbefore, hafter⟩
  rw [h.adding t hafter] at hbefore
  cases hbefore

/-- A step that changes the calls in flight, but registers none, is without a key. -/
theorem keyless_of_update {call : Option AddCall} (hcounter : s'.timerListKey = s.timerListKey)
    (hadding : s'.adding = Function.update s.adding t call) (hcall : call ≠ some .registered) :
    Keyless s s' := by
  refine ⟨hcounter, fun u hu => ?_⟩
  rw [hadding] at hu
  by_cases hut : u = t
  · rw [hut, Function.update_self] at hu
    exact absurd hu hcall
  · rwa [Function.update_of_ne hut] at hu

theorem keyless_giveUp : Keyless s (s.giveUp t) := by
  unfold Timers.giveUp
  split <;> exact ⟨rfl, fun _ => id⟩

theorem keyless_timerDelete : Keyless s (s.timerDelete key) := by
  unfold Timers.timerDelete
  dsimp only
  split <;> exact ⟨rfl, fun _ => id⟩

theorem keyless_timerSetMsec {msec : Int} : Keyless s (s.timerSetMsec key msec) := by
  unfold Timers.timerSetMsec
  dsimp only
  split <;> exact ⟨rfl, fun _ => id⟩

/-- Only `getTimerKey` changes the counter, and only `PFU_timerAdd` calls it. -/
theorem step_cases {e : ApiEvent} (h : Timer.Step s e s') :
    Keyless s s' ∨ ∃ t, s.adding t = some .allocated ∧ s' = s.register t := by
  cases h with
  | register _ call => exact .inr ⟨_, call, rfl⟩
  | alloc => exact .inl (keyless_of_update rfl rfl (by decide))
  | add => exact .inl (keyless_of_update rfl rfl (by decide))
  | giveUp => exact .inl keyless_giveUp
  | delete => exact .inl keyless_timerDelete
  | setMsec => exact .inl keyless_timerSetMsec
  | thread | dispatch | start | skip | rearm | readd | free | called =>
      exact .inl ⟨rfl, fun _ => id⟩

theorem registers_register (h : s.adding t = some .allocated) : Registers s (s.register t) t :=
  ⟨h, Function.update_self ..⟩

/-- A timer that is given its key is the one that is registered. -/
theorem Registers.eq {u : TimerPtr} (h : Registers s (s.register t) u) : u = t := by
  by_contra hut
  have hafter : (s.register t).adding u = s.adding u := Function.update_of_ne hut ..
  rw [Registers, hafter] at h
  rw [h.1] at h
  cases h.2

/-! ## The generators count -/

/-- The generator of the queues is a counter that every call moves. -/
theorem vmq_counting : Counting VmqStep id (2 ^ 32) (fun _ => true) where
  called h _ := vmqStep_counter h
  other _ h := by cases h

/-- The generator of the timers is a counter that the registrations move. -/
theorem timer_counting :
    Counting TimerStep (fun s => s.timerListKey) (2 ^ 32) Option.isSome where
  called h hcall := by
    cases h with
    | other => cases hcall
    | register step call =>
        obtain hkeyless | ⟨t, _, rfl⟩ := step_cases step
        · exact absurd call (hkeyless.no_call _)
        · rfl
  other h hcall := by
    cases h with
    | register => cases hcall
    | other step no_call =>
        obtain hkeyless | ⟨t, hbefore, rfl⟩ := step_cases step
        · exact hkeyless.counter
        · exact absurd (registers_register hbefore) (no_call t)

theorem timerStep_answer (h : TimerStep s answer s') : ∀ k ∈ answer, k = s.timerListKey := by
  cases h with
  | other => simp
  | register step call =>
      obtain hkeyless | ⟨t, _, rfl⟩ := step_cases step
      · exact absurd call (hkeyless.no_call _)
      · rw [call.eq]
        rintro k ⟨⟩
        show (Function.update s.timer t _ t).key = _
        rw [Function.update_self]

/-- Every run of the timer library hands out some keys. -/
theorem timerStep_total {tr : List ApiEvent} (h : Run Timer.Step s tr s') :
    ∃ keys, Run TimerStep s keys s' := by
  induction h with
  | nil => exact ⟨[], .nil⟩
  | @snoc tr before after e _ last ih =>
      obtain ⟨keys, hkeys⟩ := ih
      by_cases hcall : ∃ t, Registers before after t
      · obtain ⟨t, ht⟩ := hcall
        exact ⟨_, hkeys.snoc (.register last ht)⟩
      · exact ⟨_, hkeys.snoc (.other last (not_exists.1 hcall))⟩

/-! ## Fresh keys -/

section Fresh

variable {σ : Type*} {step : σ → Option Nat → σ → Prop} {counter : σ → Nat}
  {call : Option Nat → Bool} {first last : σ} {tr : List (Option Nat)}

/-- A generator that starts off zero and whose answers are the values it finds. -/
theorem fresh_of_counting (h : Counting step counter (2 ^ 32) call)
    (hanswer : ∀ {s answer s'}, step s answer s' → ∀ k ∈ answer, k = counter s)
    (hrun : Run step first tr last) (hpos : 0 < counter first) (hlt : counter first < 2 ^ 32) :
    Fresh (tr.filter call) := by
  have hvalue : ∀ {i key : Nat}, (tr.filter call)[i]? = some (some key) →
      key = value (2 ^ 32) (counter first) i := by
    intro i key hi
    obtain ⟨before, after, hstep, hcounter⟩ := h.value_of_call hrun hi
    rw [← hcounter]
    exact hanswer hstep key rfl
  refine ⟨?_, ?_⟩
  · intro hzero
    obtain ⟨i, hi⟩ := List.mem_iff_getElem?.1 hzero
    exact value_ne_zero hpos hlt (hvalue hi).symm
  · intro i j key hij hwindow hi hj
    exact (cyclic_value hpos hlt).ne_of_window hij hwindow ((hvalue hi).symm.trans (hvalue hj))

end Fresh

/-- **Keys.**  Whoever calls, and whatever happens between the calls, no query key and no
timer key is 0, and a key comes back after `2 ^ 32 - 1` calls at the earliest. -/
theorem keys_fresh :
    (∀ {answers last}, Run VmqStep uniqueKey answers last → Fresh answers) ∧
      ∀ {keys last}, Run TimerStep timerInit keys last → Fresh (keys.filter Option.isSome) := by
  refine ⟨?_, ?_⟩
  · intro answers last hrun
    have h := fresh_of_counting vmq_counting vmqStep_answer hrun (by decide) (by decide)
    rwa [List.filter_true] at h
  · intro keys last hrun
    exact fresh_of_counting timer_counting timerStep_answer hrun (by decide) (by decide)

/-- Three query keys, the second of which does not reach its caller, and a timer key. -/
theorem keys_fresh_first :
    Fresh [some 0x08012015, none, some 0x08012017] ∧ Fresh [some 0x05092014] := by
  have hkeys : Run VmqStep uniqueKey [some 0x08012015, none, some 0x08012017] 0x08012018 :=
    ((Run.single ⟨0, rfl⟩).snoc ⟨4, rfl⟩).snoc ⟨0, rfl⟩
  have halloc : Timer.Step timerInit (.wheel .run)
      (timerInit.allocTimerItem 0 1000 none false) := .alloc (Finset.notMem_empty 0)
  have hregister : Timer.Step (timerInit.allocTimerItem 0 1000 none false) .run
      ((timerInit.allocTimerItem 0 1000 none false).register 0) := .register rfl rfl
  have htimers := (Run.single (TimerStep.other halloc (by simp [Registers, timerInit]))).snoc
    (TimerStep.register hregister (registers_register rfl))
  exact ⟨keys_fresh.1 hkeys, keys_fresh.2 htimers⟩

end KeyGenerators

import Mathlib.Algebra.Order.Ring.Nat
import Mathlib.Logic.Function.Basic
import PiFrame.EventHeader
import PiFrame.Transition

/-!
# Queries and their replies

`PFQueryWaitReplyWithPutBuffer` and `PFQueryReplyProcess` of one process.  A caller
registers an item with its key, publishes its request, sleeps in steps of a quarter
second and takes its item from the list again.  The threads that receive events look
at the list without the lock first; what they find there later decides which caller
gets the reply.

The sections under the lock are one step each, and so are the first look at the list
and the publication.  A caller may wake at any time: by a signal, at its time-out or
for no reason.
-/

namespace Query

open EventHeader Transition

/-- An event, with the bytes it starts with. -/
structure PFEvent where
  id : BitVec 32
  key : Nat
  bytes : List (BitVec 8)
  deriving DecidableEq

/-- What `malloc` and `memcpy` make of an event. -/
def PFEvent.copy (event : PFEvent) : List (BitVec 8) := event.bytes.take (pfePayloadSize event.id)

/-- Where a caller stands, with its `waitCount` and its `fgRun`. -/
inductive Pc
  | idle
  | allocated (waitCount : Nat)
  | listed (waitCount : Nat)
  | loop (waitCount : Nat) (fgRun : Bool)
  | asleep (waitCount : Nat)
  | leaving
  | removed
  | returned (ret : Int) (reply : Option (List (BitVec 8)))
  deriving DecidableEq

/-- The wait list with its items, the callers, and the threads that process an event.
The item of a call is known by the call. -/
structure State (Call Thread : Type*) where
  waitLRoot : List Call
  key : Call → Nat
  pReply : Call → Option (List (BitVec 8))
  pc : Call → Pc
  /-- The event of a thread that has found the list not empty and waits for the lock. -/
  pending : Thread → Option PFEvent

inductive Label (Call Thread : Type*)
  | call (c : Call) (key waitCount : Nat)
  | register (c : Call)
  | publish (c : Call)
  | sleep (c : Call)
  | wake (c : Call)
  | leave (c : Call)
  | remove (c : Call)
  | return (c : Call)
  /-- The event is no reply or has no key. -/
  | ignore (t : Thread) (event : PFEvent)
  /-- The list is empty when the thread looks at it without the lock. -/
  | dismiss (t : Thread) (event : PFEvent)
  | look (t : Thread) (event : PFEvent)
  | process (t : Thread) (event : PFEvent) (ret : Int)
  | wakeUpAll

variable {Call Thread : Type*}

/-- `--waitCount` of a `uint32_t`. -/
def countDown (waitCount : Nat) : Nat := (waitCount + 2 ^ 32 - 1) % 2 ^ 32

def State.goto [DecidableEq Call] (s : State Call Thread) (c : Call) (pc : Pc) : State Call Thread :=
  { s with pc := Function.update s.pc c pc }

@[simp] theorem State.goto_self [DecidableEq Call] (s : State Call Thread) (c : Call) (pc : Pc) :
    (s.goto c pc).pc c = pc :=
  Function.update_self ..

theorem State.goto_other [DecidableEq Call] (s : State Call Thread) {c d : Call} (h : d ≠ c)
    (pc : Pc) :
    (s.goto c pc).pc d = s.pc d :=
  Function.update_of_ne h ..

/-- The call is under way. -/
def Pc.Active : Pc → Prop
  | .idle | .returned _ _ => False
  | _ => True

/-- The section of `setReplyQueryItem` under the lock. -/
def setReplyQueryItem [DecidableEq Call] (s : State Call Thread) (event : PFEvent) :
    State Call Thread × Int :=
  match s.waitLRoot.find? fun c => s.key c == event.key with
  | some item => ({ s with pReply := Function.update s.pReply item (some event.copy) }, 1)
  | none => (s, 0)

inductive Step [DecidableEq Call] [DecidableEq Thread] :
    State Call Thread → Label Call Thread → State Call Thread → Prop
  /-- The keys of the calls under way differ and are not 0. -/
  | call {s : State Call Thread} (c : Call) (key waitCount : Nat) (hidle : s.pc c = .idle)
      (hkey : key ≠ 0) (hfresh : ∀ d, (s.pc d).Active → s.key d ≠ key) :
      Step s (.call c key waitCount)
        { s with
          key := Function.update s.key c key
          pReply := Function.update s.pReply c none
          pc := Function.update s.pc c (.allocated waitCount) }
  | register {s : State Call Thread} {c : Call} {waitCount : Nat} (hpc : s.pc c = .allocated waitCount) :
      Step s (.register c)
        { s with
          waitLRoot := s.waitLRoot ++ [c]
          pc := Function.update s.pc c (.listed waitCount) }
  | publish {s : State Call Thread} {c : Call} {waitCount : Nat} (hpc : s.pc c = .listed waitCount) :
      Step s (.publish c) (s.goto c (.loop waitCount true))
  | sleep {s : State Call Thread} {c : Call} {waitCount : Nat} (hpc : s.pc c = .loop waitCount true)
      (hcount : countDown waitCount ≠ 0) : Step s (.sleep c) (s.goto c (.asleep (countDown waitCount)))
  | wake {s : State Call Thread} {c : Call} {waitCount : Nat} (hpc : s.pc c = .asleep waitCount) :
      Step s (.wake c) (s.goto c (.loop waitCount (s.pReply c).isNone))
  | leave {s : State Call Thread} {c : Call} {waitCount : Nat} {fgRun : Bool}
      (hpc : s.pc c = .loop waitCount fgRun) (hstop : fgRun = false ∨ countDown waitCount = 0) :
      Step s (.leave c) (s.goto c .leaving)
  | remove {s : State Call Thread} {c : Call} (hpc : s.pc c = .leaving) :
      Step s (.remove c)
        { s with
          waitLRoot := s.waitLRoot.erase c
          pc := Function.update s.pc c .removed }
  | return {s : State Call Thread} {c : Call} (hpc : s.pc c = .removed) :
      Step s (.return c)
        (s.goto c (.returned (if (s.pReply c).isSome then 0 else -1) (s.pReply c)))
  | ignore {s : State Call Thread} {t : Thread} (event : PFEvent) (hfree : s.pending t = none)
      (hplain : ¬ (pfeIsReply event.id ∧ event.key ≠ 0)) : Step s (.ignore t event) s
  | dismiss {s : State Call Thread} {t : Thread} (event : PFEvent) (hfree : s.pending t = none)
      (hreply : pfeIsReply event.id ∧ event.key ≠ 0) (hempty : s.waitLRoot = []) :
      Step s (.dismiss t event) s
  | look {s : State Call Thread} {t : Thread} (event : PFEvent) (hfree : s.pending t = none)
      (hreply : pfeIsReply event.id ∧ event.key ≠ 0) (hsome : s.waitLRoot ≠ []) :
      Step s (.look t event) { s with pending := Function.update s.pending t (some event) }
  | process {s : State Call Thread} {t : Thread} {event : PFEvent} (hpending : s.pending t = some event) :
      Step s (.process t event (setReplyQueryItem s event).2)
        { (setReplyQueryItem s event).1 with pending := Function.update s.pending t none }
  | wakeUpAll {s : State Call Thread} : Step s .wakeUpAll s

def initial : State Call Thread where
  waitLRoot := []
  key := fun _ => 0
  pReply := fun _ => none
  pc := fun _ => .idle
  pending := fun _ => none

/-! ## What a call should return -/

/-- The replies with a key among the events whose processing is in the history. -/
def repliesTo (key : Nat) (tr : List (Label Call Thread)) : List PFEvent :=
  tr.filterMap fun
    | .process _ event _ | .dismiss _ event | .ignore _ event =>
        if pfeIsReply event.id ∧ event.key = key then some event else none
    | _ => none

/-- A copy of the last of the replies. -/
def answer (key : Nat) (tr : List (Label Call Thread)) : Option (List (BitVec 8)) :=
  (repliesTo key tr).getLast?.map PFEvent.copy

/-- `mid` is the history since the registration of the call, which is not removed yet. -/
def Open (c : Call) (tr mid : List (Label Call Thread)) : Prop :=
  ∃ front, tr = front ++ .register c :: mid ∧ .register c ∉ front ∧ .remove c ∉ mid

/-- `mid` is the history between the registration of the call and its removal. -/
def Closed (c : Call) (tr mid : List (Label Call Thread)) : Prop :=
  ∃ front back, tr = front ++ .register c :: (mid ++ .remove c :: back) ∧
    .register c ∉ front ∧ .remove c ∉ mid

/-- What the history says about a call, by where it stands. -/
def Stage (s : State Call Thread) (tr : List (Label Call Thread)) (c : Call) : Prop :=
  match s.pc c with
  | .idle | .allocated _ => .register c ∉ tr ∧ c ∉ s.waitLRoot ∧ s.pReply c = none
  | .removed => c ∉ s.waitLRoot ∧ ∃ mid, Closed c tr mid ∧ s.pReply c = answer (s.key c) mid
  | .returned ret reply =>
      c ∉ s.waitLRoot ∧ ∃ mid, Closed c tr mid ∧ reply = answer (s.key c) mid ∧
        ret = if reply.isSome then 0 else -1
  | _ => c ∈ s.waitLRoot ∧ ∃ mid, Open c tr mid ∧ s.pReply c = answer (s.key c) mid

structure Inv (tr : List (Label Call Thread)) (s : State Call Thread) : Prop where
  stage : ∀ c, Stage s tr c
  nodup : s.waitLRoot.Nodup
  keys : ∀ c d, (s.pc c).Active → (s.pc d).Active → s.key c = s.key d → c = d
  nonzero : ∀ c, (s.pc c).Active → s.key c ≠ 0
  pending : ∀ t event, s.pending t = some event → pfeIsReply event.id ∧ event.key ≠ 0

section Histories

variable {c d : Call} {key : Nat} {tr mid : List (Label Call Thread)} {l : Label Call Thread}

/-- The replies of two traces one behind the other. -/
theorem repliesTo_append (front back : List (Label Call Thread)) :
    repliesTo key (front ++ back) = repliesTo key front ++ repliesTo key back :=
  List.filterMap_append

/-- A label that is no reply with the key adds nothing. -/
theorem answer_quiet (h : repliesTo key [l] = []) : answer key (mid ++ [l]) = answer key mid := by
  rw [answer, repliesTo_append, h, List.append_nil, answer]

theorem answer_reply {event : PFEvent} (h : repliesTo key [l] = [event]) :
    answer key (mid ++ [l]) = some event.copy := by
  rw [answer, repliesTo_append, h]
  simp

/-- A window stays open until its call is removed. -/
theorem Open.snoc (h : Open c tr mid) (hl : l ≠ .remove c) : Open c (tr ++ [l]) (mid ++ [l]) := by
  obtain ⟨front, rfl, hfront, hmid⟩ := h
  refine ⟨front, by simp, hfront, ?_⟩
  rw [List.mem_append, List.mem_singleton, not_or]
  exact ⟨hmid, Ne.symm hl⟩

theorem Open.close (h : Open c tr mid) : Closed c (tr ++ [.remove c]) mid := by
  obtain ⟨front, rfl, hfront, hmid⟩ := h
  exact ⟨front, [], by simp, hfront, hmid⟩

theorem Closed.snoc (h : Closed c tr mid) (l : Label Call Thread) : Closed c (tr ++ [l]) mid := by
  obtain ⟨front, back, rfl, hfront, hmid⟩ := h
  exact ⟨front, back ++ [l], by simp, hfront, hmid⟩

end Histories

/-! ## What a step keeps -/

section Steps

variable {s s' : State Call Thread} {tr : List (Label Call Thread)} {c d : Call}
  {l : Label Call Thread}

/-- The item of the call is in the list. -/
def Pc.Listed : Pc → Prop
  | .listed _ | .loop _ _ | .asleep _ | .leaving => True
  | _ => False

theorem Pc.Listed.active {pc : Pc} (h : pc.Listed) : pc.Active := by
  cases pc <;> trivial

/-- For a call in the list, the stage says that its window is open and its reply the last one in
it. -/
theorem stage_listed (h : (s.pc c).Listed) :
    Stage s tr c ↔ c ∈ s.waitLRoot ∧ ∃ mid, Open c tr mid ∧ s.pReply c = answer (s.key c) mid := by
  unfold Stage
  cases hpc : s.pc c <;> simp_all [Pc.Listed]

/-- The step does not concern the call, and brings no reply to it. -/
structure Aside (s s' : State Call Thread) (l : Label Call Thread) (c : Call) : Prop where
  pc : s'.pc c = s.pc c
  list : c ∈ s'.waitLRoot ↔ c ∈ s.waitLRoot
  pReply : s'.pReply c = s.pReply c
  key : s'.key c = s.key c
  register : l ≠ .register c
  remove : l ≠ .remove c
  quiet : (s.pc c).Listed → repliesTo (s.key c) [l] = []

/-- A step that has nothing to do with the call leaves it at its stage. -/
theorem Stage.aside (h : Stage s tr c) (ha : Aside s s' l c) : Stage s' (tr ++ [l]) c := by
  have hearly : .register c ∉ tr ∧ c ∉ s.waitLRoot ∧ s.pReply c = none →
      .register c ∉ tr ++ [l] ∧ c ∉ s'.waitLRoot ∧ s'.pReply c = none := by
    rintro ⟨hfresh, hlist, hreply⟩
    refine ⟨?_, by rwa [ha.list], by rwa [ha.pReply]⟩
    rw [List.mem_append, List.mem_singleton, not_or]
    exact ⟨hfresh, Ne.symm ha.register⟩
  by_cases hlisted : (s.pc c).Listed
  · obtain ⟨hlist, mid, hopen, hreply⟩ := (stage_listed hlisted).mp h
    rw [stage_listed (by rwa [ha.pc])]
    refine ⟨ha.list.mpr hlist, mid ++ [l], hopen.snoc ha.remove, ?_⟩
    rw [ha.pReply, ha.key, answer_quiet (ha.quiet hlisted), hreply]
  · unfold Stage at h ⊢
    rw [ha.pc]
    cases hpc : s.pc c with
    | idle =>
        rw [hpc] at h
        exact hearly h
    | allocated waitCount =>
        rw [hpc] at h
        exact hearly h
    | removed =>
        rw [hpc] at h
        obtain ⟨hlist, mid, hclosed, hreply⟩ := h
        exact ⟨by rwa [ha.list], mid, hclosed.snoc l, by rw [ha.pReply, ha.key, hreply]⟩
    | returned ret reply =>
        rw [hpc] at h
        obtain ⟨hlist, mid, hclosed, hreply, hret⟩ := h
        exact ⟨by rwa [ha.list], mid, hclosed.snoc l, by rw [ha.key, hreply], hret⟩
    | listed waitCount => exact absurd (by rw [hpc]; trivial) hlisted
    | loop waitCount fgRun => exact absurd (by rw [hpc]; trivial) hlisted
    | asleep waitCount => exact absurd (by rw [hpc]; trivial) hlisted
    | leaving => exact absurd (by rw [hpc]; trivial) hlisted

/-- A call whose item is in the list stands between its registration and its removal. -/
theorem Inv.listed_of_mem (h : Inv tr s) (hmem : c ∈ s.waitLRoot) : (s.pc c).Listed := by
  have hstage := h.stage c
  unfold Stage at hstage
  cases hpc : s.pc c <;> rw [hpc] at hstage <;>
    first
    | trivial
    | exact absurd hmem hstage.1
    | exact absurd hmem hstage.2.1

/-- The item that `setReplyQueryItem` finds for a call in the list. -/
theorem Inv.find (h : Inv tr s) {event : PFEvent} (hmem : c ∈ s.waitLRoot)
    (hkey : s.key c = event.key) :
    s.waitLRoot.find? (fun c => s.key c == event.key) = some c := by
  have hsome : (s.waitLRoot.find? fun c => s.key c == event.key).isSome := by
    rw [List.find?_isSome]
    exact ⟨c, hmem, by simp [hkey]⟩
  obtain ⟨d, hd⟩ := Option.isSome_iff_exists.mp hsome
  have hdkey : s.key d = event.key := by simpa using List.find?_some hd
  have hdmem := List.mem_of_find?_eq_some hd
  rw [hd, h.keys c d (h.listed_of_mem hmem).active (h.listed_of_mem hdmem).active
    (hkey.trans hdkey.symm)]

/-- A step that brings no reply to any call in the list. -/
theorem Inv.unseen (h : Inv tr s) {pending : Thread → Option PFEvent}
    (hregister : ∀ d, l ≠ .register d) (hremove : ∀ d, l ≠ .remove d)
    (hquiet : ∀ d, (s.pc d).Listed → repliesTo (s.key d) [l] = [])
    (hpending : ∀ t event, pending t = some event → pfeIsReply event.id ∧ event.key ≠ 0) :
    Inv (tr ++ [l]) { s with pending := pending } :=
  ⟨fun d => (h.stage d).aside ⟨rfl, Iff.rfl, rfl, rfl, hregister d, hremove d, hquiet d⟩,
    h.nodup, h.keys, h.nonzero, hpending⟩

variable [DecidableEq Call]

/-- Who is active after a change of one call was active before, if that call
was. -/
theorem active_of_update {pcs : Call → Pc} {pc : Pc} (hfrom : pc.Active → (pcs c).Active) {d : Call}
    (hd : (Function.update pcs c pc d).Active) : (pcs d).Active := by
  by_cases hdc : d = c
  · rw [hdc, Function.update_self] at hd
    rw [hdc]
    exact hfrom hd
  · rwa [Function.update_of_ne hdc] at hd

/-- A step of a call within the list: neither is an item added or removed, nor is there a reply. -/
theorem Inv.goto (h : Inv tr s) {pc : Pc} (hfrom : (s.pc c).Listed) (hto : pc.Listed)
    (hregister : ∀ d, l ≠ .register d) (hremove : ∀ d, l ≠ .remove d)
    (hquiet : ∀ key, repliesTo key [l] = []) : Inv (tr ++ [l]) (s.goto c pc) := by
  have hactive : ∀ d, ((s.goto c pc).pc d).Active → (s.pc d).Active :=
    fun _ => active_of_update fun _ => hfrom.active
  refine ⟨fun d => ?_, h.nodup, fun d e hd he => h.keys d e (hactive d hd) (hactive e he),
    fun d hd => h.nonzero d (hactive d hd), h.pending⟩
  by_cases hdc : d = c
  · subst hdc
    obtain ⟨hlist, mid, hopen, hreply⟩ := (stage_listed hfrom).mp (h.stage d)
    rw [stage_listed (by rw [s.goto_self]; exact hto)]
    refine ⟨hlist, mid ++ [l], hopen.snoc (hremove d), ?_⟩
    rw [answer_quiet (hquiet _)]
    exact hreply
  · exact (h.stage d).aside ⟨s.goto_other hdc _, Iff.rfl, rfl, rfl, hregister d, hremove d,
      fun _ => hquiet _⟩

/-- The start of a call: its item is made, and is in nobody's list yet. -/
theorem Inv.call (h : Inv tr s) {key waitCount : Nat} (hidle : s.pc c = .idle) (hkey : key ≠ 0)
    (hfresh : ∀ d, (s.pc d).Active → s.key d ≠ key) :
    Inv (tr ++ [.call c key waitCount])
      { s with
        key := Function.update s.key c key
        pReply := Function.update s.pReply c none
        pc := Function.update s.pc c (.allocated waitCount) } := by
  have hkeyOf : ∀ d, d ≠ c → Function.update s.key c key d = s.key d := fun d hd =>
    Function.update_of_ne hd ..
  have hpcOf : ∀ d, d ≠ c → Function.update s.pc c (.allocated waitCount) d = s.pc d := fun d hd =>
    Function.update_of_ne hd ..
  refine ⟨fun d => ?_, h.nodup, fun d e hd he heq => ?_, fun d hd => ?_, h.pending⟩
  · by_cases hdc : d = c
    · subst hdc
      have hstage := h.stage d
      unfold Stage at hstage ⊢
      rw [hidle] at hstage
      obtain ⟨hregister, hlist, -⟩ := hstage
      simp only [Function.update_self]
      exact ⟨by simpa using hregister, hlist, trivial⟩
    · exact (h.stage d).aside ⟨hpcOf d hdc, Iff.rfl, Function.update_of_ne hdc .., hkeyOf d hdc,
        by simp, by simp, fun _ => rfl⟩
  · dsimp only at hd he heq
    by_cases hdc : d = c <;> by_cases hec : e = c
    · rw [hdc, hec]
    · rw [hdc, Function.update_self, hkeyOf e hec] at heq
      rw [hpcOf e hec] at he
      exact absurd heq.symm (hfresh e he)
    · rw [hec, Function.update_self, hkeyOf d hdc] at heq
      rw [hpcOf d hdc] at hd
      exact absurd heq (hfresh d hd)
    · rw [hkeyOf d hdc, hkeyOf e hec] at heq
      rw [hpcOf d hdc] at hd
      rw [hpcOf e hec] at he
      exact h.keys d e hd he heq
  · by_cases hdc : d = c
    · subst hdc
      simpa using hkey
    · dsimp only at hd ⊢
      rw [hpcOf d hdc] at hd
      rw [hkeyOf d hdc]
      exact h.nonzero d hd

/-- The item is put into the list; from here on replies with its key reach it, and its window is
open. -/
theorem Inv.register (h : Inv tr s) {waitCount : Nat} (hpc : s.pc c = .allocated waitCount) :
    Inv (tr ++ [.register c])
      { s with
        waitLRoot := s.waitLRoot ++ [c]
        pc := Function.update s.pc c (.listed waitCount) } := by
  have hstage := h.stage c
  unfold Stage at hstage
  rw [hpc] at hstage
  obtain ⟨hfresh, hlist, hreply⟩ := hstage
  have hactive : ∀ d, (Function.update s.pc c (.listed waitCount) d).Active → (s.pc d).Active :=
    fun _ => active_of_update fun _ => hpc ▸ trivial
  refine ⟨fun d => ?_, ?_, fun d e hd he => h.keys d e (hactive d hd) (hactive e he),
    fun d hd => h.nonzero d (hactive d hd), h.pending⟩
  · by_cases hdc : d = c
    · subst hdc
      rw [stage_listed (by dsimp only; rw [Function.update_self]; trivial)]
      refine ⟨by simp, [], ⟨tr, rfl, hfresh, by simp⟩, ?_⟩
      rw [hreply]
      rfl
    · exact (h.stage d).aside ⟨Function.update_of_ne hdc .., by simp [hdc], rfl, rfl,
        by simpa using Ne.symm hdc, by simp, fun _ => rfl⟩
  · rw [List.nodup_append]
    refine ⟨h.nodup, by simp, ?_⟩
    rintro a ha b hb rfl
    exact hlist (List.mem_singleton.mp hb ▸ ha)

/-- The item is taken from the list. -/
theorem Inv.remove (h : Inv tr s) (hpc : s.pc c = .leaving) :
    Inv (tr ++ [.remove c])
      { s with
        waitLRoot := s.waitLRoot.erase c
        pc := Function.update s.pc c .removed } := by
  have hlisted : (s.pc c).Listed := by rw [hpc]; trivial
  obtain ⟨hlist, mid, hopen, hreply⟩ := (stage_listed hlisted).mp (h.stage c)
  have hactive : ∀ d, (Function.update s.pc c .removed d).Active → (s.pc d).Active :=
    fun _ => active_of_update fun _ => hlisted.active
  refine ⟨fun d => ?_, h.nodup.erase c, fun d e hd he => h.keys d e (hactive d hd) (hactive e he),
    fun d hd => h.nonzero d (hactive d hd), h.pending⟩
  by_cases hdc : d = c
  · subst hdc
    unfold Stage
    simp only [Function.update_self]
    exact ⟨h.nodup.not_mem_erase, mid, hopen.close, hreply⟩
  · exact (h.stage d).aside ⟨Function.update_of_ne hdc .., List.mem_erase_of_ne hdc, rfl, rfl,
      by simp, by simpa using Ne.symm hdc, fun _ => rfl⟩

/-- The end of a call: it returns 0 if there is a reply to be handed over, and -1 otherwise. -/
theorem Inv.return (h : Inv tr s) (hpc : s.pc c = .removed) :
    Inv (tr ++ [.return c])
      (s.goto c (.returned (if (s.pReply c).isSome then 0 else -1) (s.pReply c))) := by
  have hactive : ∀ d, ((s.goto c (.returned (if (s.pReply c).isSome then 0 else -1)
      (s.pReply c))).pc d).Active → (s.pc d).Active := by
    intro d hd
    refine active_of_update ?_ hd
    exact False.elim
  refine ⟨fun d => ?_, h.nodup, fun d e hd he => h.keys d e (hactive d hd) (hactive e he),
    fun d hd => h.nonzero d (hactive d hd), h.pending⟩
  by_cases hdc : d = c
  · subst hdc
    have hstage := h.stage d
    unfold Stage at hstage ⊢
    rw [hpc] at hstage
    obtain ⟨hlist, mid, hclosed, hreply⟩ := hstage
    rw [s.goto_self]
    exact ⟨hlist, mid, hclosed.snoc _, hreply, rfl⟩
  · exact (h.stage d).aside ⟨s.goto_other hdc _, Iff.rfl, rfl, rfl, by simp, by simp, fun _ => rfl⟩

/-- **The reply.**  Under the lock the event goes to the call in the list with its key, if
there is one, and to no other. -/
theorem Inv.process (h : Inv tr s) {t : Thread} {event : PFEvent} {ret : Int}
    {pending : Thread → Option PFEvent} (hreply : pfeIsReply event.id)
    (hpending : ∀ t event, pending t = some event → pfeIsReply event.id ∧ event.key ≠ 0) :
    Inv (tr ++ [.process t event ret])
      { (setReplyQueryItem s event).1 with pending := pending } := by
  have hother : ∀ key, event.key ≠ key →
      repliesTo key [(Label.process t event ret : Label Call Thread)] = [] := fun key hkey => by
    simp [repliesTo, hkey]
  have hown : repliesTo event.key [(Label.process t event ret : Label Call Thread)] = [event] := by
    simp [repliesTo, hreply]
  cases hfind : s.waitLRoot.find? fun c => s.key c == event.key with
  | none =>
      have hsame : (setReplyQueryItem s event).1 = s := by rw [setReplyQueryItem, hfind]
      rw [hsame]
      refine h.unseen (by simp) (by simp) (fun d hd => hother _ fun hmatch => ?_) hpending
      have hmem := ((stage_listed hd).mp (h.stage d)).1
      rw [h.find hmem hmatch.symm] at hfind
      contradiction
  | some c =>
      have hset : (setReplyQueryItem s event).1
          = { s with pReply := Function.update s.pReply c (some event.copy) } := by
        rw [setReplyQueryItem, hfind]
      have hkey : s.key c = event.key := by simpa using List.find?_some hfind
      have hmem := List.mem_of_find?_eq_some hfind
      have hlisted := h.listed_of_mem hmem
      rw [hset]
      refine ⟨fun d => ?_, h.nodup, h.keys, h.nonzero, hpending⟩
      by_cases hdc : d = c
      · subst hdc
        obtain ⟨-, mid, hopen, -⟩ := (stage_listed hlisted).mp (h.stage d)
        refine (stage_listed (by exact hlisted)).mpr
          ⟨hmem, mid ++ [.process t event ret], hopen.snoc (by simp), ?_⟩
        dsimp only
        rw [Function.update_self, hkey, answer_reply hown]
      · refine (h.stage d).aside ⟨rfl, Iff.rfl, Function.update_of_ne hdc .., rfl, by simp, by simp,
          fun hd => hother _ fun hmatch => ?_⟩
        exact hdc (h.keys d c hd.active hlisted.active (hmatch.symm.trans hkey.symm))

variable [DecidableEq Thread]

/-- **Step rule.**  Every call is at its stage, and what it returns is the answer of its window. -/
theorem Inv.step (h : Inv tr s) (hstep : Step s l s') : Inv (tr ++ [l]) s' := by
  cases hstep with
  | call c key waitCount hidle hkey hfresh => exact h.call hidle hkey hfresh
  | register hpc => exact h.register hpc
  | publish hpc =>
      exact h.goto (by rw [hpc]; trivial) trivial (by simp) (by simp) (fun _ => rfl)
  | sleep hpc hcount =>
      exact h.goto (by rw [hpc]; trivial) trivial (by simp) (by simp) (fun _ => rfl)
  | wake hpc =>
      exact h.goto (by rw [hpc]; trivial) trivial (by simp) (by simp) (fun _ => rfl)
  | leave hpc hstop =>
      exact h.goto (by rw [hpc]; trivial) trivial (by simp) (by simp) (fun _ => rfl)
  | remove hpc => exact h.remove hpc
  | «return» hpc => exact h.return hpc
  | ignore event hfree hplain =>
      refine h.unseen (by simp) (by simp) (fun d hd => ?_) h.pending
      have hmiss : ¬ (pfeIsReply event.id ∧ event.key = s.key d) := fun hmatch =>
        hplain ⟨hmatch.1, hmatch.2 ▸ h.nonzero d hd.active⟩
      simp only [repliesTo, hmiss, List.filterMap_cons, List.filterMap_nil, if_false]
  | dismiss event hfree hreply hempty =>
      refine h.unseen (by simp) (by simp) (fun d hd => ?_) h.pending
      have hmem := ((stage_listed hd).mp (h.stage d)).1
      rw [hempty] at hmem
      exact absurd hmem List.not_mem_nil
  | @look t event hfree hreply hsome =>
      refine h.unseen (by simp) (by simp) (fun _ _ => rfl) fun u event' hu => ?_
      by_cases hut : u = t
      · rw [hut, Function.update_self] at hu
        obtain rfl := Option.some.inj hu
        exact hreply
      · rw [Function.update_of_ne hut] at hu
        exact h.pending u event' hu
  | @process t event hpending =>
      refine h.process (h.pending t event hpending).1 fun u event' hu => ?_
      by_cases hut : u = t
      · rw [hut, Function.update_self] at hu
        contradiction
      · rw [Function.update_of_ne hut] at hu
        exact h.pending u event' hu
  | wakeUpAll => exact h.unseen (by simp) (by simp) (fun _ _ => rfl) h.pending

/-- **Run rule.** -/
theorem Inv.run (hrun : Run Step initial tr s) : Inv tr s := by
  refine hrun.history Inv ?_ fun _ _ _ _ _ hinv hstep => hinv.step hstep
  exact ⟨fun c => ⟨by simp, by simp [initial], rfl⟩, List.nodup_nil, nofun, nofun, nofun⟩

end Steps

/-! ## One query -/

end Query

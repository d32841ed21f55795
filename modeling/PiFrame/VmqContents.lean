import PiFrame.VmqGetbuf
import PiFrame.VmqNeighbours

/-!
# What is in the messages

The driver hands out blocks of the shared memory and never looks into them.  A
program writes its message through its mapping between `VMQ_GETBUF` and
`VMQ_PUTBUF`, into the block it was given, and reads one between `VMQ_GETITEM`
and `VMQ_PUTITEM`.  `Shared` puts the bytes beside the driver, and the labels of
a history record what the memory held at each call.

`Carried` follows one consumer: the texts of the messages it has obtained and
of those that it has queued, as they are now, are the texts that were published.
A store changes none of them, since the block of a producer is its own.
-/

namespace Vmq

open BuddyAllocator Transition

/-- The bytes of a message. -/
def Message.text (msg : Message) (bytes : Nat → UInt8) : List UInt8 :=
  (List.range msg.size).map fun i => bytes (msg.offset + i)

/-- The driver and the memory that it shares out. -/
structure Shared where
  driver : Driver
  bytes : Nat → UInt8

/-- What can be seen: a step of the driver with the memory as it is, and the
programs at the other end of the mapping. -/
inductive Access
  | call (e : Filp × Event) (bytes : Nat → UInt8)
  | store (h : Filp) (i : Nat) (value : UInt8)
  | load (h : Filp) (text : List UInt8)

/-- The steps of the driver and of the programs. -/
inductive SharedStep : Shared → Access → Shared → Prop
  | call {s t : Driver} {bytes : Nat → UInt8} {e : Filp × Event} (step : Step s e t) :
      SharedStep ⟨s, bytes⟩ (.call e bytes) ⟨t, bytes⟩
  /-- A producer writes a byte of its message. -/
  | store {s : Driver} {bytes : Nat → UInt8} {h : Filp} {b : Addr} {i : Nat} {value : UInt8}
      (at_file : s.files h = .idle (some (.producer (some b)))) (inside : i ∈ s.block b) :
      SharedStep ⟨s, bytes⟩ (.store h i value) ⟨s, Function.update bytes i value⟩
  /-- A consumer reads its message. -/
  | load {s : Driver} {bytes : Nat → UInt8} {h : Filp} {items : List Addr} {b : Addr}
      (at_file : s.files h = .idle (some (.consumer items (some b)))) :
      SharedStep ⟨s, bytes⟩ (.load h ((s.message b).text bytes)) ⟨s, bytes⟩

/-! ## What a history tells -/

/-- The steps of the driver. -/
def calls (tr : List Access) : List (Filp × Event) :=
  tr.filterMap fun
    | .call e _ => some e
    | _ => none

/-- The text that a label publishes. -/
def Access.publishedText : Access → Option (List UInt8)
  | .call e bytes => e.2.publishedMsg.map fun msg => msg.text bytes
  | _ => none

/-- The text that `c` obtains by a label. -/
def Access.gotText (c : Filp) : Access → Option (List UInt8)
  | .call e bytes => if e.1 = c then e.2.gotMsg.map fun msg => msg.text bytes else none
  | _ => none

/-- What was written into the messages when they were published. -/
def publishedTexts (tr : List Access) : List (List UInt8) :=
  tr.filterMap Access.publishedText

/-- What was in the messages that `c` has dequeued, at that moment. -/
def gotTexts (c : Filp) (tr : List Access) : List (List UInt8) :=
  tr.filterMap (Access.gotText c)

/-- The item that a consumer has taken and may hand to its program. -/
def File.held : File → Option Addr
  | .idle (some (.consumer _ item)) => item
  | .consuming _ (.copyOut b) => some b
  | _ => none

/-- The text of buffer `b` as it is now. -/
def Shared.text (x : Shared) (b : Addr) : List UInt8 :=
  (x.driver.message b).text x.bytes

/-- What `c` has queued or is about to be sent. -/
def Shared.awaited (x : Shared) (c : Filp) : List Addr :=
  x.driver.queue c ++ x.driver.pending c

variable {size pageSize : Nat} {lost : List (Nat × Nat)} {s t : Driver} {h c k : Filp} {b d : Addr}
  {tr : List Access} {x y : Shared} {bytes : Nat → UInt8} {e : Filp × Event}

theorem calls_append (tr tr' : List Access) : calls (tr ++ tr') = calls tr ++ calls tr' :=
  List.filterMap_append

/-- One more access adds at most one text to what is published. -/
theorem publishedTexts_append (a : Access) :
    publishedTexts (tr ++ [a]) = publishedTexts tr ++ a.publishedText.toList := by
  unfold publishedTexts
  cases htext : a.publishedText <;> simp [htext]

/-- One more access adds at most one text to what the consumer has got. -/
theorem gotTexts_append (a : Access) :
    gotTexts c (tr ++ [a]) = gotTexts c tr ++ (a.gotText c).toList := by
  unfold gotTexts
  cases htext : a.gotText c <;> simp [htext]

/-- Without the memory the run is one of the driver. -/
theorem run_calls (hrun : Run SharedStep x tr y) : Run Step x.driver (calls tr) y.driver := by
  induction hrun with
  | nil => exact Run.nil
  | snoc _ last ih =>
      rw [calls_append]
      cases last with
      | call step => exact ih.snoc step
      | store at_file inside =>
          rw [show calls [_] = [] from rfl, List.append_nil]
          exact ih
      | load at_file =>
          rw [show calls [_] = [] from rfl, List.append_nil]
          exact ih

/-! ## Texts that nobody changes -/

/-- A store outside the block of a message. -/
theorem text_update {msg : Message} {i : Nat} {value : UInt8}
    (hout : i ∉ Set.Ico msg.offset (msg.offset + msg.size)) :
    msg.text (Function.update bytes i value) = msg.text bytes := by
  refine List.map_congr_left fun j hj => Function.update_of_ne ?_ ..
  have hlt := List.mem_range.mp hj
  intro heq
  exact hout ⟨by omega, by omega⟩

/-- A consumer's items are in its hand, and it is in the list. -/
theorem Inv.hand_of_item (hinv : Inv size pageSize lost s.account) (hb : b ∈ (s.files c).items) :
    b ∈ (s.account.shares c).hand ∧ c ∈ s.mgr.consumers := by
  have hhand : b ∈ (s.account.shares c).hand := by
    show b ∈ (s.files c).share.hand
    rw [share_hand]
    exact hb
  exact ⟨hhand, hinv.mem_of_hand hhand⟩

/-- An item of an open file is a buffer that has not been freed. -/
theorem Inv.live_of_item (hinv : Inv size pageSize lost s.account) (hb : b ∈ (s.files c).items) :
    b ∈ s.live := by
  obtain ⟨hhand, hmem⟩ := hinv.hand_of_item hb
  exact hinv.live_of_hand hmem hhand

/-- A producer that is writing owns its buffer, and no fan-out has started. -/
theorem owned_of_writing (hfile : s.files h = .idle (some (.producer (some d)))) :
    (s.account.shares h).owned = some d ∧ (s.account.shares h).fan = none := by
  rw [shares_of_file hfile]
  exact ⟨rfl, rfl⟩

/-- What waits in the queue of a file is among its items. -/
theorem mem_items_of_queue {f : File} (hb : b ∈ f.queue) : b ∈ f.items := by
  unfold File.queue at hb
  unfold File.items
  split at hb <;> simp_all

/-- What a consumer has taken out is among its items too. -/
theorem held_mem_items {f : File} (hf : f.held = some b) : b ∈ f.items := by
  unfold File.held at hf
  unfold File.items
  split at hf <;> simp_all [ConsumerCall.item]

/-- A producer that is writing has its block for itself. -/
theorem Inv.block_apart (hinv : Inv size pageSize lost s.account)
    (hfile : s.files h = .idle (some (.producer (some d)))) (hb : b ∈ s.live) (hne : b ≠ d) :
    Disjoint (s.block b) (s.block d) := by
  have hdlive := hinv.live_of_owned (owned_of_writing hfile).1
  have hlease : s.account.lease (.inl d) =
      some ((s.mem d).offset / s.mgr.pageSize, (s.mem d).size) := if_pos hdlive
  have hapart := hinv.disjoint hb hlease (fun heq => hne (Sum.inl_injective heq))
  have hoffset : (s.mem d).offset / s.mgr.pageSize * pageSize = (s.mem d).offset := by
    rw [show s.mgr.pageSize = pageSize from hinv.geometry.2.1]
    exact Nat.div_mul_cancel (hinv.paged d hdlive)
  simp only [hoffset] at hapart
  exact hapart

/-- An item of a consumer does not belong to a producer that is writing. -/
theorem Inv.item_ne (hinv : Inv size pageSize lost s.account)
    (hfile : s.files h = .idle (some (.producer (some d)))) (hb : b ∈ (s.files c).items) :
    b ≠ d := by
  obtain ⟨hown, hnofan⟩ := owned_of_writing hfile
  obtain ⟨hhand, hmem⟩ := hinv.hand_of_item hb
  rintro rfl
  exact hinv.apart h b hown hnofan (Account.mem_refs.mpr ⟨c, hmem, hhand⟩)

/-- A buffer that is on its way to a consumer does not belong to a producer who could write into
it. -/
theorem Inv.awaited_ne (hinv : Inv size pageSize lost s.account)
    (hfile : s.files h = .idle (some (.producer (some d))))
    (hb : b ∈ s.queue c ++ s.pending c) : b ≠ d := by
  obtain ⟨hown, hnofan⟩ := owned_of_writing hfile
  rcases List.mem_append.mp hb with hq | hp
  · exact hinv.item_ne hfile (mem_items_of_queue hq)
  · rintro rfl
    unfold Driver.pending Driver.fanOut at hp
    cases hlock : s.mgr.mutex with
    | none => simp [hlock] at hp
    | some k =>
        cases hfan : (s.files k).share.fan with
        | none => simp [hlock, hfan] at hp
        | some f =>
            obtain ⟨d, rest, n⟩ := f
            simp only [hlock, Option.bind_some, hfan, Option.map_some] at hp
            split at hp
            · obtain rfl := List.mem_singleton.mp hp
              have hkh := hinv.owner k h _ (hinv.fan k _ rest n hfan).1 hown
              rw [hkh] at hfan
              exact Option.some_ne_none _ (hfan.symm.trans hnofan)
            · cases hp

/-! ## Labels and items -/

/-- Waking a producer takes no item from a consumer. -/
@[simp] theorem held_wakeProducer (f : File) : f.wakeProducer.held = f.held := by
  unfold File.wakeProducer
  split <;> rfl

@[simp] theorem held_wakeConsumer (f : File) : f.wakeConsumer.held = f.held := by
  unfold File.wakeConsumer
  split <;> rfl

/-- A new item goes into the queue, behind the item that is held. -/
@[simp] theorem held_enqueue (f : File) : (f.enqueue d).held = f.held := by
  unfold File.enqueue
  split
  · rfl
  · rename_i items call
    cases call <;> rfl
  · rfl
  · rfl

/-- Whatever the others do, a consumer holds what it held. -/
theorem File.Touch.held {f g : File} (htouch : f.Touch g) : g.held = f.held := by
  cases htouch <;> simp

/-- What is obtained is the message as it is in the queue. -/
theorem Step.got {msg : Message} (hstep : Step s (h, .got msg) t) :
    msg = s.message msg.buffer ∧ msg.buffer ∈ (s.files h).items ∧
      t.mgr.consumers = s.mgr.consumers := by
  cases hstep with
  | @take h b items at_file =>
      refine ⟨rfl, ?_, rfl⟩
      rcases at_file with hfile | hfile <;> rw [hfile] <;> exact List.mem_cons_self

/-- What is published is the buffer of the producer, with the text of that moment. -/
theorem Step.published {msg : Message} (hstep : Step s (h, .published msg) t) :
    msg = s.message msg.buffer ∧ s.files h = .producing (.publish msg.buffer) := by
  cases hstep with
  | publish at_file unlocked => exact ⟨rfl, at_file⟩

/-- A call that has just been entered holds nothing. -/
theorem held_entered {ctxt : Option VMQContext} {call : Ioctl} {f : File}
    (hcall : vmqIoctl s ctxt call = some (.ok f)) : f.held = none := by
  obtain ⟨type, -, rfl⟩ | ⟨n, -, rfl, -⟩ | ⟨b, -, rfl⟩ | ⟨items, -, rfl⟩ | ⟨items, b, -, rfl⟩ :=
    vmqIoctl_entered hcall <;> rfl

/-- An item in the hands of a consumer has just been obtained, or was there before and nothing
was obtained in this step. -/
theorem Step.held (hstep : Step s e t) (hb : (t.files c).held = some b) :
    e = (c, .got (s.message b)) ∨
      (s.files c).held = some b ∧ (if e.1 = c then e.2.gotMsg else none) = none := by
  by_cases hc : c = e.1
  · subst hc
    cases hstep with
    | ioctlOops at_file outcome => exact .inr ⟨hb, if_pos rfl⟩
    | ioctlRefused at_file outcome => exact .inr ⟨hb, if_pos rfl⟩
    | ioctlEntered at_file outcome =>
        rw [files_put_self, held_entered outcome] at hb
        cases hb
    | roused =>
        rw [files_put_self] at hb
        simp only [held_wakeConsumer, held_wakeProducer] at hb
        exact .inr ⟨hb, if_pos rfl⟩
    | @register h type at_file unlocked =>
        rw [files_put_self] at hb
        cases type <;> cases hb
    | take at_file =>
        rw [files_put_self] at hb
        cases hb
        exact .inl rfl
    | itemCopied at_file =>
        rw [files_put_self] at hb
        rw [at_file]
        exact .inr ⟨hb, if_pos rfl⟩
    | @release h ctxt at_file =>
        rw [files_put_self] at hb
        cases hb
    | releaseConsumer at_file unlocked =>
        rw [releaseConsumer_eq, files_put_self] at hb
        cases hb
    | @releaseProducer h buffer at_file unlocked =>
        have hfile : (s.releaseProducer h buffer).files h = .dropping := Function.update_self ..
        rw [hfile] at hb
        cases hb
    | _ =>
        rw [files_put_self] at hb
        cases hb
  · right
    rw [← (hstep.touch hc).held]
    exact ⟨hb, if_neg fun heq => hc heq.symm⟩

/-- Nothing else than a registration makes a consumer of a task that is settled. -/
theorem Delivered.consumers {cs : List (Filp × Event)} (hd : Delivered c cs s) (hstep : Step s e t)
    (hc : c ∈ t.mgr.consumers) : c ∈ s.mgr.consumers := by
  refine (hstep.consumers hc).resolve_right ?_
  rintro rfl
  have hsettled := hd.settled
  cases hstep with
  | register at_file unlocked =>
      rw [at_file] at hsettled
      cases hsettled

/-- What is awaited after a step follows from the logs alone. -/
theorem Delivered.awaited {cs : List (Filp × Event)} (hd : Delivered c cs s)
    (hd' : Delivered c (cs ++ [e]) t) (hs : c ∈ s.mgr.consumers) (ht : c ∈ t.mgr.consumers) :
    (if e.1 = c then e.2.gotMsg else none).toList.map Message.buffer ++
        (t.queue c ++ t.pending c) =
      (s.queue c ++ s.pending c) ++ e.2.publishedMsg.toList.map Message.buffer := by
  have hbuffers : ∀ (u : Driver) (l : List Addr), (l.map u.message).map Message.buffer = l := by
    intro u l
    rw [List.map_map]
    exact List.map_id l
  have hafter := hd'.log ht
  rw [obtainedBy_append, published_append, ← hd.log hs, List.append_assoc, List.append_assoc] at hafter
  have hlist := congrArg (List.map Message.buffer) (List.append_cancel_left hafter)
  rw [List.map_append, hbuffers, List.map_append, hbuffers] at hlist
  exact hlist

/-! ## Following one consumer -/

/-- The texts that `c` has obtained, and those that it has queued as they are
now, are those that were published. -/
structure Carried (c : Filp) (tr : List Access) (x : Shared) : Prop where
  delivered : Delivered c (calls tr) x.driver
  obtained : gotTexts c tr <+: publishedTexts tr
  texts : c ∈ x.driver.mgr.consumers →
    gotTexts c tr ++ (x.awaited c).map x.text = publishedTexts tr
  held : ∀ b, (x.driver.files c).held = some b → (gotTexts c tr).getLast? = some (x.text b)

/-- Of a call, the consumer gets the text of the message that the call hands out. -/
theorem gotText_call : ((Access.call e bytes).gotText c).toList =
    (if e.1 = c then e.2.gotMsg else none).toList.map fun msg => msg.text bytes := by
  simp only [Access.gotText]
  split
  · exact Option.toList_map
  · rfl

/-- Of a call, the text that is published is that of its message. -/
theorem publishedText_call : (Access.call e bytes).publishedText.toList =
    e.2.publishedMsg.toList.map fun msg => msg.text bytes :=
  Option.toList_map

/-- The texts of messages that are what they say. -/
theorem texts_of_buffers (bytes : Nat → UInt8) {msgs : List Message}
    (hmsgs : ∀ msg ∈ msgs, msg = s.message msg.buffer) :
    (msgs.map fun msg => msg.text bytes) =
      (msgs.map Message.buffer).map (Shared.text ⟨s, bytes⟩) := by
  rw [List.map_map]
  exact List.map_congr_left fun msg hmsg => congrArg (Message.text · bytes) (hmsgs msg hmsg)

/-- What a step lets `c` obtain is the message as it was queued, and `c` stays. -/
theorem Step.got_of_mem (hstep : Step s e t) {msg : Message}
    (hmsg : msg ∈ (if e.1 = c then e.2.gotMsg else none).toList) :
    msg = s.message msg.buffer ∧ msg.buffer ∈ (s.files c).items ∧
      t.mgr.consumers = s.mgr.consumers := by
  obtain ⟨h, ev⟩ := e
  by_cases hh : h = c
  · subst hh
    cases ev <;> simp [Event.gotMsg] at hmsg
    subst hmsg
    exact hstep.got
  · simp [hh] at hmsg

/-- `Step.published` where the message is read off the label. -/
theorem Step.published_of_mem (hstep : Step s e t) {msg : Message}
    (hmsg : msg ∈ e.2.publishedMsg.toList) :
    msg = s.message msg.buffer ∧ s.files e.1 = .producing (.publish msg.buffer) := by
  obtain ⟨h, ev⟩ := e
  cases ev <;> simp [Event.publishedMsg] at hmsg
  subst hmsg
  exact hstep.published

/-- A step of the driver carries the texts on: it reads them at the moment of the call, and
writes none. -/
theorem Carried.call (hx : Carried c tr ⟨s, bytes⟩) (hinv : Inv size pageSize lost s.account)
    (hstep : Step s e t) (hslab : e.2 ≠ .ret (some .enomem) ∧ e.2 ≠ .noItem) :
    Carried c (tr ++ [.call e bytes]) ⟨t, bytes⟩ := by
  have hdelivered : Delivered c (calls tr ++ [e]) t := hx.delivered.step hinv hstep hslab
  have htexts : c ∈ t.mgr.consumers → gotTexts c (tr ++ [.call e bytes]) ++
      (Shared.awaited ⟨t, bytes⟩ c).map (Shared.text ⟨t, bytes⟩) =
        publishedTexts (tr ++ [.call e bytes]) := by
    intro ht
    have hs := hx.delivered.consumers hstep ht
    have hlist := hx.delivered.awaited hdelivered hs ht
    have hgot := texts_of_buffers bytes fun msg hmsg => (hstep.got_of_mem (c := c) hmsg).1
    have hpub := texts_of_buffers bytes fun msg hmsg => (hstep.published_of_mem hmsg).1
    have hlive : ∀ d ∈ Shared.awaited ⟨t, bytes⟩ c, d ∈ s.live := by
      intro d hd
      have hd := List.mem_append_right
        ((if e.1 = c then e.2.gotMsg else none).toList.map Message.buffer) hd
      rw [Shared.awaited, hlist, List.mem_append, List.mem_map] at hd
      rcases hd with hd | ⟨msg, hmsg, rfl⟩
      · exact hinv.live_of_queue hs hd
      · have hown : (s.account.shares e.1).owned = some msg.buffer :=
          (share_owned _).trans (congrArg File.buffer (hstep.published_of_mem hmsg).2)
        exact hinv.live_of_owned hown
    have hsame : (Shared.awaited ⟨t, bytes⟩ c).map (Shared.text ⟨t, bytes⟩) =
        (Shared.awaited ⟨t, bytes⟩ c).map (Shared.text ⟨s, bytes⟩) :=
      List.map_congr_left fun d hd => congrArg (Message.text · bytes) (step_message hstep (hlive d hd))
    rw [hsame, gotTexts_append, publishedTexts_append, gotText_call, publishedText_call, hgot, hpub,
      ← hx.texts hs, List.append_assoc, List.append_assoc, ← List.map_append, ← List.map_append]
    exact congrArg (gotTexts c tr ++ List.map (Shared.text ⟨s, bytes⟩) ·) hlist
  refine ⟨by rw [calls_append]; exact hdelivered, ?_, htexts, fun b hb => ?_⟩
  · cases hnone : (if e.1 = c then e.2.gotMsg else none) with
    | none =>
        rw [gotTexts_append, publishedTexts_append, gotText_call, hnone]
        exact (List.append_nil (gotTexts c tr)).symm ▸ hx.obtained.trans (List.prefix_append _ _)
    | some msg =>
        have hmsg : msg ∈ (if e.1 = c then e.2.gotMsg else none).toList := by
          rw [hnone]
          exact List.mem_singleton.mpr rfl
        obtain ⟨-, hitem, hkeep⟩ := hstep.got_of_mem hmsg
        exact ⟨_, htexts (hkeep ▸ (hinv.hand_of_item hitem).2)⟩
  · rcases hstep.held hb with heq | ⟨hold, hnone⟩
    · have hmsg : s.message b ∈ (if e.1 = c then e.2.gotMsg else none).toList := by
        rw [heq]
        simp [Event.gotMsg]
      have hlive := hinv.live_of_item (hstep.got_of_mem hmsg).2.1
      rw [gotTexts_append, gotText_call, heq]
      simp only [if_true, Event.gotMsg, Option.toList_some, List.map_cons, List.map_nil,
        List.getLast?_concat]
      exact congrArg (fun msg => some (Message.text msg bytes)) (step_message hstep hlive).symm
    · have hlive := hinv.live_of_item (held_mem_items hold)
      rw [gotTexts_append, gotText_call, hnone, Option.toList_none, List.map_nil, List.append_nil,
        hx.held b hold]
      exact congrArg (fun msg => some (Message.text msg bytes)) (step_message hstep hlive).symm

/-- What the programs do changes no text that `c` waits for or holds. -/
theorem Carried.aside (hx : Carried c tr ⟨s, bytes⟩) {a : Access} {bytes' : Nat → UInt8}
    (hcalls : calls [a] = []) (hgot : a.gotText c = none) (hpub : a.publishedText = none)
    (hawaited : c ∈ s.mgr.consumers → ∀ b ∈ Shared.awaited ⟨s, bytes⟩ c,
      (s.message b).text bytes' = (s.message b).text bytes)
    (hheld : ∀ b, (s.files c).held = some b →
      (s.message b).text bytes' = (s.message b).text bytes) :
    Carried c (tr ++ [a]) ⟨s, bytes'⟩ := by
  have hgots : gotTexts c (tr ++ [a]) = gotTexts c tr := by
    rw [gotTexts_append, hgot, Option.toList_none, List.append_nil]
  have hpubs : publishedTexts (tr ++ [a]) = publishedTexts tr := by
    rw [publishedTexts_append, hpub, Option.toList_none, List.append_nil]
  refine ⟨?_, ?_, fun hc => ?_, fun b hb => ?_⟩
  · rw [calls_append, hcalls, List.append_nil]
    exact hx.delivered
  · rw [hgots, hpubs]
    exact hx.obtained
  · rw [hgots, hpubs, ← hx.texts hc]
    exact congrArg _ (List.map_congr_left (hawaited hc))
  · rw [hgots, hx.held b hb]
    exact congrArg some (hheld b hb).symm

/-- A producer that writes into its own buffer changes no text that others wait for. -/
theorem Carried.store (hx : Carried c tr ⟨s, bytes⟩) (hinv : Inv size pageSize lost s.account)
    {i : Nat} {value : UInt8} (hfile : s.files h = .idle (some (.producer (some d))))
    (hinside : i ∈ s.block d) :
    Carried c (tr ++ [.store h i value]) ⟨s, Function.update bytes i value⟩ := by
  have hsame : ∀ b ∈ s.live, b ≠ d →
      (s.message b).text (Function.update bytes i value) = (s.message b).text bytes := by
    intro b hb hne
    have hapart := hinv.block_apart hfile hb hne
    exact text_update fun hi => Set.disjoint_left.mp hapart hi hinside
  refine hx.aside rfl rfl rfl (fun hc b hb => ?_) fun b hb => ?_
  · exact hsame b (hinv.live_of_queue hc hb) (hinv.awaited_ne hfile hb)
  · have hitem := held_mem_items hb
    exact hsame b (hinv.live_of_item hitem) (hinv.item_ne hfile hitem)

/-- Every access keeps what was published and what was got together, and so does every call. -/
theorem Carried.step (hx : Carried c tr x) (hinv : Inv size pageSize lost x.driver.account)
    {a : Access} (hstep : SharedStep x a y)
    (hslab : ∀ e ∈ calls [a], e.2 ≠ .ret (some .enomem) ∧ e.2 ≠ .noItem) :
    Carried c (tr ++ [a]) y := by
  cases hstep with
  | call step => exact hx.call hinv step (hslab _ (List.mem_singleton.mpr rfl))
  | store at_file inside => exact hx.store hinv at_file inside
  | load at_file => exact hx.aside rfl rfl rfl (fun _ _ _ => rfl) fun _ _ => rfl

/-! ## Runs -/

/-- A run of the driver while nobody writes. -/
theorem run_shared {cs : List (Filp × Event)} (hrun : Run Step s cs t) :
    Run SharedStep ⟨s, bytes⟩ (cs.map (Access.call · bytes)) ⟨t, bytes⟩ := by
  induction hrun with
  | nil => exact Run.nil
  | snoc _ last ih =>
      rw [List.map_append]
      exact ih.snoc (.call last)

/-- `c` is registered at the end of `pre`, and `post` is its history.  The invariant starts
there, with an empty queue and nothing published. -/
theorem Carried.run {m : Memory} {maxItemCount : Int} {mem : Addr → VMQBuffer} {s₀ : Driver}
    {bytes₀ : Nat → UInt8} {pre post : List Access}
    (hsize : size < 2 ^ 31) (hpage : 0 < pageSize) (hpage' : pageSize < 2 ^ 31)
    (hdvd : 128 ∣ pageSize) (hpast : (m (size / pageSize)).allocated = true)
    (hcreate : createBufferManager m size pageSize maxItemCount mem = some s₀)
    (hrun : Run SharedStep ⟨s₀, bytes₀⟩ (pre ++ .call (c, .joined .consumer) bytes :: post) x)
    (hslab : ∀ e ∈ calls (pre ++ .call (c, .joined .consumer) bytes :: post),
      e.2 ≠ .ret (some .enomem) ∧ e.2 ≠ .noItem) : Carried c post x := by
  have hall : pre ++ .call (c, .joined .consumer) bytes :: post =
      (pre ++ [.call (c, .joined .consumer) bytes]) ++ post := by simp
  rw [hall] at hrun hslab
  obtain ⟨v, hjoined, hpost⟩ := hrun.split
  have hok := hslab
  rw [calls_append] at hok
  have hdriver := run_calls hjoined
  have hv : Inv size pageSize [] v.driver.account :=
    Inv.run hsize hpage hpage' hdvd hpast hcreate hdriver fun e he =>
      (hok e (List.mem_append_left _ he)).1
  have hdelivered : Delivered c [] v.driver := by
    rw [calls_append] at hdriver
    refine Delivered.run hsize hpage hpage' hdvd hpast hcreate hdriver fun e he => ?_
    exact hok e (List.mem_append_left _ (by rw [calls_append]; exact he))
  have hstart : Carried c [] v := by
    refine ⟨hdelivered, List.prefix_rfl, fun hc => ?_, fun b hb => ?_⟩
    · have hnone := List.map_eq_nil_iff.mp (hdelivered.log hc)
      rw [Shared.awaited, hnone]
      rfl
    · obtain ⟨u, -, hlast⟩ := hjoined.snoc_inv
      cases hlast with
      | call step =>
          rcases step.held hb with heq | ⟨hold, -⟩
          · cases heq
          · cases step with
            | register at_file unlocked =>
                rw [at_file] at hold
                cases hold
  have hboth := hpost.history
    (fun tr x => (∀ e ∈ calls tr, e.2 ≠ .ret (some .enomem) ∧ e.2 ≠ .noItem) →
      Inv size pageSize [] x.driver.account ∧ Carried c tr x) (fun _ => ⟨hv, hstart⟩) ?_
  · exact (hboth fun e he => hok e (List.mem_append_right _ he)).2
  · intro tr x a y _ ih hstep hlabels
    rw [calls_append] at hlabels
    obtain ⟨hinv, hx⟩ := ih fun e he => hlabels e (List.mem_append_left _ he)
    have hlast := fun e he => hlabels e (List.mem_append_right _ he)
    refine ⟨?_, hx.step hinv hstep hlast⟩
    cases hstep with
    | call step => exact hinv.step step (hlast _ (List.mem_singleton.mpr rfl)).1
    | store at_file inside => exact hinv
    | load at_file => exact hinv

/-- **Contents of messages.**  In every run in which the slab caches do not run
dry and producers write only into the blocks they were given: the texts that a
consumer has obtained are the first of those that were published since its
registration, byte for byte; those that it has queued are the others; and
whenever its program reads the message it holds, it reads the text that was
obtained last. -/
theorem vmq_contents {m : Memory} {maxItemCount : Int} {mem : Addr → VMQBuffer} {s₀ : Driver}
    {bytes₀ : Nat → UInt8}
    (hsize : size < 2 ^ 31) (hpage : 0 < pageSize) (hpage' : pageSize < 2 ^ 31)
    (hdvd : 128 ∣ pageSize) (hpast : (m (size / pageSize)).allocated = true)
    (hcreate : createBufferManager m size pageSize maxItemCount mem = some s₀)
    (hrun : Run SharedStep ⟨s₀, bytes₀⟩ tr x)
    (hslab : ∀ e ∈ calls tr, e.2 ≠ .ret (some .enomem) ∧ e.2 ≠ .noItem) (c : Filp)
    {pre post : List Access} (htr : tr = pre ++ .call (c, .joined .consumer) bytes :: post) :
    gotTexts c post <+: publishedTexts post ∧
    (c ∈ x.driver.mgr.consumers →
      gotTexts c post ++ (x.awaited c).map x.text = publishedTexts post) ∧
    ∀ post₁ text post₂, post = post₁ ++ .load c text :: post₂ →
      (gotTexts c post₁).getLast? = some text := by
  subst htr
  have hx := Carried.run hsize hpage hpage' hdvd hpast hcreate hrun hslab
  refine ⟨hx.obtained, hx.texts, fun post₁ text post₂ hpost => ?_⟩
  subst hpost
  have hcut : pre ++ .call (c, .joined .consumer) bytes :: (post₁ ++ .load c text :: post₂) =
      (pre ++ .call (c, .joined .consumer) bytes :: post₁) ++ .load c text :: post₂ := by simp
  rw [hcut] at hrun hslab
  obtain ⟨y, hbefore, hafter⟩ := hrun.split
  have hy : Carried c post₁ y := by
    refine Carried.run hsize hpage hpage' hdvd hpast hcreate hbefore fun e he => ?_
    rw [calls_append] at hslab
    exact hslab e (List.mem_append_left _ he)
  obtain ⟨z, hload, -⟩ := hafter.cons_inv
  cases hload with
  | load at_file => exact hy.held _ (congrArg File.held at_file)

/-- A message of 100 bytes, of which the producer writes the first, reaches the one
consumer. -/
theorem vmq_contents_one_message : ∃ s₀ x tr pre post,
    createBufferManager (fun _ => ⟨true, 0⟩) 1000 128 4 (fun _ => ⟨0, 0, 0⟩) = some s₀ ∧
    Run SharedStep ⟨s₀, fun _ => 0⟩ tr x ∧
    tr = pre ++ .call (1, .joined .consumer) (fun _ => 0) :: post ∧
    gotTexts 1 post <+: publishedTexts post ∧
    publishedTexts post = [104 :: List.replicate 99 0] := by
  have hrun := @run_shared _ _ (fun _ => 0) _
    (@setUp_run (sevenPages 4) 0 (.setup (.ok 0)) .producer rfl rfl rfl)
  have hrun := hrun.append (@run_shared _ _ _ _
    (@setUp_run _ 1 (.setup (.ok 1)) .consumer rfl rfl rfl))
  have hrun := hrun.append (@run_shared _ _ _ _ (@getBuffer_run _ 0 (.getbuf (some 100)) 100 6 _ 5
    rfl rfl rfl (alloc_sevenPages 4) rfl (Finset.notMem_empty 5)))
  -- the producer writes, publishes, and the consumer takes the message
  have hrun := hrun.snoc (@SharedStep.store _ _ 0 5 768 104 rfl ⟨le_refl 768, show 768 < 868 by decide⟩)
  have hrun := hrun.append (@run_shared _ _ _ _
    (@putBuffer_run _ 0 1 (.putbuf (some 768)) 5 rfl rfl rfl rfl))
  have hrun := hrun.snoc
    (.call (@Step.ioctlEntered _ 1 (some (.consumer [5] none)) .getitem _ rfl rfl))
  have hrun := hrun.snoc (.call (@Step.take _ 1 5 [] (.inl rfl)))
  let blank : Nat → UInt8 := fun _ => 0
  let written : Nat → UInt8 := Function.update blank 768 104
  let pre : List Access := [.call (0, .run) blank, .call (0, .run) blank,
    .call (0, .joined .producer) blank, .call (1, .run) blank, .call (1, .run) blank]
  let post : List Access := [.call (0, .run) blank, .call (0, .run) blank, .call (0, .run) blank,
    .call (0, .run) blank, .call (0, .ret none) blank, .store 0 768 104, .call (0, .run) written,
    .call (0, .published ⟨5, 768, 100⟩) written, .call (0, .run) written,
    .call (0, .ret none) written, .call (1, .run) written, .call (1, .got ⟨5, 768, 100⟩) written]
  have hrun : Run SharedStep ⟨sevenPages 4, blank⟩
      (pre ++ .call (1, .joined .consumer) blank :: post) _ := hrun
  obtain ⟨hgot, -⟩ := vmq_contents (by decide) (by decide) (by decide) (by decide) rfl
    (create_sevenPages 4) hrun (by decide) 1 rfl
  exact ⟨_, _, _, pre, post, create_sevenPages 4, hrun, rfl, hgot, by decide⟩

end Vmq

import PiFrame.VmqReferences

/-!
# Broadcast delivery

A history of the driver is the list of its labels.  The publish log is read
off the labels in which `put_buffer_item` takes the mutex, and what a consumer
has obtained off those in which `get_first_queue_item` takes an item from its
queue.  A message is recorded with its block, as it was at that moment.

`Delivered` follows one consumer from the step that registered it: what it has
obtained, then its queue, then the message of a fan-out that has not reached
it yet, is the log since that step.  The last part is empty whenever
`mgr->mutex` is free.
-/

namespace Vmq

open BuddyAllocator Transition ReferenceLedger

/-! ## What a history tells -/

def Event.publishedMsg : Event → Option Message
  | .published msg => some msg
  | _ => none

def Event.gotMsg : Event → Option Message
  | .got msg => some msg
  | _ => none

/-- The publish log. -/
def published (tr : List (Filp × Event)) : List Message :=
  tr.filterMap fun e => e.2.publishedMsg

/-- The messages that `c` has dequeued. -/
def obtainedBy (c : Filp) (tr : List (Filp × Event)) : List Message :=
  tr.filterMap fun e => if e.1 = c then e.2.gotMsg else none

/-- `con->items`. -/
def File.queue : File → List Addr
  | .idle (some (.consumer items _)) => items
  | .consuming items _ => items
  | .releasing (.consumer items _) => items
  | _ => []

/-- A consumer, or a file whose context is gone: it will not set up again. -/
def File.settled : File → Bool
  | .idle (some (.consumer _ _)) => true
  | .consuming _ _ => true
  | .releasing (.consumer _ _) => true
  | .drained _ => true
  | .dropping => true
  | .closed => true
  | _ => false

namespace Driver

def queue (s : Driver) (c : Filp) : List Addr :=
  (s.files c).queue

/-- The fan-out under way: its buffer and the consumers it has not reached. -/
def fanOut (s : Driver) : Option (Addr × List Filp) :=
  (s.mgr.mutex.bind fun h => (s.files h).share.fan).map fun f => (f.1, f.2.1)

/-- The buffer that a fan-out under way has yet to deliver to `c`. -/
def pending (s : Driver) (c : Filp) : List Addr :=
  match s.fanOut with
  | some (b, rest) => if c ∈ rest then [b] else []
  | none => []

/-- The bytes of the block of buffer `b`. -/
def block (s : Driver) (b : Addr) : Set Nat :=
  Set.Ico (s.mem b).offset ((s.mem b).offset + (s.mem b).size)

/-- The bytes handed to a producer: the block it has just got from the
allocator, or that of its buffer until `put_buffer_item` fans it out. -/
def handed (s : Driver) (h : Filp) : Option (Set Nat) :=
  match s.files h with
  | .producing (.newItem size page) =>
      some (Set.Ico (page * s.mgr.pageSize) (page * s.mgr.pageSize + size))
  | .producing (.fanOut _ _ _) => none
  | f => f.buffer.map s.block

/-- What `c` has obtained, has queued or is about to be sent, in this order,
when `post` is its history. -/
def received (s : Driver) (c : Filp) (post : List (Filp × Event)) : List Message :=
  obtainedBy c post ++ (s.queue c ++ s.pending c).map s.message

end Driver

variable {size pageSize : Nat} {lost : List (Nat × Nat)} {s t : Driver} {h c : Filp} {b : Addr}
  {tr : List (Filp × Event)}

/-- One more step adds at most one message to what is published. -/
@[simp] theorem published_append (e : Filp × Event) :
    published (tr ++ [e]) = published tr ++ e.2.publishedMsg.toList := by
  unfold published
  cases hmsg : e.2.publishedMsg <;> simp [hmsg]

/-- One more step adds at most one message to what the consumer has. -/
@[simp] theorem obtainedBy_append (e : Filp × Event) :
    obtainedBy c (tr ++ [e]) =
      obtainedBy c tr ++ (if e.1 = c then e.2.gotMsg else none).toList := by
  unfold obtainedBy
  cases hmsg : (if e.1 = c then e.2.gotMsg else none) <;> simp [hmsg]

/-! ## What leaves messages and queues alone -/

/-- A message does not say how often its buffer is referred to. -/
theorem message_setRefcnt (n : Int) (d : Addr) : (s.setRefcnt b n).message d = s.message d := by
  unfold Driver.setRefcnt Driver.message
  by_cases hd : d = b
  · subst hd
    simp
  · simp [hd]

/-- A message does not say whether the buffer is still there. -/
theorem message_removeBufferItem (d : Addr) : (s.removeBufferItem b).message d = s.message d := by
  unfold Driver.removeBufferItem
  split <;> rfl

theorem message_unrefBuffer (d : Addr) : (s.unrefBuffer b).1.message d = s.message d := by
  by_cases hlast : (s.mem b).refcnt = 1
  · rw [unrefBuffer_last hlast, message_removeBufferItem, message_setRefcnt]
  · rw [unrefBuffer_more hlast, message_setRefcnt]

/-- Giving up all references of a queue changes no message. -/
theorem message_unrefAll (items : List Addr) (d : Addr) :
    (s.unrefAll items).1.message d = s.message d := by
  induction items generalizing s with
  | nil => rfl
  | cons b items ih =>
      simp only [Driver.unrefAll]
      rw [ih, message_unrefBuffer]

@[simp] theorem queue_wakeProducer (f : File) : f.wakeProducer.queue = f.queue := by
  unfold File.wakeProducer
  split <;> rfl

@[simp] theorem queue_wakeConsumer (f : File) : f.wakeConsumer.queue = f.queue := by
  unfold File.wakeConsumer
  split <;> rfl

/-- A file that is settled stays so when producers are woken. -/
@[simp] theorem settled_wakeProducer (f : File) : f.wakeProducer.settled = f.settled := by
  unfold File.wakeProducer
  split <;> rfl

/-- A file that is settled stays so when consumers are woken. -/
@[simp] theorem settled_wakeConsumer (f : File) : f.wakeConsumer.settled = f.settled := by
  unfold File.wakeConsumer
  split <;> rfl

/-- An item goes to the end of the queue of a consumer. -/
theorem queue_enqueue {f : File} (hf : f.share.consumer = true) :
    (f.enqueue b).queue = f.queue ++ [b] := by
  rcases consumer_cases hf with ⟨items, item, rfl⟩ | ⟨items, call, rfl⟩ | ⟨items, item, rfl⟩ <;> rfl

/-- A delivery settles nothing and unsettles nothing. -/
@[simp] theorem settled_enqueue (f : File) : (f.enqueue b).settled = f.settled := by
  unfold File.enqueue
  split <;> rfl

/-! ## Following one consumer -/

/-- What `c` got, what it has queued and what is on its way is the log. -/
structure Delivered (c : Filp) (tr : List (Filp × Event)) (s : Driver) : Prop where
  settled : (s.files c).settled = true
  log : c ∈ s.mgr.consumers →
    obtainedBy c tr ++ (s.queue c ++ s.pending c).map s.message = published tr

/-- A queued buffer, and one that is being fanned out, is live. -/
theorem Inv.live_of_queue (hinv : Inv size pageSize lost s.account) (hc : c ∈ s.mgr.consumers)
    (hb : b ∈ s.queue c ++ s.pending c) : b ∈ s.live := by
  rcases List.mem_append.mp hb with hq | hp
  · have hhand : b ∈ (s.files c).share.hand := by
      rw [share_hand]
      unfold Driver.queue File.queue at hq
      unfold File.items
      split at hq <;> simp_all
    exact hinv.live_of_hand hc hhand
  · unfold Driver.pending Driver.fanOut at hp
    cases hlock : s.mgr.mutex with
    | none => simp [hlock] at hp
    | some h =>
        cases hfan : (s.files h).share.fan with
        | none => simp [hlock, hfan] at hp
        | some f =>
            obtain ⟨d, rest, n⟩ := f
            simp only [hlock, Option.bind_some, hfan, Option.map_some] at hp
            split at hp
            · rw [List.mem_singleton.mp hp]
              exact hinv.live_of_owned (hinv.fan h d rest n hfan).1
            · cases hp

/-- A step that publishes nothing and by which `c` obtains nothing, and which
leaves alone what concerns `c`. -/
theorem Delivered.frame (hd : Delivered c tr s) (hinv : Inv size pageSize lost s.account)
    {e : Filp × Event} (hpub : e.2.publishedMsg = none) (hgot : e.2.gotMsg = none ∨ e.1 ≠ c)
    (hsettled : (s.files c).settled = true → (t.files c).settled = true)
    (hcon : c ∈ t.mgr.consumers → c ∈ s.mgr.consumers) (hqueue : t.queue c = s.queue c)
    (hpending : t.pending c = s.pending c) (hmsg : ∀ d ∈ s.live, t.message d = s.message d) :
    Delivered c (tr ++ [e]) t := by
  refine ⟨hsettled hd.settled, fun hc => ?_⟩
  have hsame : (s.queue c ++ s.pending c).map t.message =
      (s.queue c ++ s.pending c).map s.message :=
    List.map_congr_left fun d hd => hmsg d (hinv.live_of_queue (hcon hc) hd)
  have hnone : (if e.1 = c then e.2.gotMsg else none) = none := by
    rcases hgot with hgot | hne
    · rw [hgot, ite_self]
    · rw [if_neg hne]
  rw [hqueue, hpending, hsame, obtainedBy_append, published_append, hpub, hnone]
  simpa using hd.log (hcon hc)

/-- What `Delivered` depends on is the same in `s'` as in `s`. -/
structure Kept (c : Filp) (s s' : Driver) : Prop where
  files : ∀ k, (s'.files k).queue = (s.files k).queue ∧
    (s'.files k).settled = (s.files k).settled ∧ (s'.files k).share.fan = (s.files k).share.fan
  mutex : s'.mgr.mutex = s.mgr.mutex
  consumers : c ∈ s'.mgr.consumers → c ∈ s.mgr.consumers
  message : ∀ d ∈ s.live, s'.message d = s.message d

theorem Kept.refl : Kept c s s :=
  ⟨fun _ => ⟨rfl, rfl, rfl⟩, rfl, id, fun _ _ => rfl⟩

/-- A change of the manager or of descriptors that leaves files and messages alone. -/
theorem Kept.of_files {s' : Driver} (hfiles : s'.files = s.files)
    (hmutex : s'.mgr.mutex = s.mgr.mutex) (hcon : s'.mgr.consumers = s.mgr.consumers)
    (hmsg : ∀ d ∈ s.live, s'.message d = s.message d) : Kept c s s' :=
  ⟨fun k => by rw [hfiles]; exact ⟨rfl, rfl, rfl⟩, hmutex, fun hc => hcon ▸ hc, hmsg⟩

theorem Kept.mgr {m : VMQBufferManager} (hmutex : m.mutex = s.mgr.mutex)
    (hcon : m.consumers = s.mgr.consumers) : Kept c s { s with mgr := m } :=
  .of_files rfl hmutex hcon fun _ _ => rfl

/-- Waking producers after such a change is such a change. -/
theorem Kept.wakeProducers {s' : Driver} (hk : Kept c s s') : Kept c s s'.wakeProducers := by
  refine ⟨fun k => ?_, hk.mutex, hk.consumers, hk.message⟩
  simp only [Driver.wakeProducers, queue_wakeProducer, settled_wakeProducer, share_wakeProducer]
  exact hk.files k

theorem Kept.wakeConsumers : Kept c s s.wakeConsumers := by
  refine ⟨fun k => ?_, rfl, id, fun _ _ => rfl⟩
  simp only [Driver.wakeConsumers, queue_wakeConsumer, settled_wakeConsumer, share_wakeConsumer]
  exact ⟨trivial, trivial, trivial⟩

/-- Giving up a reference is one, the wake-up behind it included. -/
theorem Kept.putQueueItem : Kept c s (s.putQueueItem b) := by
  obtain ⟨hfiles, hmutex, hcon⟩ := unrefBuffer_frame (s := s) (b := b)
  have hunref : Kept c s (s.unrefBuffer b).1 :=
    Kept.of_files hfiles hmutex hcon fun d _ => message_unrefBuffer d
  unfold Driver.putQueueItem
  simp only
  split
  · exact hunref.wakeProducers
  · exact hunref

/-- Freeing a buffer is one: its text stays as long as nobody writes there. -/
theorem Kept.removeBufferItem : Kept c s (s.removeBufferItem b) := by
  obtain ⟨hfiles, hmutex, hcon⟩ := removeBufferItem_frame (s := s) (b := b)
  exact Kept.of_files hfiles hmutex hcon fun d _ => message_removeBufferItem d

/-- Another task goes on, and the rest is kept: the queue of `c`, what is on its way to it, and
the two logs. -/
theorem Delivered.other (hd : Delivered c tr s) (hinv : Inv size pageSize lost s.account)
    {s' : Driver} (hkept : Kept c s s') {e : Filp × Event} {f g : File} (hfile : s.files h = f)
    (hpub : e.2.publishedMsg = none) (hgot : e.2.gotMsg = none ∨ e.1 ≠ c)
    (hfan : g.share.fan = f.share.fan)
    (hself : h = c → (f.settled = true → g.settled = true) ∧ g.queue = f.queue) :
    Delivered c (tr ++ [e]) (s'.put h g) := by
  subst hfile
  have hfans : ∀ k, ((s'.put h g).files k).share.fan = (s.files k).share.fan := by
    intro k
    by_cases hk : k = h
    · subst hk
      simp only [Driver.put, Function.update_self]
      exact hfan
    · simp only [Driver.put, Function.update_of_ne hk]
      exact (hkept.files k).2.2
  have hpending : (s'.put h g).pending c = s.pending c := by
    have hmutex : (s'.put h g).mgr.mutex = s.mgr.mutex := hkept.mutex
    unfold Driver.pending Driver.fanOut
    simp only [hmutex, hfans]
  refine hd.frame hinv hpub hgot ?_ hkept.consumers ?_ hpending hkept.message
  · by_cases hc : c = h
    · subst hc
      simp only [Driver.put, Function.update_self]
      exact (hself rfl).1
    · simp only [Driver.put, Function.update_of_ne hc]
      exact (hkept.files c).2.1.trans
  · unfold Driver.queue
    by_cases hc : c = h
    · subst hc
      simp only [Driver.put, Function.update_self]
      exact (hself rfl).2
    · simp only [Driver.put, Function.update_of_ne hc]
      exact (hkept.files c).1

/-- A task goes on without touching a queue, and the rest is kept. -/
theorem Delivered.put (hd : Delivered c tr s) (hinv : Inv size pageSize lost s.account)
    {s' : Driver}
    (hkept : Kept c s s') {e : Filp × Event} {f g : File} (hfile : s.files h = f)
    (hpub : e.2.publishedMsg = none) (hgot : e.2.gotMsg = none ∨ e.1 ≠ c)
    (hsettled : f.settled = true → g.settled = true) (hqueue : g.queue = f.queue)
    (hfan : g.share.fan = f.share.fan) : Delivered c (tr ++ [e]) (s'.put h g) :=
  hd.other hinv hkept hfile hpub hgot hfan fun _ => ⟨hsettled, hqueue⟩

/-- While the mutex is free nothing is on its way. -/
theorem pending_of_unlocked (hfree : s.mgr.mutex = none) : s.pending c = [] := by
  unfold Driver.pending Driver.fanOut
  rw [hfree]
  rfl

/-- During a fan-out a consumer waits for the buffer if the loop has not come to it yet. -/
theorem pending_of_fan {rest : List Filp} {n : Nat} (hlock : s.mgr.mutex = some h)
    (hfile : s.files h = .producing (.fanOut b rest n)) :
    s.pending c = if c ∈ rest then [b] else [] := by
  unfold Driver.pending Driver.fanOut
  rw [hlock, Option.bind_some, hfile]
  rfl

/-- The file with a fan-out is not the consumer that is followed. -/
theorem Delivered.ne_of_file (hd : Delivered c tr s) {f : File} (hfile : s.files h = f)
    (hf : f.settled = false) : c ≠ h := by
  intro heq
  have hsettled := hd.settled
  rw [heq, hfile, hf] at hsettled
  cases hsettled

/-- `put_buffer_item` enters its section: the message is in the log and on its
way to every consumer. -/
theorem Delivered.publish (hd : Delivered c tr s) (hfree : s.mgr.mutex = none)
    (hfile : s.files h = .producing (.publish b)) :
    Delivered c (tr ++ [(h, .published (s.message b))])
      ({ s with mgr := { s.mgr with mutex := some h } }.put h
        (.producing (.fanOut b s.mgr.consumers 0))) := by
  have hne := hd.ne_of_file hfile rfl
  have hfile' : ∀ f, (({ s with mgr := { s.mgr with mutex := some h } } : Driver).put h f).files c =
      s.files c := fun f => Function.update_of_ne hne ..
  refine ⟨by rw [hfile']; exact hd.settled, fun hc => ?_⟩
  have hlog := hd.log hc
  have hpending : (({ s with mgr := { s.mgr with mutex := some h } } : Driver).put h
      (.producing (.fanOut b s.mgr.consumers 0))).pending c = [b] := by
    rw [pending_of_fan rfl (Function.update_self ..)]
    exact if_pos hc
  rw [pending_of_unlocked hfree, List.append_nil] at hlog
  rw [hpending, obtainedBy_append, published_append, ← hlog]
  simp only [Event.gotMsg, ite_self, Option.toList_none, List.append_nil, Event.publishedMsg,
    Option.toList_some, List.map_append, List.append_assoc]
  unfold Driver.queue
  rw [hfile']
  rfl

/-- The fan-out reaches consumer `con`.  If it is `c`, the buffer moves from what is on its way
to the end of the queue. -/
theorem Delivered.deliver (hd : Delivered c tr s) (hinv : Inv size pageSize lost s.account)
    {con : Filp} {rest : List Filp} {n : Nat}
    (hfile : s.files h = .producing (.fanOut b (con :: rest) n)) :
    Delivered c (tr ++ [(h, .run)])
      ((s.deliver b con).put h (.producing (.fanOut b rest (n + 1)))) := by
  have hne := hd.ne_of_file hfile rfl
  obtain ⟨-, -, hsub, hlock⟩ := hinv.fan h b (con :: rest) n (congrArg (·.share.fan) hfile)
  have hnodup := hsub.nodup hinv.nodup
  have hmsg : ∀ d, ((s.deliver b con).put h (.producing (.fanOut b rest (n + 1)))).message d =
      s.message d := fun d => message_setRefcnt _ d
  have hpending : ((s.deliver b con).put h (.producing (.fanOut b rest (n + 1)))).pending c =
      if c ∈ rest then [b] else [] := pending_of_fan hlock (Function.update_self ..)
  have hold : s.pending c = if c ∈ con :: rest then [b] else [] := pending_of_fan hlock hfile
  have hfile' : ((s.deliver b con).put h (.producing (.fanOut b rest (n + 1)))).files c =
      if c = con then (s.files c).enqueue b else s.files c := by
    simp only [Driver.put, Driver.deliver, Function.update_of_ne hne]
    by_cases hc : c = con
    · subst hc
      simp [Driver.setRefcnt, Driver.touch]
    · simp [hc, Driver.setRefcnt, Driver.touch]
  refine ⟨?_, fun hc => ?_⟩
  · rw [hfile']
    split
    · rw [settled_enqueue]
      exact hd.settled
    · exact hd.settled
  have hlog := hd.log hc
  have hconsumer : (s.files c).share.consumer = true := (hinv.mem_consumers c).mp hc
  rw [obtainedBy_append, published_append, hpending, List.map_congr_left fun d _ => hmsg d,
    Driver.queue, hfile']
  rw [hold] at hlog
  simp only [Event.gotMsg, ite_self, Option.toList_none, List.append_nil, Event.publishedMsg]
  rw [← hlog]
  by_cases hcc : c = con
  · have hrest : c ∉ rest := hcc ▸ (List.nodup_cons.mp hnodup).1
    rw [if_pos hcc, if_neg hrest, queue_enqueue hconsumer, if_pos (by simp [hcc]), List.append_nil]
    rfl
  · have hiff : c ∈ con :: rest ↔ c ∈ rest := by simp [hcc]
    rw [if_neg hcc]
    simp only [hiff]
    rfl

/-- The fan-out has reached everybody, so nothing is on its way any more; a buffer that nobody
got is freed. -/
theorem Delivered.endFanOut (hd : Delivered c tr s) (hinv : Inv size pageSize lost s.account)
    {n : Nat} (hfile : s.files h = .producing (.fanOut b [] n)) :
    Delivered c (tr ++ [(h, .ret none)])
      ((s.endFanOut b n).put h (.idle (some (.producer none)))) := by
  have hne := hd.ne_of_file hfile rfl
  obtain ⟨-, -, -, hlock⟩ := hinv.fan h b [] n (congrArg (·.share.fan) hfile)
  have hkept : Kept c s (if n = 0 then s.removeBufferItem b else s.wakeConsumers) := by
    split
    · exact Kept.removeBufferItem
    · exact Kept.wakeConsumers
  have hfile' : ((s.endFanOut b n).put h (.idle (some (.producer none)))).files c =
      (if n = 0 then s.removeBufferItem b else s.wakeConsumers).files c :=
    Function.update_of_ne hne ..
  obtain ⟨hqueue, hsettled, -⟩ := hkept.files c
  have hold : s.pending c = [] := by
    rw [pending_of_fan hlock hfile]
    exact if_neg List.not_mem_nil
  refine hd.frame hinv rfl (.inl rfl) ?_ hkept.consumers ?_ ?_ hkept.message
  · rw [hfile', hsettled]
    exact id
  · rw [Driver.queue, hfile', hqueue]
    rfl
  · rw [hold]
    exact pending_of_unlocked rfl

/-- A consumer dequeues.  If it is `c`, the message moves from the front of its queue to the end
of what it has got. -/
theorem Delivered.take (hd : Delivered c tr s) (hinv : Inv size pageSize lost s.account)
    {f : File} {items : List Addr} (hfile : s.files h = f) (hqueue : f.queue = b :: items)
    (hfan : f.share.fan = none) :
    Delivered c (tr ++ [(h, .got (s.message b))])
      ((s.touch b).put h (.consuming items (.copyOut b))) := by
  have hkept : Kept c s (s.touch b) := .of_files rfl rfl rfl fun _ _ => rfl
  by_cases hc : h = c
  · subst hc
    have hfile' : ((s.touch b).put h (.consuming items (.copyOut b))).files h =
        .consuming items (.copyOut b) := Function.update_self ..
    refine ⟨by rw [hfile']; rfl, fun hmem => ?_⟩
    have hpending : ((s.touch b).put h (.consuming items (.copyOut b))).pending h =
        s.pending h := by
      have hfans : ∀ k, (((s.touch b).put h (.consuming items (.copyOut b))).files k).share.fan =
          (s.files k).share.fan := by
        intro k
        by_cases hk : k = h
        · rw [hk, hfile', hfile, hfan]
          rfl
        · exact congrArg (fun f : File => f.share.fan) (Function.update_of_ne hk ..)
      unfold Driver.pending Driver.fanOut
      simp only [hfans]
      rfl
    have hlog := hd.log hmem
    rw [Driver.queue, hfile, hqueue] at hlog
    rw [hpending, Driver.queue, hfile', obtainedBy_append, published_append, if_pos rfl]
    simp only [Event.gotMsg, Option.toList_some, Event.publishedMsg, Option.toList_none,
      List.append_nil, File.queue]
    rw [← hlog, List.append_assoc]
    rfl
  · exact hd.other hinv hkept hfile rfl (.inr hc) (by rw [hfan]; rfl) fun heq => absurd heq hc

/-- A new consumer next to the one that is followed. -/
theorem Kept.register (hd : Delivered c tr s) {type : VMQType}
    (hfile : s.files h = .registering type) : Kept c s (s.register h type) := by
  have hne := hd.ne_of_file hfile rfl
  cases type with
  | producer => exact .mgr rfl rfl
  | consumer =>
      refine ⟨fun _ => ⟨rfl, rfl, rfl⟩, rfl, fun hc => ?_, fun _ _ => rfl⟩
      rcases List.mem_append.mp hc with hc | hc
      · exact hc
      · exact absurd (List.mem_singleton.mp hc) hne

/-- A consumer leaves: its messages are given back, and what the other consumers are owed stays
what it was. -/
theorem Delivered.releaseConsumer (hd : Delivered c tr s) (hinv : Inv size pageSize lost s.account)
    {items : List Addr} {item : Option Addr}
    (hfile : s.files h = .releasing (.consumer items item)) :
    Delivered c (tr ++ [(h, .left)]) (s.releaseConsumer h items item) := by
  let s₁ : Driver := s.withConsumers (s.mgr.consumers.erase h)
  obtain ⟨hfiles, hmutex, hcon⟩ := unrefAll_frame (s := s₁) (item.toList ++ items)
  have hkept : Kept c s (s₁.unrefAll (item.toList ++ items)).1 := by
    refine ⟨fun k => by rw [hfiles]; exact ⟨rfl, rfl, rfl⟩, hmutex, fun hc => ?_, fun d _ => ?_⟩
    · rw [hcon] at hc
      exact List.mem_of_mem_erase hc
    · rw [message_unrefAll]
      rfl
  have hsection : s.releaseConsumer h items item = (s₁.unrefAll (item.toList ++ items)).1.put h
      (.drained (s₁.unrefAll (item.toList ++ items)).2) := rfl
  rw [hsection]
  by_cases hc : h = c
  · subst hc
    refine ⟨by simp [Driver.put, File.settled], fun hmem => ?_⟩
    -- it is no longer in the list of consumers
    have hmem' : h ∈ s.mgr.consumers.erase h := Eq.mp (congrArg (h ∈ ·) hcon) hmem
    exact absurd rfl (hinv.nodup.mem_erase_iff.mp hmem').1
  · exact hd.other hinv hkept hfile rfl (.inl rfl) rfl fun heq => absurd heq hc

/-- A producer leaves with its buffer, which nobody has been sent, so nothing changes for the
consumers. -/
theorem Delivered.releaseProducer (hd : Delivered c tr s) (hinv : Inv size pageSize lost s.account)
    {buffer : Option Addr} (hfile : s.files h = .releasing (.producer buffer)) :
    Delivered c (tr ++ [(h, .left)]) (s.releaseProducer h buffer) := by
  have hne := hd.ne_of_file hfile rfl
  cases buffer with
  | none =>
      exact hd.put hinv (Kept.mgr (by rfl) (by rfl)) hfile rfl (.inl rfl) (fun _ => rfl) rfl rfl
  | some b =>
      obtain ⟨hfiles, hmutex, hcon⟩ := removeBufferItem_frame (s := s) (b := b)
      have hkept : Kept c s { s.removeBufferItem b with
          mgr := { (s.removeBufferItem b).mgr with
            producers := (s.removeBufferItem b).mgr.producers.erase h } } :=
        .of_files hfiles hmutex hcon fun d _ => message_removeBufferItem d
      exact hd.put hinv hkept hfile rfl (.inl rfl) (fun _ => rfl) rfl rfl

/-- A new buffer is not one that anybody waits for. -/
theorem Kept.newBuffer {n page : Nat} (hfree : b ∉ s.live) : Kept c s (s.newBuffer b n page) := by
  refine .of_files rfl rfl rfl fun d hd => ?_
  have hdb : d ≠ b := fun heq => hfree (heq ▸ hd)
  simp [Driver.newBuffer, Driver.message, hdb]

/-- Closing a file settles what its context had settled. -/
theorem settled_releasing (ctxt : VMQContext) :
    (File.releasing ctxt).settled = (File.idle (some ctxt)).settled ∧
      (File.releasing ctxt).queue = (File.idle (some ctxt)).queue := by
  cases ctxt <;> exact ⟨rfl, rfl⟩

/-- An ioctl that gets past its checks leaves queues alone. -/
theorem vmqIoctl_queue {ctxt : Option VMQContext} {call : Ioctl} {f : File}
    (hcall : vmqIoctl s ctxt call = some (.ok f)) :
    f.settled = (File.idle ctxt).settled ∧ f.queue = (File.idle ctxt).queue := by
  rcases vmqIoctl_entered hcall with ⟨type, rfl, rfl⟩ | ⟨n, rfl, rfl, -⟩ | ⟨b, rfl, rfl⟩ |
    ⟨items, rfl, rfl⟩ | ⟨items, b, rfl, rfl⟩ <;> exact ⟨rfl, rfl⟩

/-- A file that has just been set up is in no fan-out. -/
theorem share_context_fan (type : VMQType) :
    (File.idle (some type.context)).share.fan = none := by
  cases type <;> rfl

/-- Every step with memory for descriptors and items keeps the log.  The steps of a fan-out, a
dequeue and a release are lemmas of their own; the others leave the log alone. -/
theorem Delivered.step (hd : Delivered c tr s) (hinv : Inv size pageSize lost s.account)
    {e : Filp × Event} (hstep : Step s e t) (hslab : e.2 ≠ .ret (some .enomem) ∧ e.2 ≠ .noItem) :
    Delivered c (tr ++ [e]) t := by
  cases hstep with
  | ioctlOops at_file outcome => exact hd.frame hinv rfl (.inl rfl) id id rfl rfl fun _ _ => rfl
  | ioctlRefused at_file outcome => exact hd.frame hinv rfl (.inl rfl) id id rfl rfl fun _ _ => rfl
  | ioctlEntered at_file outcome =>
      obtain ⟨hsettled, hqueue⟩ := vmqIoctl_queue outcome
      refine hd.put hinv .refl at_file rfl (.inl rfl) (hsettled.trans ·) hqueue ?_
      rcases vmqIoctl_share outcome with hshare | ⟨n, hidle, hshare, -⟩
      · rw [hshare]
      · rw [hshare, hidle]
  | roused => exact hd.put hinv .refl rfl rfl (.inl rfl) (by simp) (by simp) (by simp)
  | countContext at_file =>
      exact hd.put hinv (Kept.mgr (by rfl) (by rfl)) at_file rfl (.inl rfl) id rfl rfl
  | register at_file unlocked =>
      exact hd.other hinv (.register hd at_file) at_file rfl (.inl rfl) (share_context_fan _)
        fun heq => absurd heq.symm (hd.ne_of_file at_file rfl)
  | countPassed at_file test => exact hd.put hinv .refl at_file rfl (.inl rfl) id rfl rfl
  | countReached at_file test => exact hd.put hinv .refl at_file rfl (.inl rfl) id rfl rfl
  | countFell at_file test => exact hd.put hinv .refl at_file rfl (.inl rfl) id rfl rfl
  | countHeld at_file test => exact hd.put hinv .refl at_file rfl (.inl rfl) id rfl rfl
  | countInterrupted at_file => exact hd.put hinv .refl at_file rfl (.inl rfl) id rfl rfl
  | pageFound at_file alloc =>
      rcases at_file with hfile | hfile <;>
        exact hd.put hinv (Kept.mgr (by rfl) (by rfl)) hfile rfl (.inl rfl) id rfl rfl
  | pageMissing at_file alloc =>
      exact hd.put hinv (Kept.mgr (by rfl) (by rfl)) at_file rfl (.inl rfl) id rfl rfl
  | countFull at_file unlocked =>
      exact hd.put hinv (Kept.mgr (by rfl) (by rfl)) at_file rfl (.inl rfl) id rfl rfl
  | pageStillMissing at_file alloc =>
      exact hd.put hinv (Kept.mgr (by rfl) (by rfl)) at_file rfl (.inl rfl) id rfl rfl
  | pageInterrupted at_file => exact hd.put hinv .refl at_file rfl (.inl rfl) id rfl rfl
  | newItem at_file unlocked free =>
      exact hd.put hinv (.newBuffer free) at_file rfl (.inl rfl) id rfl rfl
  | newItemFailed at_file unlocked => exact absurd rfl hslab.1
  | bufferCopied at_file => exact hd.put hinv .refl at_file rfl (.inl rfl) id rfl rfl
  | bufferCopyFailed at_file => exact hd.put hinv .refl at_file rfl (.inl rfl) id rfl rfl
  | undoBuffer at_file unlocked =>
      exact hd.put hinv .removeBufferItem at_file rfl (.inl rfl) id rfl rfl
  | publish at_file unlocked => exact hd.publish unlocked at_file
  | deliver at_file => exact hd.deliver hinv at_file
  | deliverFailed at_file => exact absurd rfl hslab.2
  | endFanOut at_file => exact hd.endFanOut hinv at_file
  | take at_file =>
      rcases at_file with hfile | hfile <;> exact hd.take hinv hfile rfl rfl
  | queueEmpty at_file => exact hd.put hinv .refl at_file rfl (.inl rfl) id rfl rfl
  | queueStillEmpty at_file => exact hd.put hinv .refl at_file rfl (.inl rfl) id rfl rfl
  | itemInterrupted at_file => exact hd.put hinv .refl at_file rfl (.inl rfl) id rfl rfl
  | itemCopied at_file => exact hd.put hinv .refl at_file rfl (.inl rfl) id rfl rfl
  | itemCopyFailed at_file => exact hd.put hinv .refl at_file rfl (.inl rfl) id rfl rfl
  | undoItem at_file unlocked => exact hd.put hinv .putQueueItem at_file rfl (.inl rfl) id rfl rfl
  | putItem at_file unlocked => exact hd.put hinv .putQueueItem at_file rfl (.inl rfl) id rfl rfl
  | releaseUnused at_file => exact hd.put hinv .refl at_file rfl (.inl rfl) (fun h => rfl) rfl rfl
  | release at_file =>
      obtain ⟨hsettled, hqueue⟩ := settled_releasing _
      exact hd.put hinv .refl at_file rfl (.inl rfl) (hsettled.trans ·) hqueue
        (by rw [share_releasing])
  | releaseConsumer at_file unlocked => exact hd.releaseConsumer hinv at_file
  | releaseProducer at_file unlocked => exact hd.releaseProducer hinv at_file
  | wakeDrained at_file =>
      refine hd.put hinv ?_ at_file rfl (.inl rfl) id rfl rfl
      split
      · exact Kept.refl.wakeProducers
      · exact .refl
  | dropContext at_file =>
      exact hd.put hinv (Kept.mgr (by rfl) (by rfl)) at_file rfl (.inl rfl) id rfl rfl

/-! ## Runs -/

/-- `c` is registered at the end of `pre`, and `post` is its history, over which the step lemma
is used. -/
theorem Delivered.run {m : Memory} {maxItemCount : Int} {mem : Addr → VMQBuffer} {s₀ : Driver}
    {pre post : List (Filp × Event)}
    (hsize : size < 2 ^ 31) (hpage : 0 < pageSize) (hpage' : pageSize < 2 ^ 31)
    (hdvd : 128 ∣ pageSize) (hpast : (m (size / pageSize)).allocated = true)
    (hcreate : createBufferManager m size pageSize maxItemCount mem = some s₀)
    (hrun : Run Step s₀ (pre ++ (c, .joined .consumer) :: post) s)
    (hslab : ∀ e ∈ pre ++ (c, .joined .consumer) :: post,
      e.2 ≠ .ret (some .enomem) ∧ e.2 ≠ .noItem) : Delivered c post s := by
  obtain ⟨u, hpre, hlater⟩ := hrun.split
  obtain ⟨v, hjoin, hpost⟩ := hlater.cons_inv
  have hu : Inv size pageSize [] u.account :=
    Inv.run hsize hpage hpage' hdvd hpast hcreate hpre fun e he =>
      (hslab e (List.mem_append_left _ he)).1
  have hv : Inv size pageSize [] v.account := hu.step hjoin Event.noConfusion
  have hstart : Delivered c [] v := by
    cases hjoin with
    | register at_file unlocked =>
        let v : Driver := (u.register c .consumer).put c (.idle (some (.consumer [] none)))
        have hfile : v.files c = .idle (some (.consumer [] none)) := Function.update_self ..
        have hqueue : v.queue c = [] := congrArg File.queue hfile
        have hpending : v.pending c = [] := pending_of_unlocked unlocked
        have hlog : [] ++ (v.queue c ++ v.pending c).map v.message = [] := by
          rw [hqueue, hpending]
          rfl
        exact ⟨congrArg File.settled hfile, fun _ => hlog⟩
  have hboth := hpost.history (fun tr s => (∀ e ∈ tr, e.2 ≠ .ret (some .enomem) ∧ e.2 ≠ .noItem) →
    Inv size pageSize [] s.account ∧ Delivered c tr s) (fun _ => ⟨hv, hstart⟩) ?_
  · exact (hboth fun e he => hslab e (List.mem_append_right _ (List.mem_cons_of_mem _ he))).2
  · intro tr s e t _ ih hstep hok
    obtain ⟨hinv, hd⟩ := ih fun x hx => hok x (List.mem_append_left _ hx)
    have he := hok e (List.mem_append_right _ (List.mem_singleton.mpr rfl))
    exact ⟨hinv.step hstep he.1, hd.step hinv hstep he⟩

/-- A section that is not a registration lets no consumer in, so whoever is in the list was
there before or is just joining. -/
theorem Step.consumers {e : Filp × Event} (hstep : Step s e t) (hc : c ∈ t.mgr.consumers) :
    c ∈ s.mgr.consumers ∨ e = (c, .joined .consumer) := by
  have hremove : ∀ b, (s.removeBufferItem b).mgr.consumers = s.mgr.consumers :=
    fun b => (removeBufferItem_frame (s := s) (b := b)).2.2
  have hput : ∀ b, (s.putQueueItem b).mgr.consumers = s.mgr.consumers := by
    intro b
    unfold Driver.putQueueItem
    simp only
    split <;> exact (unrefBuffer_frame (s := s) (b := b)).2.2
  cases hstep with
  | @register h type at_file unlocked =>
      cases type with
      | producer => exact .inl hc
      | consumer =>
          rcases List.mem_append.mp hc with hc | hc
          · exact .inl hc
          · exact .inr (by rw [List.mem_singleton.mp hc])
  | undoBuffer at_file unlocked => exact .inl (hremove _ ▸ hc)
  | @endFanOut h b count at_file =>
      have hsame : (s.endFanOut b count).mgr.consumers = s.mgr.consumers := by
        unfold Driver.endFanOut
        simp only
        split
        · exact hremove b
        · rfl
      exact .inl (hsame ▸ hc)
  | undoItem at_file unlocked => exact .inl (hput _ ▸ hc)
  | putItem at_file unlocked => exact .inl (hput _ ▸ hc)
  | @releaseConsumer h items item at_file unlocked =>
      have hcon := (unrefAll_frame (s := s.withConsumers (s.mgr.consumers.erase h))
        (item.toList ++ items)).2.2
      exact .inl (List.mem_of_mem_erase (Eq.mp (congrArg (c ∈ ·) hcon) hc))
  | @releaseProducer h buffer at_file unlocked =>
      cases buffer with
      | none => exact .inl hc
      | some b => exact .inl (hremove b ▸ hc)
  | @wakeDrained h count at_file =>
      split at hc <;> exact .inl hc
  | _ => exact .inl hc

/-- A consumer in the list has been registered. -/
theorem joined_of_mem {s₀ : Driver} (hnone : s₀.mgr.consumers = []) (hrun : Run Step s₀ tr s)
    (hc : c ∈ s.mgr.consumers) : ∃ pre post, tr = pre ++ (c, .joined .consumer) :: post := by
  rw [← List.mem_iff_append]
  refine hrun.history (fun tr s => c ∈ s.mgr.consumers → (c, .joined .consumer) ∈ tr) ?_ ?_ hc
  · intro hc
    rw [hnone] at hc
    cases hc
  · intro tr s e t _ ih hstep hc
    rcases hstep.consumers hc with hc | rfl
    · exact List.mem_append_left _ (ih hc)
    · exact List.mem_append_right _ (List.mem_singleton.mpr rfl)

/-! ## Blocks -/

/-- Blocks of different tenants have no byte in common. -/
theorem Inv.disjoint (hinv : Inv size pageSize lost s.account) {b : Addr} {u : Addr ⊕ Filp}
    {a : Nat × Nat} (hb : b ∈ s.live) (hu : s.account.lease u = some a) (hne : .inl b ≠ u) :
    Disjoint (s.block b) (Set.Ico (a.1 * pageSize) (a.1 * pageSize + a.2)) := by
  have hlease : s.account.lease (.inl b) =
      some ((s.mem b).offset / s.mgr.pageSize, (s.mem b).size) := if_pos hb
  have hpage : s.mgr.pageSize = pageSize := hinv.geometry.2.1
  have hoffset : (s.mem b).offset / pageSize * pageSize = (s.mem b).offset :=
    Nat.div_mul_cancel (hinv.paged b hb)
  rw [hpage] at hlease
  have hapart := hinv.leases.disjoint (t := .inl (.inl b)) (u := .inl u) hlease hu
    (fun heq => hne (Sum.inl_injective heq))
  simp only [hoffset] at hapart
  rw [Driver.block, Set.Ico_disjoint_Ico]
  rcases hapart with h | h <;> omega

/-- A message that a consumer has queued or held keeps its block: what is handed to a producer
is leased to another buffer. -/
theorem Inv.handed_disjoint (hinv : Inv size pageSize lost s.account) {B : Set Nat}
    (hb : b ∈ (s.files c).items) (hB : s.handed h = some B) : Disjoint (s.block b) B := by
  have hhand : b ∈ (s.account.shares c).hand := by
    show b ∈ (s.files c).share.hand
    rw [share_hand]
    exact hb
  have hmem : c ∈ s.account.consumers := hinv.mem_of_hand hhand
  have hlive : b ∈ s.live := hinv.live_of_hand hmem hhand
  have hpage : s.mgr.pageSize = pageSize := hinv.geometry.2.1
  have hbuffer : ∀ d, (s.files h).buffer = some d → (s.files h).share.fan = none →
      Disjoint (s.block b) (s.block d) := by
    intro d hd hfan
    have hown : (s.account.shares h).owned = some d := (share_owned _).trans hd
    have hdlive : d ∈ s.live := hinv.live_of_owned hown
    have hlease : s.account.lease (.inl d) =
        some ((s.mem d).offset / s.mgr.pageSize, (s.mem d).size) := if_pos hdlive
    have hbd : b ≠ d := by
      intro heq
      exact hinv.apart h d hown hfan (heq ▸ Account.mem_refs.mpr ⟨c, hmem, hhand⟩)
    have hapart := hinv.disjoint hlive hlease (fun heq => hbd (Sum.inl_injective heq))
    have hoffset : (s.mem d).offset / pageSize * pageSize = (s.mem d).offset :=
      Nat.div_mul_cancel (hinv.paged d hdlive)
    rw [hpage] at hapart
    simp only [hoffset] at hapart
    exact hapart
  unfold Driver.handed at hB
  split at hB
  · rename_i n page hfile
    have hlease : s.account.lease (.inr h) = some (page, n) := congrArg (·.share.page) hfile
    cases hB
    rw [hpage]
    exact hinv.disjoint hlive hlease Sum.inl_ne_inr
  · cases hB
  · rename_i hnew hfan
    obtain ⟨d, hd, rfl⟩ := Option.map_eq_some_iff.mp hB
    refine hbuffer d hd ?_
    unfold File.share
    split <;> first | rfl | exact absurd (by assumption) (hfan _ _ _)

/-- The history of one of two consumers is the end of that of the other. -/
theorem suffix_or_suffix {pre pre' post post' : List (Filp × Event)} {d : Filp}
    (heq : pre ++ (c, .joined .consumer) :: post = pre' ++ (d, .joined .consumer) :: post') :
    post <:+ post' ∨ post' <:+ post := by
  have hleft : post <:+ pre ++ (c, .joined .consumer) :: post :=
    (List.suffix_cons _ _).trans (List.suffix_append _ _)
  have hright : post' <:+ pre ++ (c, .joined .consumer) :: post := by
    rw [heq]
    exact (List.suffix_cons _ _).trans (List.suffix_append _ _)
  exact List.suffix_or_suffix_of_suffix hleft hright

/-- **Broadcast delivery.**  In every run in which the slab caches do not run
dry: since its registration every consumer has obtained, or has queued, what
was published, in this order, up to a message that is being fanned out; two
consumers have received the same messages except for those published before
the later one was registered; and the block of a message that is queued or
held is disjoint from every block handed to a producer. -/
theorem vmq_broadcast {m : Memory} {maxItemCount : Int} {mem : Addr → VMQBuffer} {s₀ : Driver}
    (hsize : size < 2 ^ 31) (hpage : 0 < pageSize) (hpage' : pageSize < 2 ^ 31)
    (hdvd : 128 ∣ pageSize) (hpast : (m (size / pageSize)).allocated = true)
    (hcreate : createBufferManager m size pageSize maxItemCount mem = some s₀)
    (hrun : Run Step s₀ tr s)
    (hslab : ∀ e ∈ tr, e.2 ≠ .ret (some .enomem) ∧ e.2 ≠ .noItem) :
    (∀ c ∈ s.mgr.consumers, ∃ pre post, tr = pre ++ (c, .joined .consumer) :: post) ∧
    (∀ c ∈ s.mgr.consumers, ∀ pre post, tr = pre ++ (c, .joined .consumer) :: post →
      s.received c post = published post) ∧
    (s.mgr.mutex = none → ∀ c, s.pending c = []) ∧
    (∀ c ∈ s.mgr.consumers, ∀ d ∈ s.mgr.consumers, ∀ pre post pre' post',
      tr = pre ++ (c, .joined .consumer) :: post → tr = pre' ++ (d, .joined .consumer) :: post' →
      s.received c post <:+ s.received d post' ∨ s.received d post' <:+ s.received c post) ∧
    (∀ c h b B, b ∈ (s.files c).items → s.handed h = some B → Disjoint (s.block b) B) := by
  have hlog : ∀ c ∈ s.mgr.consumers, ∀ pre post, tr = pre ++ (c, .joined .consumer) :: post →
      s.received c post = published post := by
    intro c hc pre post htr
    subst htr
    exact (Delivered.run hsize hpage hpage' hdvd hpast hcreate hrun hslab).log hc
  have hinv := Inv.run hsize hpage hpage' hdvd hpast hcreate hrun fun e he => (hslab e he).1
  refine ⟨fun c hc => ?_, hlog, fun hfree c => pending_of_unlocked hfree, ?_, ?_⟩
  · have hnone : s₀.mgr.consumers = [] := by
      obtain ⟨ba, -, rfl⟩ := Option.map_eq_some_iff.mp hcreate
      rfl
    exact joined_of_mem hnone hrun hc
  · intro c hc d hd pre post pre' post' htr htr'
    rw [hlog c hc pre post htr, hlog d hd pre' post' htr']
    exact (suffix_or_suffix (htr ▸ htr')).imp (fun h => h.filterMap _) fun h => h.filterMap _
  · intro c h b B hb hB
    exact hinv.handed_disjoint hb hB

/-- A message of 100 bytes, obtained by the one consumer. -/
theorem vmq_broadcast_one_message : ∃ s₀ s tr pre post,
    createBufferManager (fun _ => ⟨true, 0⟩) 1000 128 4 (fun _ => ⟨0, 0, 0⟩) = some s₀ ∧
    Run Step s₀ tr s ∧ tr = pre ++ (1, .joined .consumer) :: post ∧
    s.received 1 post = published post ∧ published post = [⟨5, 768, 100⟩] ∧
    obtainedBy 1 post = [⟨5, 768, 100⟩] := by
  -- a producer and a consumer set up their contexts
  have hrun := @setUp_run (sevenPages 4) 0 (.setup (.ok 0)) .producer rfl rfl rfl
  have hrun := hrun.append (@setUp_run _ 1 (.setup (.ok 1)) .consumer rfl rfl rfl)
  -- `VMQ_GETBUF` for 100 bytes
  have hrun := hrun.append (@getBuffer_run _ 0 (.getbuf (some 100)) 100 6 _ 5 rfl rfl rfl
    (alloc_sevenPages 4) rfl (Finset.notMem_empty 5))
  -- `VMQ_PUTBUF`, then `VMQ_GETITEM`
  have hrun := hrun.append (@putBuffer_run _ 0 1 (.putbuf (some 768)) 5 rfl rfl rfl rfl)
  have hrun := hrun.snoc (@Step.ioctlEntered _ 1 (some (.consumer [5] none)) .getitem _ rfl rfl)
  have hrun := hrun.snoc (@Step.take _ 1 5 [] (.inl rfl))
  let pre : List (Filp × Event) :=
    [(0, .run), (0, .run), (0, .joined .producer), (1, .run), (1, .run)]
  let post : List (Filp × Event) := [(0, .run), (0, .run), (0, .run), (0, .run), (0, .ret none),
    (0, .run), (0, .published ⟨5, 768, 100⟩), (0, .run), (0, .ret none), (1, .run),
    (1, .got ⟨5, 768, 100⟩)]
  have hrun : Run Step (sevenPages 4) (pre ++ (1, .joined .consumer) :: post) _ := hrun
  obtain ⟨-, hlog, -⟩ := vmq_broadcast (by decide) (by decide) (by decide) (by decide)
    rfl (create_sevenPages 4) hrun (by decide)
  exact ⟨_, _, _, pre, post, create_sevenPages 4, hrun, rfl,
    hlog 1 List.mem_cons_self pre post rfl, by decide, by decide⟩

end Vmq

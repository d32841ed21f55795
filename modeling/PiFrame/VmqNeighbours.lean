import PiFrame.VmqWakeups

/-!
# What a step leaves to the others

A step of one task changes the file of another task in three ways at most: it
wakes the task on one of the two wait queues, or it appends an item to the
queue of a consumer.  Properties of a single task that survive these changes
survive every step of the others.
-/

namespace Vmq

open BuddyAllocator Transition

/-- What the step of one task can do to the file of another. -/
inductive File.Touch (f : File) : File → Prop
  | same : File.Touch f f
  | wokenProducer : File.Touch f f.wakeProducer
  | wokenConsumer : File.Touch f f.wakeConsumer
  | enqueued (b : Addr) : File.Touch f (f.enqueue b)

variable {s t : Driver} {h k : Filp} {b : Addr} {e : Filp × Event} {f g : File}

theorem files_put_self : (s.put h f).files h = f :=
  Function.update_self ..

theorem files_put_of_ne (hk : k ≠ h) : (s.put h f).files k = s.files k :=
  Function.update_of_ne hk ..

/-- A step of another task does one of the three, or nothing. -/
theorem Step.touch (hstep : Step s e t) (hk : k ≠ e.1) : (s.files k).Touch (t.files k) := by
  rcases step_elsewhere hstep hk with heq | heq | heq | ⟨b, heq⟩
  all_goals rw [heq]
  · exact .same
  · exact .wokenProducer
  · exact .wokenConsumer
  · exact .enqueued b

/-- A fan-out is not moved by the others. -/
theorem File.Touch.fan (htouch : f.Touch g) : g.share.fan = f.share.fan := by
  cases htouch with
  | same => rfl
  | wokenProducer => rw [share_wakeProducer]
  | wokenConsumer => rw [share_wakeConsumer]
  | enqueued b =>
      unfold File.enqueue
      split <;> rfl

/-- A producer without a call in flight is left alone. -/
theorem File.Touch.producer {buffer : Option Addr}
    (htouch : (File.idle (some (.producer buffer))).Touch g) :
    g = .idle (some (.producer buffer)) := by
  cases htouch <;> rfl

/-- A consumer without a call in flight may get items. -/
theorem File.Touch.consumer {items : List Addr} {item : Option Addr}
    (htouch : (File.idle (some (.consumer items item))).Touch g) :
    ∃ arrived, g = .idle (some (.consumer (items ++ arrived) item)) := by
  cases htouch with
  | enqueued b => exact ⟨[b], rfl⟩
  | _ => exact ⟨[], by simp [File.wakeProducer, File.wakeConsumer]⟩

end Vmq

import PiFrame.QueryReply

/-!
# Waking all queries

`PFQueryWakeUpAll` is meant for an emergency: it signals the condition variable of
every item in the list.  The callers that wake up go back to their loop, and the
loop looks at the reply and at the count only.  So a caller without a reply waits
again, unless its count has come to its end anyway.
-/

namespace Query

open Transition

section WakeUp

variable {Call Thread : Type*} {s s' : State Call Thread} {tr : List (Label Call Thread)}
  {c : Call} {l : Label Call Thread}

/-- After `PFQueryWakeUpAll` none of the calls that are registered waits again, and
those that get no reply return -1 without one. -/
def Released [DecidableEq Call] [DecidableEq Thread] (s : State Call Thread) : Prop :=
  ∀ c ∈ s.waitLRoot, ∀ tr s', Run Step s (.wakeUpAll :: tr) s' → .sleep c ∉ tr ∧
    ∀ ret reply, s'.pc c = .returned ret reply → s'.pReply c = none → ret = -1 ∧ reply = none

/-- The call is at the last round of its loop, has its reply, or has left the loop. -/
def Spent (s : State Call Thread) (c : Call) : Prop :=
  match s.pc c with
  | .listed waitCount => countDown waitCount = 0
  | .loop waitCount fgRun => fgRun = false ∨ countDown waitCount = 0
  | .asleep waitCount => (s.pReply c).isSome ∨ countDown waitCount = 0
  | .leaving => True
  | .removed => True
  | .returned ret reply => s.pReply c = none → ret = -1 ∧ reply = none
  | .idle => False
  | .allocated _ => False

/-- Whether a call has spent its time depends on where it is and whether it has a reply. -/
theorem Spent.congr (h : Spent s c) (hpc : s'.pc c = s.pc c)
    (hreply : s'.pReply c = none → s.pReply c = none) : Spent s' c := by
  have hsome : (s.pReply c).isSome → (s'.pReply c).isSome := by
    intro hs
    cases hnew : s'.pReply c with
    | none => simp [hreply hnew] at hs
    | some reply => rfl
  cases hstage : s.pc c with
  | asleep waitCount =>
      simp only [Spent, hpc, hstage] at h ⊢
      exact h.imp_left hsome
  | returned ret reply =>
      simp only [Spent, hpc, hstage] at h ⊢
      exact fun hnone => h (hreply hnone)
  | idle => simp only [Spent, hstage] at h
  | allocated waitCount => simp only [Spent, hstage] at h
  | listed waitCount =>
      simp only [Spent, hpc, hstage] at h ⊢
      exact h
  | loop waitCount fgRun =>
      simp only [Spent, hpc, hstage] at h ⊢
      exact h
  | leaving => simp only [Spent, hpc, hstage]
  | removed => simp only [Spent, hpc, hstage]

variable [DecidableEq Call]

/-- A reply is never taken back from a call under way. -/
theorem setReply_keeps (s : State Call Thread) (event : PFEvent) (c : Call) :
    (setReplyQueryItem s event).1.pReply c = none → s.pReply c = none := by
  rw [setReplyQueryItem]
  split
  · rename_i d _
    intro hnone
    by_cases hcd : c = d
    · rw [hcd] at hnone
      simp at hnone
    · dsimp only at hnone
      rwa [Function.update_of_ne hcd] at hnone
  · exact id

theorem setReply_pc (s : State Call Thread) (event : PFEvent) :
    (setReplyQueryItem s event).1.pc = s.pc := by
  rw [setReplyQueryItem]
  split <;> rfl

variable [DecidableEq Thread]

/-- **Step rule.**  A spent call stays spent, and does not wait: its loop ends at the next look. -/
theorem Spent.step (h : Spent s c) (hstep : Step s l s') : Spent s' c ∧ l ≠ .sleep c := by
  cases hstep with
  | call d key waitCount hidle hkey hfresh =>
      have hcd : c ≠ d := by
        rintro rfl
        simp [Spent, hidle] at h
      refine ⟨h.congr (Function.update_of_ne hcd ..) fun hnone => ?_, by simp⟩
      dsimp only at hnone
      rwa [Function.update_of_ne hcd] at hnone
  | @register d waitCount hpc =>
      have hcd : c ≠ d := by
        rintro rfl
        simp [Spent, hpc] at h
      exact ⟨h.congr (Function.update_of_ne hcd ..) id, by simp⟩
  | @publish d waitCount hpc =>
      refine ⟨?_, by simp⟩
      by_cases hcd : c = d
      · subst hcd
        simp only [Spent, hpc] at h
        simp [Spent, h]
      · exact h.congr (s.goto_other hcd _) id
  | @sleep d waitCount hpc hcount =>
      have hcd : c ≠ d := by
        rintro rfl
        simp [Spent, hpc, hcount] at h
      exact ⟨h.congr (s.goto_other hcd _) id, by simpa using Ne.symm hcd⟩
  | @wake d waitCount hpc =>
      refine ⟨?_, by simp⟩
      by_cases hcd : c = d
      · subst hcd
        simp only [Spent, hpc] at h
        simp only [Spent, s.goto_self]
        rcases h with hreply | hcount
        · left
          simpa using hreply
        · exact Or.inr hcount
      · exact h.congr (s.goto_other hcd _) id
  | @leave d waitCount fgRun hpc hstop =>
      refine ⟨?_, by simp⟩
      by_cases hcd : c = d
      · subst hcd
        simp [Spent]
      · exact h.congr (s.goto_other hcd _) id
  | @remove d hpc =>
      refine ⟨?_, by simp⟩
      by_cases hcd : c = d
      · subst hcd
        simp [Spent]
      · exact h.congr (Function.update_of_ne hcd ..) id
  | @«return» d hpc =>
      refine ⟨?_, by simp⟩
      by_cases hcd : c = d
      · subst hcd
        simp only [Spent, s.goto_self]
        intro hnone
        have hnone : s.pReply c = none := hnone
        simp [hnone]
      · exact h.congr (s.goto_other hcd _) id
  | ignore event hfree hplain => exact ⟨h, by simp⟩
  | dismiss event hfree hreply hempty => exact ⟨h, by simp⟩
  | look event hfree hreply hsome => exact ⟨h.congr rfl id, by simp⟩
  | @process t event hpending =>
      exact ⟨h.congr (congrFun (setReply_pc s event) c) (setReply_keeps s event c), by simp⟩
  | wakeUpAll => exact ⟨h, by simp⟩

/-- **Run rule.** -/
theorem Spent.run (h : Spent s c) (hrun : Run Step s tr s') : Spent s' c ∧ .sleep c ∉ tr := by
  refine hrun.history (fun tr t => Spent t c ∧ .sleep c ∉ tr) ⟨h, List.not_mem_nil⟩ ?_
  intro tr t l u _ ih hstep
  obtain ⟨hspent, hl⟩ := ih.1.step hstep
  refine ⟨hspent, ?_⟩
  rw [List.mem_append, List.mem_singleton, not_or]
  exact ⟨ih.2, Ne.symm hl⟩

/-- A registered call that is not spent can wait again after the wake-up, since the loop looks
at its count and at its reply only. -/
theorem exists_sleep (hlisted : (s.pc c).Listed) (h : ¬Spent s c) :
    ∃ tr s', Run Step s (.wakeUpAll :: tr) s' ∧ .sleep c ∈ tr := by
  have hwake : Run Step s [.wakeUpAll] s := Run.single .wakeUpAll
  cases hpc : s.pc c with
  | listed waitCount =>
      simp only [Spent, hpc] at h
      have hpublish := hwake.snoc (Step.publish hpc)
      exact ⟨_, _, hpublish.snoc (Step.sleep (s.goto_self c _) h), by simp⟩
  | loop waitCount fgRun =>
      simp only [Spent, hpc, not_or, Bool.not_eq_false] at h
      obtain ⟨rfl, hcount⟩ := h
      exact ⟨_, _, hwake.snoc (Step.sleep hpc hcount), by simp⟩
  | asleep waitCount =>
      simp only [Spent, hpc, not_or, Bool.not_eq_true, Option.isSome_eq_false_iff] at h
      obtain ⟨hnone, hcount⟩ := h
      have hloop : (s.goto c (.loop waitCount (s.pReply c).isNone)).pc c
          = .loop waitCount true := by
        rw [s.goto_self, hnone]
      exact ⟨_, _, (hwake.snoc (Step.wake hpc)).snoc (Step.sleep hloop hcount), by simp⟩
  | leaving => simp [Spent, hpc] at h
  | idle => simp [hpc, Pc.Listed] at hlisted
  | allocated waitCount => simp [hpc, Pc.Listed] at hlisted
  | removed => simp [hpc, Pc.Listed] at hlisted
  | returned ret reply => simp [hpc, Pc.Listed] at hlisted

/-- A call that is asleep without a reply, and not for the last time, is not released. -/
theorem not_released_asleep (hmem : c ∈ s.waitLRoot) {waitCount : Nat}
    (hpc : s.pc c = .asleep waitCount) (hnone : s.pReply c = none)
    (hcount : countDown waitCount ≠ 0) : ¬Released s := by
  intro hreleased
  obtain ⟨tr', s', hafter, hsleep⟩ := exists_sleep (s := s) (c := c)
    (by rw [hpc]; trivial) (by simp [Spent, hpc, hnone, hcount])
  exact (hreleased c hmem tr' s' hafter).1 hsleep

/-- **Waking all queries releases them** just when every call in the list is in the
last round of its loop, has its reply or has left the loop. -/
theorem released_iff (hrun : Run Step initial tr s) :
    Released s ↔ ∀ c ∈ s.waitLRoot, Spent s c := by
  constructor
  · intro hreleased c hmem
    by_contra hspent
    obtain ⟨tr', s', hafter, hsleep⟩ :=
      exists_sleep ((Inv.run hrun).listed_of_mem hmem) hspent
    exact (hreleased c hmem tr' s' hafter).1 hsleep
  · intro hspent c hmem tr' s' hafter
    obtain ⟨hend, hnosleep⟩ := (hspent c hmem).run hafter
    refine ⟨fun hsleep => hnosleep (List.mem_cons_of_mem _ hsleep), fun ret reply hpc hnone => ?_⟩
    simp only [Spent, hpc] at hend
    exact hend hnone

end WakeUp

/-! ## One query -/

/-- A call with a time-out of one second, asleep in its last quarter, is released. -/
theorem released_quarter : ∃ (tr : List (Label Unit Unit)) (s : State Unit Unit),
    Run Step initial tr s ∧ s.pc () = .asleep 1 ∧ () ∈ s.waitLRoot ∧ Released s := by
  have hcall := Run.single (Step.call (s := (initial : State Unit Unit)) () 7 4 rfl (by decide)
    (fun _ h => h.elim))
  have hregister := hcall.snoc (@Step.register Unit Unit _ _ _ () 4 rfl)
  have hpublish := hregister.snoc (@Step.publish Unit Unit _ _ _ () 4 rfl)
  have hfirst := hpublish.snoc (@Step.sleep Unit Unit _ _ _ () 4 rfl (by decide))
  have hsecond := (hfirst.snoc (@Step.wake Unit Unit _ _ _ () 3 rfl)).snoc
    (@Step.sleep Unit Unit _ _ _ () 3 rfl (by decide))
  have hrun := (hsecond.snoc (@Step.wake Unit Unit _ _ _ () 2 rfl)).snoc
    (@Step.sleep Unit Unit _ _ _ () 2 rfl (by decide))
  refine ⟨_, _, hrun, rfl, List.mem_singleton_self (), (released_iff hrun).mpr fun c _ => ?_⟩
  exact .inr (show countDown 1 = 0 by decide)

/-- A call with a time-out of one second, asleep in its first quarter, waits again. -/
theorem released_fails : ∃ (tr : List (Label Unit Unit)) (s : State Unit Unit),
    Run Step initial tr s ∧ s.pc () = .asleep 3 ∧ ¬Released s := by
  have hcall := Run.single (Step.call (s := (initial : State Unit Unit)) () 7 4 rfl (by decide)
    (fun _ h => h.elim))
  have hregister := hcall.snoc (@Step.register Unit Unit _ _ _ () 4 rfl)
  have hpublish := hregister.snoc (@Step.publish Unit Unit _ _ _ () 4 rfl)
  have hrun := hpublish.snoc (@Step.sleep Unit Unit _ _ _ () 4 rfl (by decide))
  refine ⟨_, _, hrun, rfl, fun hreleased => ?_⟩
  exact not_released_asleep (List.mem_singleton_self ()) rfl rfl (by decide) hreleased

end Query

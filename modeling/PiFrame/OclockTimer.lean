import PiFrame.TimerService
import PiFrame.Transition

/-!
# The announcement of the hour

The service `action` has a timer that is to be called at the beginning of every
minute.  Its callback compares the hour with the one it saw last, announces a new one,
and sets the time to the next minute, which the library rounds down to whole ticks.
It is called again at the end of these ticks, or some time after; only the first call
may come a tick early.

A call that comes just before a new minute is followed by one just after it.  A call
that reads the clock for the hour before a new minute, and for the next call after it,
leaves the minute out.

Where clocks are put back an hour, the hour that comes twice is announced once.  The
theorem is about runs during which clocks are not changed.
-/

namespace Oclock

open Timer Transition

/-- The fields of `struct tm` that are used. -/
structure Tm where
  tmYear : Nat
  tmMon : Nat
  tmMday : Nat
  tmHour : Nat
  tmMin : Nat
  tmSec : Nat
  deriving DecidableEq, Repr

/-- `localtime_r`, with the minutes by which clocks are ahead of Greenwich at a second, a day
less so many where they are behind: they change with daylight saving time. -/
structure Zone where
  localtimeR : Nat → Tm
  offset : Nat → Nat
  tmHour_eq : ∀ sec, (localtimeR sec).tmHour = (sec + 60 * offset sec) / 3600 % 24

/-- What `PFE_SYS_TIME` says. -/
structure PFESystemTime where
  year : Nat
  month : Nat
  day : Nat
  hour : Nat
  min : Nat
  sec : Nat
  deriving DecidableEq, Repr

structure TimerInfo where
  hour : Nat

/-- `tv_sec` and `tv_usec` of a time in microseconds. -/
def tvSec (t : Nat) : Nat := t / 1000000

def tvUsec (t : Nat) : Nat := t % 1000000

/-- `notifyOclock` -/
def notifyOclock (zone : Zone) (t : Nat) : PFESystemTime :=
  let tm := zone.localtimeR (tvSec t)
  { year := tm.tmYear + 1900
    month := tm.tmMon + 1
    day := tm.tmMday
    hour := tm.tmHour
    min := tm.tmMin
    sec := tm.tmSec }

/-- The time that `timerFuncMinute` gives to `PFU_timerSetMsec`. -/
def msecToMinute (t : Nat) : Int := 60000 - ((tvSec t % 60 * 1000 + tvUsec t / 1000 : Nat) : Int)

/-- `timerFuncMinute` at `began`, when `gettimeofday` answers `ended` the second time:
the announcement and the time to the next call. -/
def timerFuncMinute (zone : Zone) (ti : TimerInfo) (began ended : Nat) :
    TimerInfo × Option PFESystemTime × Int :=
  if ti.hour ≠ (zone.localtimeR (tvSec began)).tmHour then
    (⟨(zone.localtimeR (tvSec began)).tmHour⟩, some (notifyOclock zone began), msecToMinute ended)
  else (ti, none, msecToMinute ended)

/-- The timer between two calls: when the last one began and when it was over. -/
structure Service where
  info : TimerInfo
  began : Nat
  ended : Nat
  msec : Int

/-- `timerInit` -/
def timerInit (zone : Zone) (t : Nat) : Service where
  info := ⟨(zone.localtimeR (tvSec t)).tmHour⟩
  began := t
  ended := t
  msec := 100

/-- A call of the callback. -/
structure Call where
  began : Nat
  ended : Nat
  notify : Option PFESystemTime

/-- The microseconds of a number of ticks. -/
def tickTime (ticks : Nat) : Nat := ticks * (timerTickMsec * 1000)

/-- The next call, `late` at most behind its ticks, takes `busy` at most.  It comes no more
than a tick early (`PFU_timerAdd` counts the tick that has begun). -/
inductive Step (zone : Zone) (busy late : Nat) : Service → Call → Service → Prop
  | call {s : Service} {began ended : Nat}
      (due : s.ended + tickTime (expireTicks s.msec - 1) ≤ began)
      (punctual : began ≤ s.ended + tickTime (expireTicks s.msec) + late)
      (order : began ≤ ended) (quick : ended ≤ began + busy) :
      Step zone busy late s
        ⟨began, ended, (timerFuncMinute zone s.info began ended).2.1⟩
        { info := (timerFuncMinute zone s.info began ended).1
          began, ended
          msec := (timerFuncMinute zone s.info began ended).2.2 }

/-- The time of the zone, and the hours of it that are over. -/
def Zone.clock (zone : Zone) (t : Nat) : Nat := t + 60000000 * zone.offset (tvSec t)

def Zone.hours (zone : Zone) (t : Nat) : Nat := zone.clock t / 3600000000

/-- The calls that announced something. -/
def announced (tr : List Call) : List Call := tr.filter fun c => c.notify.isSome

variable {zone : Zone} {busy late start t : Nat} {s s' : Service} {c : Call} {tr : List Call}

/-- The hour of the clock is the number of hours since the epoch, in the zone, by 24. -/
theorem tmHour_eq_hours (t : Nat) :
    (zone.localtimeR (tvSec t)).tmHour = zone.hours t % 24 := by
  rw [zone.tmHour_eq, Zone.hours, Zone.clock, tvSec]
  omega

theorem msecToMinute_eq (t : Nat) :
    msecToMinute t = ((60000 - t % 60000000 / 1000 : Nat) : Int) := by
  rw [msecToMinute, tvSec, tvUsec]
  omega

/-- An interval is so many ticks of 50 milliseconds, and one at least. -/
theorem expireTicks_natCast {msec : Nat} (hmsec : msec < 2 ^ 32) :
    expireTicks (msec : Int) = max 1 (msec / 50) := by
  have hmod : ((msec : Int) % 2 ^ 32).toNat = msec := by omega
  rw [expireTicks, hmod, timerTickMsec]
  grind

/-- The ticks end before the next minute, or soon after it begins. -/
theorem tickTime_msecToMinute (t : Nat) : t + tickTime (expireTicks (msecToMinute t)) <
    t / 60000000 * 60000000 + 60000000 + 100000 := by
  have hticks : tickTime (expireTicks (msecToMinute t)) =
      max 1 ((60000 - t % 60000000 / 1000) / 50) * 50000 := by
    rw [msecToMinute_eq, expireTicks_natCast (by omega)]
    rfl
  omega

/-! ## One call after the other -/

/-- The hour is the one of the last call, and the next call comes soon behind the
beginning of a minute. -/
structure Punctual (zone : Zone) (busy : Nat) (s : Service) : Prop where
  hour : s.info.hour = zone.hours s.began % 24
  order : s.began ≤ s.ended
  quick : s.ended ≤ s.began + busy
  next : s.ended + tickTime (expireTicks s.msec) ≤ s.ended / 60000000 * 60000000 + 60000000 + 100000

theorem Punctual.init (zone : Zone) (busy start : Nat) : Punctual zone busy (timerInit zone start) where
  hour := tmHour_eq_hours start
  order := le_rfl
  quick := Nat.le_add_right ..
  next := by
    have hticks : tickTime (expireTicks 100) = 100000 := by decide
    simp only [timerInit, hticks]
    omega

/-- The callback announces an hour that has just begun, where clocks have not been changed
since the last call. -/
theorem Punctual.call (h : Punctual zone busy s) (hslack : busy + late < 3500000000)
    (hstep : Step zone busy late s c s')
    (hfixed : zone.offset (tvSec c.began) = zone.offset (tvSec s.began)) :
    Punctual zone busy s' ∧ s'.began = c.began ∧
      (c.notify = none ∧ zone.hours c.began = zone.hours s.began ∨
        c.notify = some (notifyOclock zone c.began) ∧ zone.hours c.began = zone.hours s.began + 1 ∧
          zone.clock c.began % 3600000000 ≤ 60100000 + busy + late) := by
  obtain ⟨hhour, horder, hquick, hnext⟩ := h
  cases hstep with
  | @call began ended due punctual order quick =>
      have hminute := tickTime_msecToMinute ended
      have hsame : (timerFuncMinute zone s.info began ended).2.2 = msecToMinute ended := by
        unfold timerFuncMinute
        split <;> rfl
      have hbegan := @tmHour_eq_hours zone began
      have hfollow : zone.hours began = zone.hours s.began ∨
          zone.hours began = zone.hours s.began + 1 ∧
            zone.clock began % 3600000000 ≤ 60100000 + busy + late := by
        have hsince : s.ended ≤ began := (Nat.le_add_right ..).trans due
        simp only [Zone.hours, Zone.clock, hfixed]
        omega
      refine ⟨⟨?_, order, quick, ?_⟩, rfl, ?_⟩
      · show (timerFuncMinute zone s.info began ended).1.hour = zone.hours began % 24
        unfold timerFuncMinute
        split
        · exact hbegan
        · next heq => exact (not_not.1 heq).trans hbegan
      · simp only [hsame]
        exact hminute.le
      · simp only
        unfold timerFuncMinute
        by_cases hnew : s.info.hour ≠ (zone.localtimeR (tvSec began)).tmHour
        · rw [if_pos hnew]
          rcases hfollow with hold | hnext
          · rw [hhour, hbegan, hold] at hnew
            exact absurd rfl hnew
          · exact .inr ⟨rfl, hnext⟩
        · rw [if_neg hnew]
          rw [hhour, hbegan] at hnew
          exact .inl ⟨rfl, by omega⟩

/-! ## Runs -/

/-- The hours that have been announced, and when. -/
structure Told (zone : Zone) (busy late start : Nat) (tr : List Call) (s : Service) : Prop where
  punctual : Punctual zone busy s
  fixed : zone.offset (tvSec s.began) = zone.offset (tvSec start)
  since : zone.hours start ≤ zone.hours s.began
  hours : (announced tr).map (fun c => zone.hours c.began) =
    List.range' (zone.hours start + 1) (zone.hours s.began - zone.hours start)
  soon : ∀ c ∈ announced tr, c.notify = some (notifyOclock zone c.began) ∧
    zone.clock c.began % 3600000000 ≤ 60100000 + busy + late

/-- One more call keeps together what has been announced and what has begun. -/
theorem Told.snoc (h : Told zone busy late start tr s) (hslack : busy + late < 3500000000)
    (hstep : Step zone busy late s c s')
    (hfixed : zone.offset (tvSec c.began) = zone.offset (tvSec start)) :
    Told zone busy late start (tr ++ [c]) s' := by
  obtain ⟨hpunctual, hbegan, hcases⟩ := h.punctual.call hslack hstep (hfixed.trans h.fixed.symm)
  have hsince := h.since
  have hfixed : zone.offset (tvSec s'.began) = zone.offset (tvSec start) := hbegan ▸ hfixed
  rcases hcases with ⟨hnone, hsame⟩ | ⟨hsome, hnext, hsoon⟩
  · have hquiet : announced (tr ++ [c]) = announced tr := by simp [announced, hnone]
    refine ⟨hpunctual, hfixed, by rw [hbegan, hsame]; exact hsince, ?_, ?_⟩
    · rw [hquiet, h.hours, hbegan, hsame]
    · rw [hquiet]
      exact h.soon
  · have hloud : announced (tr ++ [c]) = announced tr ++ [c] := by simp [announced, hsome]
    refine ⟨hpunctual, hfixed, by rw [hbegan, hnext]; omega, ?_, ?_⟩
    · have hcount : zone.hours s'.began - zone.hours start =
          zone.hours s.began - zone.hours start + 1 := by
        rw [hbegan, hnext]
        omega
      rw [hloud, List.map_append, h.hours, hcount, List.range'_concat, List.map_singleton, hnext,
        Nat.one_mul]
      congr 2
      omega
    · rw [hloud]
      intro d hd
      rcases List.mem_append.1 hd with hold | hnew
      · exact h.soon d hold
      · rw [List.mem_singleton.1 hnew]
        exact ⟨hsome, hsoon⟩

theorem Told.init (zone : Zone) (busy late start : Nat) :
    Told zone busy late start [] (timerInit zone start) where
  punctual := Punctual.init zone busy start
  fixed := rfl
  since := le_rfl
  hours := by
    show [] = List.range' _ (zone.hours start - zone.hours start)
    rw [Nat.sub_self]
    rfl
  soon _ hc := by cases hc

/-- **The announcement of the hour.**  In every run during which clocks are not changed,
every hour that begins is announced once, and in their order, with the date and the hour
of the zone, and at most a minute and a tenth of a second after it began, besides the
delays of a call. -/
theorem oclock_announcements (zone : Zone) (hslack : busy + late < 3500000000)
    (hrun : Run (Step zone busy late) (timerInit zone start) tr s)
    (hfixed : ∀ c ∈ tr, zone.offset (tvSec c.began) = zone.offset (tvSec start)) :
    (announced tr).map (fun c => zone.hours c.began) =
      List.range' (zone.hours start + 1) (zone.hours s.began - zone.hours start) ∧
    ∀ c ∈ announced tr, c.notify = some (notifyOclock zone c.began) ∧
      zone.clock c.began % 3600000000 ≤ 60100000 + busy + late := by
  have htold : Told zone busy late start tr s := by
    induction hrun with
    | nil => exact Told.init zone busy late start
    | snoc before last ih =>
        have hbefore := ih fun c hc => hfixed c (List.mem_append_left _ hc)
        exact hbefore.snoc hslack last (hfixed _ (by simp))
  exact ⟨htold.hours, htold.soon⟩

/-- The first day of the count, in Greenwich. -/
def firstDay : Zone where
  localtimeR := fun sec => ⟨70, 0, 1, sec / 3600 % 24, sec / 60 % 60, sec % 60⟩
  offset := fun _ => 0
  tmHour_eq := fun _ => rfl

/-- One o'clock, when the service was started shortly before. -/
theorem oclock_announcements_one : ∃ tr s,
    Run (Step firstDay 0 0) (timerInit firstDay 3599950000) tr s ∧
      (announced tr).map (fun c => firstDay.hours c.began) = [1] ∧
      ∀ c ∈ announced tr, c.notify = some (notifyOclock firstDay c.began) := by
  have hstep : Step firstDay 0 0 (timerInit firstDay 3599950000) _ _ :=
    @Step.call firstDay 0 0 _ 3600050000 3600050000 (by decide) (by decide) le_rfl le_rfl
  have hrun := Run.nil.snoc hstep
  have htold := oclock_announcements firstDay (by decide) hrun fun _ _ => rfl
  exact ⟨_, _, hrun, htold.1, fun c hc => (htold.2 c hc).1⟩

end Oclock

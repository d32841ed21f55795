import Mathlib.Algebra.Order.Ring.Int

/-!
# How often the configuration is saved

The main loop of the service calls `configUpdate(0)` after every wake-up, and
`configUpdate` synchronises when `timeDiff` reports at least `UPDATE_INTERVAL`
since the last synchronisation.  `timeDiff` reports seconds, unless the two
readings are in one second: then it reports microseconds, and ten of them pass
for ten seconds.  It also drops the microseconds when the seconds differ, and
keeps the difference in an `int`.
-/

namespace ConfigThrottle

/-- `struct timeval` as `gettimeofday` fills it. -/
structure Timeval where
  tvSec : Int
  tvUsec : Int
  normal : 0 ≤ tvUsec ∧ tvUsec < 1000000
  deriving DecidableEq

/-- The reading in microseconds. -/
def Timeval.micros (t : Timeval) : Int := t.tvSec * 1000000 + t.tvUsec

/-- What a static `struct timeval` holds at first. -/
def Timeval.zero : Timeval := ⟨0, 0, by decide⟩

def updateInterval : Int := 10

/-- What an `int` keeps of a number. -/
def asInt (n : Int) : Int := if n % 2 ^ 32 < 2 ^ 31 then n % 2 ^ 32 else n % 2 ^ 32 - 2 ^ 32

/-- `abs`, which leaves the least `int` as it is. -/
def abs (n : Int) : Int := if n < 0 then asInt (-n) else n

def timeDiff (t1 t2 : Timeval) : Int :=
  let sec := asInt (t1.tvSec - t2.tvSec)
  if sec ≠ 0 then abs sec
  else
    let usec := asInt (t1.tvUsec - t2.tvUsec)
    if usec ≠ 0 then abs usec else 0

/-- `configUpdate` at a reading of the clock: the mask it calls `dbSync` with,
if it does, and `nextUpdate` afterwards. -/
def configUpdate (force : Bool) (now nextUpdate : Timeval) : Option Int × Timeval :=
  if force ∨ timeDiff now nextUpdate ≥ updateInterval then (some (if force then -1 else 0), now)
  else (none, nextUpdate)

/-! ## Sequences of calls -/

/-- A call of `configUpdate(0)`: what the clock showed, and the mask for `dbSync`. -/
structure Call where
  now : Timeval
  sync : Option Int
  deriving DecidableEq

/-- The calls at these readings, one after the other. -/
def calls : Timeval → List Timeval → List Call
  | _, [] => []
  | nextUpdate, now :: later =>
      let r := configUpdate false now nextUpdate
      ⟨now, r.1⟩ :: calls r.2 later

/-- When the last synchronisation among these calls was. -/
def lastSync (done : List Call) : Option Timeval :=
  ((done.filter fun c => c.sync.isSome).getLast?).map Call.now

/-- A call synchronises just when ten seconds have passed since the last
synchronisation: no two of them are closer, and none is left out. -/
def Throttled (all : List Call) : Prop :=
  ∀ done c later last, all = done ++ c :: later → lastSync done = some last →
    (c.sync.isSome → updateInterval * 1000000 ≤ c.now.micros - last.micros) ∧
      (updateInterval * 1000000 ≤ c.now.micros - last.micros → c.sync.isSome)

/-- The difference of the seconds is too large for an `int`, and what is left
of it is small, or the one number without an absolute value. -/
def Wrapped (last now : Timeval) : Prop :=
  let d := now.tvSec - last.tvSec
  2 ^ 31 ≤ d ∧ (d % 2 ^ 32 = 2 ^ 31 ∨ (1 ≤ d % 2 ^ 32 ∧ d % 2 ^ 32 ≤ 9) ∨
    2 ^ 32 - 9 ≤ d % 2 ^ 32 ∨
    (d % 2 ^ 32 = 0 ∧ now.tvUsec - last.tvUsec < 10 ∧ last.tvUsec - now.tvUsec < 10))

/-- The two readings for which `timeDiff` is on the wrong side of ten: ten
microseconds in one second, less than ten seconds over ten borders of seconds,
or a difference that does not fit. -/
def Mistimed (last now : Timeval) : Prop :=
  (now.tvSec = last.tvSec ∧ last.tvUsec + 10 ≤ now.tvUsec) ∨
    (now.tvSec = last.tvSec + 10 ∧ now.tvUsec < last.tvUsec) ∨ Wrapped last now

theorem asInt_small {n : Int} (hlow : -2 ^ 31 ≤ n) (hhigh : n < 2 ^ 31) : asInt n = n := by
  unfold asInt
  split <;> omega

/-- One decision: it is right unless the readings are mistimed, by microseconds within one
second or over ten borders of seconds, or by a difference that does not fit. -/
theorem timeDiff_right_iff {last now : Timeval} (hle : last.micros ≤ now.micros) :
    (timeDiff now last ≥ updateInterval ↔
      updateInterval * 1000000 ≤ now.micros - last.micros) ↔ ¬Mistimed last now := by
  obtain ⟨s, u, hu0, hu1⟩ := last
  obtain ⟨t, v, hv0, hv1⟩ := now
  simp only [Timeval.micros] at hle
  have husec : asInt (v - u) = v - u := asInt_small (by omega) (by omega)
  simp only [timeDiff, Timeval.micros, updateInterval, Mistimed, Wrapped, husec]
  by_cases hzero : asInt (t - s) = 0
  · have hmod : (t - s) % 2 ^ 32 = 0 := by
      unfold asInt at hzero
      split at hzero <;> omega
    have habs : (if v - u ≠ 0 then abs (v - u) else 0) = if v < u then u - v else v - u := by
      have hneg : asInt (-(v - u)) = u - v := by
        rw [asInt_small (by omega) (by omega)]
        omega
      unfold abs
      rw [hneg]
      split <;> split <;> omega
    rw [if_neg (by omega), habs]
    split <;> omega
  · rw [if_pos hzero]
    unfold abs
    unfold asInt at hzero ⊢
    split at hzero <;> split <;> split <;> omega

/-! ## What a run of calls does -/

/-- Every call compares its reading with the last synchronisation, or with the
start value as long as there is none. -/
theorem sync_calls : ∀ {readings : List Timeval} {start : Timeval} {done later : List Call}
    {c : Call}, calls start readings = done ++ c :: later →
    (c.sync.isSome ↔ timeDiff c.now ((lastSync done).getD start) ≥ updateInterval) := by
  intro readings
  induction readings with
  | nil => intro start done later c h; simp [calls] at h
  | cons now rest ih =>
      intro start done later c h
      rw [calls] at h
      cases done with
      | nil =>
          obtain ⟨rfl, -⟩ := List.cons.inj h
          simp only [configUpdate, lastSync, List.filter_nil, List.getLast?_nil, Option.map_none,
            Option.getD_none, Bool.false_eq_true, false_or, if_false]
          split <;> simp_all
      | cons first done =>
          obtain ⟨hfirst, htail⟩ := List.cons.inj h
          have hnext : (lastSync (first :: done)).getD start
              = (lastSync done).getD (configUpdate false now start).2 := by
            rw [← hfirst]
            simp only [lastSync, configUpdate, Bool.false_eq_true, false_or, if_false]
            split
            · rw [List.filter_cons_of_pos (by rfl), List.getLast?_cons]
              cases ((done.filter fun c => c.sync.isSome).getLast?) <;> rfl
            · rw [List.filter_cons_of_neg (by simp)]
          rw [hnext]
          exact ih htail

theorem now_calls (start : Timeval) (readings : List Timeval) :
    (calls start readings).map Call.now = readings := by
  induction readings generalizing start with
  | nil => rfl
  | cons now rest ih => simp [calls, ih]

theorem lastSync_mem {done : List Call} {last : Timeval} (h : lastSync done = some last) :
    last ∈ done.map Call.now := by
  obtain ⟨c, hc, rfl⟩ := Option.map_eq_some_iff.mp h
  exact List.mem_map_of_mem (List.mem_filter.mp (List.mem_of_getLast? hc)).1

/-- The last synchronisation is not later than the call. -/
theorem lastSync_le {readings : List Timeval} {start last : Timeval} {done later : List Call}
    {c : Call} (hsorted : readings.Pairwise fun s t => s.micros ≤ t.micros)
    (hcalls : calls start readings = done ++ c :: later) (hlast : lastSync done = some last) :
    last.micros ≤ c.now.micros := by
  have hnows := now_calls start readings
  rw [hcalls, List.map_append, List.map_cons] at hnows
  rw [← hnows, List.pairwise_append] at hsorted
  exact hsorted.2.2 last (lastSync_mem hlast) c.now (by simp)

/-- The calls are throttled just when none of them comes at a mistimed reading. -/
theorem throttled_iff (readings : List Timeval)
    (hsorted : readings.Pairwise fun s t => s.micros ≤ t.micros) :
    Throttled (calls .zero readings) ↔
      ∀ done c later last, calls .zero readings = done ++ c :: later → lastSync done = some last →
        ¬Mistimed last c.now := by
  have hstep : ∀ {done c later last}, calls .zero readings = done ++ c :: later →
      lastSync done = some last →
      (((c.sync.isSome → updateInterval * 1000000 ≤ c.now.micros - last.micros) ∧
        (updateInterval * 1000000 ≤ c.now.micros - last.micros → c.sync.isSome)) ↔
        ¬Mistimed last c.now) := by
    intro done c later last hcalls hlast
    have hdecide := sync_calls hcalls
    rw [hlast, Option.getD_some] at hdecide
    rw [← timeDiff_right_iff (lastSync_le hsorted hcalls hlast), hdecide]
    exact iff_iff_implies_and_implies.symm
  constructor
  · intro h done c later last hcalls hlast
    exact (hstep hcalls hlast).mp (h done c later last hcalls hlast)
  · intro h done c later last hcalls hlast
    exact (hstep hcalls hlast).mpr (h done c later last hcalls hlast)

/-- Two readings, ten seconds apart. -/
def spaced : List Timeval := [⟨1700000000, 500, by decide⟩, ⟨1700000010, 500, by decide⟩]

theorem spaced_throttled : Throttled (calls .zero spaced) := by
  refine (throttled_iff spaced (by decide)).mpr fun done c later last hcalls hlast => ?_
  have hrun : calls .zero spaced
      = [⟨⟨1700000000, 500, by decide⟩, some 0⟩, ⟨⟨1700000010, 500, by decide⟩, some 0⟩] := by
    decide
  rw [hrun] at hcalls
  cases done with
  | nil => cases hlast
  | cons first done =>
      obtain ⟨rfl, htail⟩ := List.cons.inj hcalls
      cases done with
      | nil =>
          obtain ⟨rfl, -⟩ := List.cons.inj htail
          cases hlast
          simp [Mistimed, Wrapped]
      | cons second done => simp at htail

/-- Two readings, ten microseconds apart. -/
def burst : List Timeval := [⟨1700000000, 0, by decide⟩, ⟨1700000000, 10, by decide⟩]

/-- Both calls synchronise. -/
theorem burst_not_throttled :
    (burst.Pairwise fun s t => s.micros ≤ t.micros) ∧ ¬Throttled (calls .zero burst) := by
  refine ⟨by decide, fun h => ?_⟩
  obtain ⟨hfar, -⟩ := h [⟨⟨1700000000, 0, by decide⟩, some 0⟩]
    ⟨⟨1700000000, 10, by decide⟩, some 0⟩ [] ⟨1700000000, 0, by decide⟩ (by decide) (by decide)
  exact absurd (hfar rfl) (by decide)

end ConfigThrottle

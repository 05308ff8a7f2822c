import Dynamips.TimerTable

/-! The expiries that the timers are armed for: where they lie, and how one follows
from the other over the life of a timer. -/
set_option autoImplicit false

namespace Dynamips.Timer
open Runs

def CLOCK_MIN : Int := -2 ^ 63

def wallMs (clock : Readings) : Int := clock.wall.tdiv 1000000

/-- The clocks as the time zone `tz` reads them. -/
structure ClockOk (tz : Int) (clock : Readings) : Prop where
  steady : CLOCK_MIN ≤ clock.steady ∧ clock.steady ≤ CLOCK_MAX
  wall : CLOCK_MIN ≤ clock.wall ∧ clock.wall ≤ CLOCK_MAX
  gmtoff : clock.gmtoff = some tz

namespace Entry

def boundary (value : Entry) : Bool := value.flags &&& TIMER_BOUNDARY ≠ 0

/-- The recorded expiry, which counts up from below zero before the epoch. -/
def expireMs (value : Entry) : Int := Int.bmod value.expire (2 ^ 64)

def nextBase (value : Entry) (fromNow : Bool) (clock : Readings) : Int :=
  if fromNow ∨ value.boundary then clock.steady else value.deadline

def nextDelay (value : Entry) (tz : Int) (clock : Readings) : Int :=
  if value.boundary then
    value.interval - (wallMs clock + tz * 1000) % value.interval + value.offset
  else value.interval

def InRange (value : Entry) (fromNow : Bool) (tz : Int) (clock : Readings) : Prop :=
  value.nextBase fromNow clock + value.nextDelay tz clock * 1000000 ≤ CLOCK_MAX

instance (value : Entry) (fromNow : Bool) (tz : Int) (clock : Readings) :
    Decidable (value.InRange fromNow tz clock) := inferInstanceAs (Decidable (_ ≤ _))

def advanced (value : Entry) (fromNow : Bool) (tz : Int) (clock : Readings) : Entry :=
  { value with
    deadline := value.nextBase fromNow clock + value.nextDelay tz clock * 1000000
    expire := (((if fromNow ∨ value.boundary then wallMs clock else (value.expire : Int)) +
      value.nextDelay tz clock) % 2 ^ 64).toNat }

/-- The expiry is the offset away from a multiple of the interval in local time. -/
def Aligned (value : Entry) (tz : Int) : Prop :=
  (value.expireMs + tz * 1000 - value.offset) % value.interval = 0

structure Ok (value : Entry) (tz : Int) : Prop where
  interval : 0 < value.interval
  deadline : value.deadline ≤ CLOCK_MAX
  aligned : value.boundary → value.Aligned tz

def schedule (value : Entry) : Int × Nat × Nat × Bool × Int :=
  (value.interval, value.expire, value.offset, value.boundary, value.deadline)

end Entry

/-- What becomes of a timer: its callback returns, or its interval is set. -/
inductive LifeEvent where
  | returns (again : Int) (env : Env)
  | setInterval (interval : Int) (env : Env)

namespace LifeEvent

def clock : LifeEvent → Readings
  | returns _ env => env.clock
  | setInterval _ env => env.clock

def next (id : TimerId) (r : Ref) (t : Timers) : LifeEvent → Timers
  | returns again env => afterCallback t (r, (t.obj r).generation) again env
  | setInterval interval env => (Timer.setInterval t env id interval).1

/-- The timer goes on: a callback that asks for it returns, or the interval of the timer
under its id is set. -/
def Enabled (id : TimerId) (r : Ref) (t : Timers) : LifeEvent → Prop
  | returns again _ => ¬ (t.obj r).cancelled ∧ again ≠ 0
  | setInterval interval _ => t.find id = some r ∧ 0 < interval

/-- An expiry of a boundary timer lies in the future and is aligned. -/
def Scheduled (tz : Int) (clock : Readings) (value : Entry) : Prop :=
  clock.steady < value.deadline ∧ clock.wall < value.expireMs * 1000000 ∧ value.Aligned tz

def WithinInterval (value : Entry) (clock : Readings) : Prop :=
  value.expireMs ≤ wallMs clock ∧ wallMs clock < value.expireMs + value.interval

def Rearmed (tz : Int) (clock : Readings) (value value' : Entry) : Prop :=
  if value.boundary then
    Scheduled tz clock value' ∧
      (WithinInterval value clock → value'.expireMs = value.expireMs + value.interval)
  else
    value'.deadline = value.deadline + value.interval * 1000000 ∧
      value'.expire = (value.expire + value.interval.toNat) % 2 ^ 64

def Unchanged (value value' : Entry) : Prop :=
  value'.deadline = value.deadline ∧ value'.expire = value.expire

def Right (tz : Int) (id : TimerId) (r : Ref) (t : Timers) (e : LifeEvent) : Prop :=
  match e with
  | returns _ env =>
    if (t.obj r).InRange false tz env.clock then
      Rearmed tz env.clock (t.obj r) ((e.next id r t).obj r)
    else Unchanged (t.obj r) ((e.next id r t).obj r)
  | setInterval interval env =>
    if Entry.InRange { t.obj r with interval := interval } true tz env.clock then
      (t.obj r).boundary → Scheduled tz env.clock ((e.next id r t).obj r)
    else Unchanged (t.obj r) ((e.next id r t).obj r)

/-- A callback that returns within one interval of its expiry does so before the offset
has carried it past the next boundary. -/
def InTime (tz : Int) (r : Ref) (t : Timers) (e : LifeEvent) : Prop :=
  match e with
  | returns _ env =>
    (t.obj r).InRange false tz env.clock → (t.obj r).boundary →
      WithinInterval (t.obj r) env.clock →
        (t.obj r).offset + (wallMs env.clock - (t.obj r).expireMs) < (t.obj r).interval
  | setInterval _ _ => True

end LifeEvent

def LifeStep (id : TimerId) (r : Ref) (t : Timers) (e : LifeEvent) (t' : Timers) : Prop :=
  e.Enabled id r t ∧ t' = e.next id r t

variable {tz : Int} {clock : Readings} {value value' : Entry} {fromNow : Bool}

theorem phase_eq {interval : Int} (h : 0 < interval) (localMs : Int) :
    phase localMs interval = localMs % interval := by
  have hnonneg := Int.emod_nonneg localMs (Int.ne_of_gt h)
  have hlt := Int.emod_lt_of_pos localMs h
  simp only [phase, Int.tmod_eq_emod]
  by_cases hexact : 0 ≤ localMs ∨ interval ∣ localMs
  · rw [if_pos hexact]
    split <;> omega
  · rw [if_neg hexact]
    have habs : (interval.natAbs : Int) = interval := Int.natAbs_of_nonneg (by omega)
    rw [habs, if_pos (by omega)]
    omega

theorem tdiv_bounds (ns : Int) :
    ns < (ns.tdiv 1000000 + 1) * 1000000 ∧ (ns.tdiv 1000000 - 1) * 1000000 < ns := by
  rw [Int.tdiv_eq_ediv]
  split
  · omega
  · have hsign : Int.sign 1000000 = 1 := rfl
    omega

theorem lt_tdiv_iff {ns delay : Int} (h : 0 ≤ ns) :
    ns.tdiv 1000000 < delay ↔ ns < delay * 1000000 := by
  rw [Int.tdiv_eq_ediv_of_nonneg h]
  omega

theorem nextDelay_bounds (h : 0 < value.interval) : value.boundary = true →
    0 < value.nextDelay tz clock ∧ (value.offset : Int) < value.nextDelay tz clock := by
  intro hb
  have hlt := Int.emod_lt_of_pos (wallMs clock + tz * 1000) h
  rw [Entry.nextDelay, if_pos hb]
  omega

theorem boundary_iff : value.boundary = true ↔ value.flags &&& TIMER_BOUNDARY ≠ 0 := by
  simp [Entry.boundary]

theorem advance_eq (hi : 0 < value.interval) (hc : ClockOk tz clock)
    (hd : value.deadline ≤ CLOCK_MAX) :
    advance value fromNow clock =
      if value.InRange fromNow tz clock then .ok (value.advanced fromNow tz clock)
      else .error .invalidArgument := by
  have hbase : value.nextBase fromNow clock ≤ CLOCK_MAX := by
    rw [Entry.nextBase]
    split
    · exact hc.steady.2
    · exact hd
  have hroom := @lt_tdiv_iff (CLOCK_MAX - value.nextBase fromNow clock) (value.nextDelay tz clock)
    (by omega)
  have hrange : value.InRange fromNow tz clock ↔
      ¬ (CLOCK_MAX - value.nextBase fromNow clock).tdiv 1000000 < value.nextDelay tz clock := by
    rw [hroom, Entry.InRange]
    omega
  have hnonneg : 0 ≤ (CLOCK_MAX - value.nextBase fromNow clock).tdiv 1000000 :=
    Int.tdiv_nonneg (by omega) (by decide)
  generalize havail : (CLOCK_MAX - value.nextBase fromNow clock).tdiv 1000000 = available
    at hrange hnonneg
  rw [Entry.nextBase] at havail
  by_cases hb : value.boundary = true
  · have hflag := boundary_iff.mp hb
    have hbounds := @nextDelay_bounds tz clock _ hi hb
    rw [if_pos (Or.inr hb)] at havail
    have hdelay : value.nextDelay tz clock =
        value.interval - (wallMs clock + tz * 1000) % value.interval + value.offset := by
      rw [Entry.nextDelay, if_pos hb]
    simp only [advance, Int.not_le.mpr hi, if_false, hflag, ne_eq, not_false_eq_true, or_true,
      if_true, havail, hc.gmtoff, Option.map_some, phase_eq hi, true_and]
    rw [wallMs] at hdelay
    by_cases hr : value.InRange fromNow tz clock
    · rw [if_pos hr]
      rw [hrange] at hr
      rw [if_neg (by omega), if_neg (by omega)]
      simp [Entry.advanced, Entry.nextBase, hb, hdelay, wallMs]
    · rw [if_neg hr]
      rw [hrange] at hr
      split
      · rfl
      · rw [if_pos (by omega)]
  · have hflag : value.flags &&& TIMER_BOUNDARY = 0 := by
      by_contra hne
      exact hb (boundary_iff.mpr hne)
    have hdelay : value.nextDelay tz clock = value.interval := by rw [Entry.nextDelay, if_neg hb]
    rw [Bool.not_eq_true] at hb
    simp only [hb, Bool.false_eq_true, or_false] at havail
    simp only [advance, Int.not_le.mpr hi, if_false, hflag, ne_eq, not_true_eq_false, or_false,
      havail, false_and]
    by_cases hr : value.InRange fromNow tz clock
    · rw [if_pos hr]
      rw [hrange] at hr
      rw [if_neg (by omega)]
      cases fromNow <;> simp [Entry.advanced, Entry.nextBase, hb, hdelay, wallMs]
    · rw [if_neg hr]
      rw [hrange] at hr
      rw [if_pos (by omega)]

theorem bmod_toNat (x : Int) {n : Nat} (hn : 0 < n) :
    Int.bmod ((x % n).toNat : Int) n = Int.bmod x n := by
  rw [Int.toNat_of_nonneg (Int.emod_nonneg x (by omega))]
  exact Int.emod_bmod x n

theorem expireMs_advanced (hi : 0 < value.interval) (hc : ClockOk tz clock)
    (hb : value.boundary = true) (hr : value.InRange fromNow tz clock) :
    (value.advanced fromNow tz clock).expireMs = wallMs clock + value.nextDelay tz clock := by
  have hwall := tdiv_bounds clock.wall
  have hlow := hc.wall
  have hsteady := hc.steady
  have hpos := (@nextDelay_bounds tz clock _ hi hb).1
  rw [Entry.InRange, Entry.nextBase, if_pos (Or.inr hb)] at hr
  rw [← wallMs] at hwall
  simp only [CLOCK_MIN, CLOCK_MAX] at hr hlow hsteady
  unfold Entry.expireMs Entry.advanced
  rw [if_pos (Or.inr hb)]
  have hwrap := @bmod_toNat (wallMs clock + value.nextDelay tz clock) (2 ^ 64)
    (Nat.two_pow_pos 64)
  have hcast : ((2 ^ 64 : Nat) : Int) = 2 ^ 64 := Int.natCast_pow 2 64
  have hlarge : ((2 ^ 64 : Nat) : Int) = 18446744073709551616 := by decide
  have hsmall : Int.bmod (wallMs clock + value.nextDelay tz clock) (2 ^ 64) =
      wallMs clock + value.nextDelay tz clock :=
    Int.bmod_eq_of_le_mul_two (by rw [hlarge]; omega) (by rw [hlarge]; omega)
  rw [hcast, hsmall] at hwrap
  exact hwrap

theorem scheduled_advanced (hi : 0 < value.interval) (hc : ClockOk tz clock)
    (hb : value.boundary = true) (hr : value.InRange fromNow tz clock) :
    LifeEvent.Scheduled tz clock (value.advanced fromNow tz clock) := by
  have hexpire := expireMs_advanced hi hc hb hr
  have hpos := (@nextDelay_bounds tz clock _ hi hb).1
  have hwall := (tdiv_bounds clock.wall).1
  rw [← wallMs] at hwall
  refine ⟨?_, ?_, ?_⟩
  · simp only [Entry.advanced, Entry.nextBase, hb, or_true, if_true]
    omega
  · rw [hexpire]
    omega
  · have hsplit := Int.emod_add_mul_ediv (wallMs clock + tz * 1000) value.interval
    have hmul : wallMs clock + value.nextDelay tz clock + tz * 1000 - value.offset =
        value.interval * ((wallMs clock + tz * 1000) / value.interval + 1) := by
      rw [Entry.nextDelay, if_pos hb, Int.mul_add, Int.mul_one]
      omega
    rw [Entry.Aligned, hexpire]
    simp only [Entry.advanced, hmul, Int.mul_emod_right]

theorem advanced_next_iff (ok : value.Ok tz) (hc : ClockOk tz clock)
    (hb : value.boundary = true) (hr : value.InRange fromNow tz clock)
    (hlate : value.expireMs ≤ wallMs clock) :
    (value.advanced fromNow tz clock).expireMs = value.expireMs + value.interval ↔
      value.offset + (wallMs clock - value.expireMs) < value.interval := by
  have hi := ok.interval
  have haligned := ok.aligned hb
  rw [Entry.Aligned] at haligned
  have hsplit := Int.emod_add_mul_ediv (value.expireMs + tz * 1000 - value.offset) value.interval
  obtain ⟨late, hlateness⟩ : ∃ late : Int, late = value.offset + (wallMs clock - value.expireMs) :=
    ⟨_, rfl⟩
  have hlocal : wallMs clock + tz * 1000 = late + value.interval *
      ((value.expireMs + tz * 1000 - value.offset) / value.interval) := by omega
  have hphase : (wallMs clock + tz * 1000) % value.interval = late % value.interval := by
    rw [hlocal, Int.add_mul_emod_self_left]
  have hlt := Int.emod_lt_of_pos late hi
  rw [expireMs_advanced hi hc hb hr, Entry.nextDelay, if_pos hb, hphase, ← hlateness]
  constructor
  · intro h
    omega
  · intro h
    rw [Int.emod_eq_of_lt (by omega) h]
    omega

variable {t : Timers} {r : Ref} {id : TimerId}

theorem schedule_clearRunning : value.clearRunning.schedule = value.schedule := by
  have hmask : ~~~TIMER_RUNNING &&& TIMER_BOUNDARY = TIMER_BOUNDARY := by decide
  simp only [Entry.schedule, Entry.boundary, Entry.clearRunning, BitVec.and_assoc, hmask]

theorem schedule_cancel : value.cancel.schedule = value.schedule := rfl

theorem schedule_nextCycle : value.nextCycle.schedule = value.schedule := rfl

@[simp] theorem obj_setObj_self : (t.setObj r value).obj r = value := by simp [Timers.setObj]

theorem schedule_arm (fault : Option ArmFault) :
    ((arm t r fault).1.obj r).schedule = (t.obj r).schedule := by
  simp only [arm]
  split
  · rfl
  split
  · rfl
  cases fault with
  | none => simp [Timers.cancelWaits, schedule_nextCycle]
  | some fault => cases fault <;> simp [Timers.cancelWaits, schedule_nextCycle]

theorem schedule_retire : ((retire t r).obj r).schedule = (t.obj r).schedule := by
  simp [retire, Timers.erase, schedule_cancel, schedule_clearRunning]

theorem advanced_congr (h : value'.schedule = value.schedule) :
    (value'.InRange fromNow tz clock ↔ value.InRange fromNow tz clock) ∧
      (value'.advanced fromNow tz clock).schedule = (value.advanced fromNow tz clock).schedule := by
  simp only [Entry.schedule, Prod.mk.injEq] at h
  obtain ⟨hinterval, hexpire, hoffset, hboundary, hdeadline⟩ := h
  have hbase : value'.nextBase fromNow clock = value.nextBase fromNow clock := by
    simp only [Entry.nextBase, hboundary, hdeadline]
  have hdelay : value'.nextDelay tz clock = value.nextDelay tz clock := by
    simp only [Entry.nextDelay, hboundary, hinterval, hoffset]
  constructor
  · rw [Entry.InRange, Entry.InRange, hbase, hdelay]
  · have hflag : (value'.advanced fromNow tz clock).boundary =
        (value.advanced fromNow tz clock).boundary := hboundary
    simp only [Entry.schedule, hflag]
    simp only [Entry.advanced, hbase, hdelay, hboundary, hexpire, hinterval, hoffset]

theorem schedule_returns (ok : (t.obj r).Ok tz) {again : Int} {env : Env}
    (hc : ClockOk tz env.clock) (hlive : ¬ (t.obj r).cancelled) (hagain : again ≠ 0) :
    ((afterCallback t (r, (t.obj r).generation) again env).obj r).schedule =
      if (t.obj r).InRange false tz env.clock then
        ((t.obj r).advanced false tz env.clock).schedule
      else (t.obj r).schedule := by
  have hclear := @schedule_clearRunning (t.obj r)
  obtain ⟨hrange, hadv⟩ := @advanced_congr tz env.clock _ _ false hclear
  have hadvance : advance (t.obj r).clearRunning false env.clock = _ :=
    advance_eq ok.interval hc ok.deadline
  have hskip : ¬ ((t.obj r).clearRunning.cancelled ∨
      (t.obj r).generation ≠ (t.obj r).clearRunning.generation) := by
    simp [Entry.clearRunning, hlive]
  simp only [afterCallback, if_neg hskip, if_neg hagain, hadvance]
  by_cases hr : (t.obj r).InRange false tz env.clock
  · rw [if_pos hr, if_pos (hrange.mpr hr)]
    have harm := @schedule_arm ((t.setObj r (t.obj r).clearRunning).setObj r
      ((t.obj r).clearRunning.advanced false tz env.clock)) r env.arm
    rw [obj_setObj_self, hadv] at harm
    simp only
    split
    · rename_i t' e heq
      rw [schedule_retire]
      rwa [heq] at harm
    · rename_i t' heq
      rwa [heq] at harm
  · rw [if_neg hr, if_neg fun h => hr (hrange.mp h)]
    simp only
    rw [schedule_retire, obj_setObj_self, hclear]

theorem schedule_setInterval {interval : Int} {env : Env} (hc : ClockOk tz env.clock)
    (hfind : t.find id = some r) (hi : 0 < interval) (hd : (t.obj r).deadline ≤ CLOCK_MAX) :
    (((setInterval t env id interval).1.obj r).schedule) =
      if Entry.InRange { t.obj r with interval := interval } true tz env.clock then
        (Entry.advanced { t.obj r with interval := interval } true tz env.clock).schedule
      else (t.obj r).schedule := by
  have hadvance : advance { t.obj r with interval := interval } true env.clock = _ :=
    advance_eq hi hc hd
  simp only [setInterval, hfind, hadvance]
  by_cases hr : Entry.InRange { t.obj r with interval := interval } true tz env.clock
  · rw [if_pos hr, if_pos hr]
    have harm := @schedule_arm (t.setObj r
      (Entry.advanced { t.obj r with interval := interval } true tz env.clock)) r env.arm
    rw [obj_setObj_self] at harm
    simp only
    split
    · rename_i t' e heq
      rw [heq] at harm
      simpa [Timers.erase, schedule_cancel] using harm
    · rename_i t' heq
      rwa [heq] at harm
  · rw [if_neg hr, if_neg hr]

theorem Entry.Ok.congr (ok : value.Ok tz) (h : value'.schedule = value.schedule) :
    value'.Ok tz := by
  simp only [Entry.schedule, Prod.mk.injEq] at h
  obtain ⟨hinterval, hexpire, hoffset, hboundary, hdeadline⟩ := h
  refine ⟨by rw [hinterval]; exact ok.interval, by rw [hdeadline]; exact ok.deadline, fun hb => ?_⟩
  have haligned := ok.aligned (hboundary ▸ hb)
  unfold Entry.Aligned Entry.expireMs at haligned ⊢
  rwa [hinterval, hexpire, hoffset]

theorem Entry.Ok.advanced (hi : 0 < value.interval) (hc : ClockOk tz clock)
    (hr : value.InRange fromNow tz clock) : (value.advanced fromNow tz clock).Ok tz :=
  ⟨hi, hr, fun hb => (scheduled_advanced hi hc hb hr).2.2⟩

theorem ok_step {e : LifeEvent} {t' : Timers} (ok : (t.obj r).Ok tz) (hc : ClockOk tz e.clock)
    (hs : LifeStep id r t e t') : (t'.obj r).Ok tz := by
  obtain ⟨henabled, rfl⟩ := hs
  cases e with
  | returns again env =>
    have hnext := schedule_returns ok hc henabled.1 henabled.2
    by_cases hr : (t.obj r).InRange false tz env.clock
    · rw [if_pos hr] at hnext
      exact (Entry.Ok.advanced ok.interval hc hr).congr hnext
    · rw [if_neg hr] at hnext
      exact ok.congr hnext
  | setInterval interval env =>
    have hnext := schedule_setInterval hc henabled.1 henabled.2 ok.deadline
    by_cases hr : Entry.InRange { t.obj r with interval := interval } true tz env.clock
    · rw [if_pos hr] at hnext
      exact Entry.Ok.congr (Entry.Ok.advanced henabled.2 hc hr) hnext
    · rw [if_neg hr] at hnext
      exact ok.congr hnext

theorem unchanged_of_schedule (h : value'.schedule = value.schedule) :
    LifeEvent.Unchanged value value' := by
  simp only [Entry.schedule, Prod.mk.injEq] at h
  exact ⟨h.2.2.2.2, h.2.1⟩

theorem scheduled_congr (h : value'.schedule = value.schedule) :
    LifeEvent.Scheduled tz clock value' ↔ LifeEvent.Scheduled tz clock value := by
  simp only [Entry.schedule, Prod.mk.injEq] at h
  obtain ⟨hinterval, hexpire, hoffset, hboundary, hdeadline⟩ := h
  unfold LifeEvent.Scheduled Entry.Aligned Entry.expireMs
  rw [hinterval, hexpire, hoffset, hdeadline]

theorem right_iff {e : LifeEvent} (ok : (t.obj r).Ok tz) (hc : ClockOk tz e.clock)
    (henabled : e.Enabled id r t) : e.Right tz id r t ↔ e.InTime tz r t := by
  cases e with
  | returns again env =>
    have hnext := schedule_returns ok hc henabled.1 henabled.2
    simp only [LifeEvent.Right, LifeEvent.InTime, LifeEvent.next]
    by_cases hr : (t.obj r).InRange false tz env.clock
    · rw [if_pos hr] at hnext ⊢
      simp only [hr, true_implies]
      have hexpire : ((afterCallback t (r, (t.obj r).generation) again env).obj r).expire =
          ((t.obj r).advanced false tz env.clock).expire := (Prod.mk.inj (Prod.mk.inj hnext).2).1
      by_cases hb : (t.obj r).boundary = true
      · have hms : ((afterCallback t (r, (t.obj r).generation) again env).obj r).expireMs =
            ((t.obj r).advanced false tz env.clock).expireMs := by
          unfold Entry.expireMs
          rw [hexpire]
        have hscheduled := scheduled_advanced ok.interval hc hb hr
        rw [LifeEvent.Rearmed, if_pos hb, scheduled_congr hnext, hms]
        simp only [hb, true_implies]
        constructor
        · intro h hin
          exact (advanced_next_iff ok hc hb hr hin.1).mp (h.2 hin)
        · intro h
          exact ⟨hscheduled, fun hin => (advanced_next_iff ok hc hb hr hin.1).mpr (h hin)⟩
      · have hdeadline : ((afterCallback t (r, (t.obj r).generation) again env).obj r).deadline =
            ((t.obj r).advanced false tz env.clock).deadline :=
          (Prod.mk.inj (Prod.mk.inj (Prod.mk.inj (Prod.mk.inj hnext).2).2).2).2
        have hi := ok.interval
        rw [LifeEvent.Rearmed, if_neg hb, hexpire, hdeadline]
        simp only [hb, false_implies, iff_true, Bool.false_eq_true]
        simp only [Entry.advanced, Entry.nextBase, Entry.nextDelay, hb, if_false, or_false,
          Bool.false_eq_true, true_and]
        omega
    · rw [if_neg hr] at hnext ⊢
      simp only [hr, false_implies, iff_true]
      exact unchanged_of_schedule hnext
  | setInterval interval env =>
    have hnext := schedule_setInterval hc henabled.1 henabled.2 ok.deadline
    simp only [LifeEvent.Right, LifeEvent.InTime, LifeEvent.next, iff_true]
    by_cases hr : Entry.InRange { t.obj r with interval := interval } true tz env.clock
    · rw [if_pos hr] at hnext ⊢
      intro hb
      rw [scheduled_congr hnext]
      exact scheduled_advanced henabled.2 hc hb hr
    · rw [if_neg hr] at hnext ⊢
      exact unchanged_of_schedule hnext

def newEntry (t : Timers) (interval offset : Nat) (boundary : Bool) (level : Int)
    (callback userArg : Nat) : Entry :=
  { interval := interval, expire := 0, offset := offset, callback := callback,
    userArg := userArg, flags := if boundary then TIMER_BOUNDARY else 0, id := t.nextId,
    level := level, deadline := 0, generation := 0, cancelled := false }

variable {interval offset callback userArg : Nat} {boundary : Bool} {level : Int} {env : Env}

theorem boundary_newEntry :
    (newEntry t interval offset boundary level callback userArg).boundary = boundary := by
  cases boundary <;> simp [Entry.boundary, newEntry, TIMER_BOUNDARY]

theorem schedule_add {res : Option TimerId} {t' : Timers}
    (h : add t env interval offset boundary level callback userArg = (t', .ok res)) :
    ∃ value', advance (newEntry t interval offset boundary level callback userArg) true
      env.clock = .ok value' ∧ (t'.obj t.objCount).schedule = value'.schedule := by
  simp only [add] at h
  split at h
  · cases h
  split at h
  · cases h
  split at h
  · cases h
  rename_i value' hadvance
  split at h
  · cases h
  split at h
  · cases h
  split at h
  · cases h
  rename_i t'' harm
  cases h
  refine ⟨value', hadvance, ?_⟩
  have hsame := @schedule_arm { t.setObj t.objCount value' with
    objCount := t.objCount + 1, entries := (t.nextId, t.objCount) :: t.entries } t.objCount env.arm
  rw [harm] at hsame
  simpa [Timers.setObj] using hsame

theorem ok_add (hc : ClockOk tz env.clock) (hi : 0 < interval) {res : Option TimerId}
    {t' : Timers}
    (h : add t env interval offset boundary level callback userArg = (t', .ok res)) :
    (t'.obj t.objCount).Ok tz ∧
      (boundary = true → LifeEvent.Scheduled tz env.clock (t'.obj t.objCount)) := by
  obtain ⟨value', hadvance, hsame⟩ := schedule_add h
  have hinterval : 0 < (newEntry t interval offset boundary level callback userArg).interval :=
    Int.natCast_pos.mpr hi
  have hdeadline : (newEntry t interval offset boundary level callback userArg).deadline ≤
      CLOCK_MAX := show (0 : Int) ≤ CLOCK_MAX by decide
  rw [advance_eq hinterval hc hdeadline] at hadvance
  split at hadvance
  · rename_i hr
    cases hadvance
    refine ⟨(Entry.Ok.advanced hinterval hc hr).congr hsame, fun hb => ?_⟩
    rw [scheduled_congr hsame]
    exact scheduled_advanced hinterval hc (boundary_newEntry.trans hb) hr
  · cases hadvance

/-- Over the whole life of a timer its expiries are right exactly if its callbacks, where
they return within one interval of their expiry, are in time for the next one. -/
theorem expiries_right (t₀ t₁ t : Timers) (env : Env) (tz : Int) (interval offset : Nat)
    (boundary : Bool) (level : Int) (callback userArg : Nat) (id : TimerId)
    (trace : List (Timers × LifeEvent)) (hc : ClockOk tz env.clock) (hi : 0 < interval)
    (hadd : add t₀ env interval offset boundary level callback userArg = (t₁, .ok (some id)))
    (hrun : Run (LifeStep id t₀.objCount) t₁ trace t)
    (hclocks : AllSteps (fun _ e => ClockOk tz e.clock) trace) :
    (boundary = true → LifeEvent.Scheduled tz env.clock (t₁.obj t₀.objCount)) ∧
      (AllSteps (LifeEvent.Right tz id t₀.objCount) trace ↔
        AllSteps (LifeEvent.InTime tz t₀.objCount) trace) := by
  obtain ⟨hok, hfirst⟩ := ok_add hc hi hadd
  have halways := hrun.invariant
    (fun t e t' (ok : (t.obj t₀.objCount).Ok tz) hclock hs => ok_step ok hclock hs) hok hclocks
  have henabled : AllSteps (fun t e => e.Enabled id t₀.objCount t) trace := by
    intro x hx
    obtain ⟨pre, post, rfl⟩ := List.append_of_mem hx
    obtain ⟨-, t', hstep⟩ := hrun.split
    exact hstep.1
  refine ⟨hfirst, ?_⟩
  constructor
  · intro h x hx
    exact (right_iff (halways.2 x hx) (hclocks x hx) (henabled x hx)).mp (h x hx)
  · intro h x hx
    exact (right_iff (halways.2 x hx) (hclocks x hx) (henabled x hx)).mpr (h x hx)

def envAt (ms : Int) : Env := ⟨⟨ms * 1000000, ms * 1000000, some 0⟩, none, none, none, none⟩

def halfPast : Timers := (add initial.timers (envAt 0) 1000 500 true 0 1 0).1

theorem clockOk_envAt {ms : Int} (hlow : 0 ≤ ms) (hhigh : ms ≤ 1000000) :
    ClockOk 0 (envAt ms).clock := by
  simp only [envAt]
  constructor
  · simp only [CLOCK_MIN, CLOCK_MAX]
    omega
  · simp only [CLOCK_MIN, CLOCK_MAX]
    omega
  · rfl

theorem lifeStep_halfPast (ms : Int) : LifeStep 1 0 halfPast (.returns 1 (envAt ms))
    (afterCallback halfPast (0, (halfPast.obj 0).generation) 1 (envAt ms)) :=
  ⟨⟨by decide, by decide⟩, rfl⟩

theorem expiries_right_halfPast :
    (true = true → LifeEvent.Scheduled 0 (envAt 0).clock (halfPast.obj 0)) ∧
      (AllSteps (LifeEvent.Right 0 1 0) [(halfPast, .returns 1 (envAt 1600))] ↔
        AllSteps (LifeEvent.InTime 0 0) [(halfPast, .returns 1 (envAt 1600))]) :=
  expiries_right initial.timers halfPast _ (envAt 0) 0 1000 500 true 0 1 0 1 _
    (clockOk_envAt (by decide) (by decide)) (by decide) (by rfl)
    (Run.next Run.start (lifeStep_halfPast 1600)) fun x hx => by
      rw [List.mem_singleton.mp hx]
      exact clockOk_envAt (by decide) (by decide)

/-- A callback that returns six tenths of a second after its expiry. -/
theorem not_expiries_right :
    Run (LifeStep 1 0) halfPast [(halfPast, .returns 1 (envAt 2100))]
      (afterCallback halfPast (0, (halfPast.obj 0).generation) 1 (envAt 2100)) ∧
    LifeEvent.WithinInterval (halfPast.obj 0) (envAt 2100).clock ∧
    ¬ AllSteps (LifeEvent.Right 0 1 0) [(halfPast, .returns 1 (envAt 2100))] := by
  have hwithin : LifeEvent.WithinInterval (halfPast.obj 0) (envAt 2100).clock := by
    unfold LifeEvent.WithinInterval
    decide
  have hc := @clockOk_envAt 2100 (by decide) (by decide)
  have hok : (halfPast.obj 0).Ok 0 :=
    (@ok_add 0 initial.timers _ _ _ _ _ _ (envAt 0) (clockOk_envAt (by decide) (by decide))
      (by decide) _ _ (show add initial.timers (envAt 0) 1000 500 true 0 1 0 =
        (halfPast, .ok (some 1)) by rfl)).1
  refine ⟨Run.next Run.start (lifeStep_halfPast 2100), hwithin, fun h => ?_⟩
  have hiff : LifeEvent.Right 0 1 0 halfPast (.returns 1 (envAt 2100)) ↔
      LifeEvent.InTime 0 0 halfPast (.returns 1 (envAt 2100)) :=
    right_iff hok hc (lifeStep_halfPast 2100).1
  have hlate := hiff.mp (h _ (List.mem_singleton.mpr rfl)) (by decide) (by decide) hwithin
  revert hlate
  decide

end Dynamips.Timer

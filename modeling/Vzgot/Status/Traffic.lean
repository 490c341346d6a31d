import Mathlib.Algebra.Order.Field.Rat
import Mathlib.Tactic.FieldSimp
import Mathlib.Tactic.LinearCombination
import Mathlib.Tactic.Push
import Mathlib.Tactic.Ring
import Vzgot.Status.Update

/-!
# The speed of an interface

`collect_count` divides the bytes since the last reading of a counter by `delta_t`, the
time since the last update that got as far as the clock. The two go together only while
no update fails between the two readings; a count of zero is taken for no reading, and
the difference to a counter that has restarted wraps around. The speed is right exactly
where none of this matters (`traffic_right_iff`).
-/

set_option autoImplicit false

namespace Vzgot.Status

/-! ## Attempts and readings -/

/-- One call of `sys_update_cont_status`, and which interfaces have been created again
since the call before it. -/
structure Attempt where
  update : UpdateCalls
  recreated : CpuEnu → Bool

/-- The static variables and the record behind the attempts, newest first. -/
def after (start : LoadStatic × StaTyp) : List Attempt → LoadStatic × StaTyp
  | [] => start
  | a :: earlier =>
      let s := after start earlier
      (sysUpdateContStatus s.1 s.2 a.update).2

/-- A record as `sys_new_cont_status` leaves it: nothing is counted. -/
def StaTyp.Fresh (s : StaTyp) : Prop := ∀ c b, s.traffic c b = ⟨0, 0⟩

/-- The counter and the time, where the attempt comes to the counter and reads it. -/
def Attempt.reading (a : Attempt) (c : CpuEnu) (b : Band) : Option (UVlong × Rat) :=
  a.update.clock.bind fun t =>
    a.update.users.bind fun _ => (a.update.counters c b).map fun v => (v, t.seconds)

/-- An earlier reading of a counter; `restarted` says that the interface was created
again since. -/
structure Reading where
  count : UVlong
  time : Rat
  restarted : Bool

/-- The last reading of the counter. -/
def previous (c : CpuEnu) (b : Band) : List Attempt → Option Reading
  | [] => none
  | a :: earlier =>
      match a.reading c b with
      | some x => some ⟨x.1, x.2, false⟩
      | none => (previous c b earlier).map fun r =>
          { r with restarted := r.restarted || a.recreated c }

/-- Time of the last attempt that got as far as the clock. -/
def lastClock (start : Rat) : List Attempt → Rat
  | [] => start
  | a :: earlier => (a.update.clock.map TimeTic.seconds).getD (lastClock start earlier)

/-- The clock goes on between two attempts. -/
def Ticking (start : Rat) : List Attempt → Prop
  | [] => True
  | a :: earlier =>
      (∀ t ∈ a.update.clock, lastClock start earlier < t.seconds) ∧ Ticking start earlier

/-- The counter does not fall unless its interface is created again. -/
def Growing (c : CpuEnu) (b : Band) : List Attempt → Prop
  | [] => True
  | a :: earlier =>
      (∀ x ∈ a.reading c b, ∀ r ∈ previous c b earlier,
        (r.restarted || a.recreated c) = false → r.count ≤ x.1) ∧ Growing c b earlier

/-- With the reading `r` before it, the reading `x` of a counter leaves a speed that is
right: bytes by time, and behind a restart at most what was counted since. -/
def Reading.SpeedRight (r : Reading) (recreated : Bool) (x : UVlong × Rat) (speed : Rat) : Prop :=
  if r.restarted || recreated then speed ≤ x.1.toNat / (x.2 - r.time)
  else speed = (x.1.toNat - r.count.toNat) / (x.2 - r.time)

/-- Every reading that follows another one leaves a right speed. -/
def AllRight (start : LoadStatic × StaTyp) (c : CpuEnu) (b : Band) : List Attempt → Prop
  | [] => True
  | a :: earlier =>
      (∀ x ∈ a.reading c b, ∀ r ∈ previous c b earlier,
        r.SpeedRight (a.recreated c) x ((after start (a :: earlier)).2.traffic c b).speed) ∧
      AllRight start c b earlier

/-- The reading `x` is no trap with the reading `r` before it and the clock last read at
`base`: without a restart nothing was counted, or the count was not zero and no attempt
read the clock since; behind a restart the count was zero, or the counter has passed it
and grown slowly enough. -/
def Reading.Steady (r : Reading) (recreated : Bool) (x : UVlong × Rat) (base : Rat) : Prop :=
  if r.restarted || recreated then
    r.count = 0 ∨ (r.count ≤ x.1 ∧
      ((x.1.toNat : Rat) - r.count.toNat) * (x.2 - r.time) ≤ x.1.toNat * (x.2 - base))
  else x.1 = r.count ∨ (r.count ≠ 0 ∧ base = r.time)

/-- No reading is a trap. -/
def AllSteady (start : Rat) (c : CpuEnu) (b : Band) : List Attempt → Prop
  | [] => True
  | a :: earlier =>
      (∀ x ∈ a.reading c b, ∀ r ∈ previous c b earlier,
        r.Steady (a.recreated c) x (lastClock start earlier)) ∧ AllSteady start c b earlier

instance (r : Reading) (recreated : Bool) (x : UVlong × Rat) (speed : Rat) :
    Decidable (r.SpeedRight recreated x speed) :=
  inferInstanceAs (Decidable (if r.restarted || recreated then
    speed ≤ (x.1.toNat : Rat) / (x.2 - r.time)
    else speed = ((x.1.toNat : Rat) - r.count.toNat) / (x.2 - r.time)))

instance (r : Reading) (recreated : Bool) (x : UVlong × Rat) (base : Rat) :
    Decidable (r.Steady recreated x base) :=
  inferInstanceAs (Decidable (if r.restarted || recreated then
    r.count = 0 ∨ (r.count ≤ x.1 ∧
      ((x.1.toNat : Rat) - r.count.toNat) * (x.2 - r.time) ≤ x.1.toNat * (x.2 - base))
    else x.1 = r.count ∨ (r.count ≠ 0 ∧ base = r.time)))

instance decidableTicking (start : Rat) : (as : List Attempt) → Decidable (Ticking start as)
  | [] => isTrue trivial
  | _ :: earlier => @instDecidableAnd _ _ _ (decidableTicking start earlier)

instance decidableGrowing (c : CpuEnu) (b : Band) : (as : List Attempt) → Decidable (Growing c b as)
  | [] => isTrue trivial
  | _ :: earlier => @instDecidableAnd _ _ _ (decidableGrowing c b earlier)

instance decidableAllRight (start : LoadStatic × StaTyp) (c : CpuEnu) (b : Band) :
    (as : List Attempt) → Decidable (AllRight start c b as)
  | [] => isTrue trivial
  | _ :: earlier => @instDecidableAnd _ _ _ (decidableAllRight start c b earlier)

instance decidableAllSteady (start : Rat) (c : CpuEnu) (b : Band) :
    (as : List Attempt) → Decidable (AllSteady start c b as)
  | [] => isTrue trivial
  | _ :: earlier => @instDecidableAnd _ _ _ (decidableAllSteady start c b earlier)

/-! ## One update -/

theorem tick_deltaT (s : StaTyp) (cur : TimeTic) :
    (s.tick cur).deltaT = cur.seconds - s.lastTime.seconds := by
  simp only [StaTyp.tick, TimeTic.seconds]
  push_cast
  ring

/-- The load average leaves the traffic and the time alone. -/
theorem sysCalLoadavg_frame (st : LoadStatic) (s : StaTyp) (r : LoadCalls) :
    (sysCalLoadavg st s r).2.2.traffic = s.traffic ∧
      (sysCalLoadavg st s r).2.2.lastTime = s.lastTime ∧
      (sysCalLoadavg st s r).2.2.deltaT = s.deltaT := by
  unfold sysCalLoadavg
  split
  · exact ⟨rfl, rfl, rfl⟩
  · split
    · exact ⟨rfl, rfl, rfl⟩
    · split
      · exact ⟨rfl, rfl, rfl⟩
      · cases r.pidsCurrent <;> exact ⟨rfl, rfl, rfl⟩

theorem update_lastTime (st : LoadStatic) (s : StaTyp) (u : UpdateCalls) :
    (sysUpdateContStatus st s u).2.2.lastTime = u.clock.getD s.lastTime := by
  unfold sysUpdateContStatus
  cases u.clock with
  | none => rfl
  | some cur =>
      cases u.users with
      | none => rfl
      | some n => exact (sysCalLoadavg_frame ..).2.1

/-- An update that comes to the counters. -/
theorem update_collects (st : LoadStatic) (s : StaTyp) {u : UpdateCalls} {cur : TimeTic} {n : Nat}
    (hclock : u.clock = some cur) (husers : u.users = some n) (c : CpuEnu) (b : Band) :
    (sysUpdateContStatus st s u).2.2.traffic c b =
      (collectCount (s.traffic c b) (u.counters c b) (cur.seconds - s.lastTime.seconds)).2 := by
  obtain ⟨s₁, hs₁⟩ : ∃ s₁ : StaTyp, s₁ = { s.tick cur with nbruser := n, cpuinf := u.cpuinf } :=
    ⟨_, rfl⟩
  have htraffic : s₁.traffic = s.traffic := by rw [hs₁]; rfl
  have hdelta : s₁.deltaT = cur.seconds - s.lastTime.seconds := by
    rw [hs₁]
    exact tick_deltaT s cur
  have heq : (sysUpdateContStatus st s u).2.2.traffic c b =
      (collectCount ((sysCalLoadavg st s₁ u.load).2.2.traffic c b) (u.counters c b)
        (sysCalLoadavg st s₁ u.load).2.2.deltaT).2 := by
    simp only [sysUpdateContStatus, hclock, husers, hs₁]
    rfl
  obtain ⟨hframe, -, hframe'⟩ := sysCalLoadavg_frame st s₁ u.load
  rw [heq, hframe, hframe', htraffic, hdelta]

/-- What an attempt leaves of a counter. -/
theorem update_traffic (st : LoadStatic) (s : StaTyp) (a : Attempt) (c : CpuEnu) (b : Band) :
    (sysUpdateContStatus st s a.update).2.2.traffic c b =
      match a.reading c b with
      | none => s.traffic c b
      | some x => (collectCount (s.traffic c b) (some x.1) (x.2 - s.lastTime.seconds)).2 := by
  unfold Attempt.reading
  cases hclock : a.update.clock with
  | none => simp [sysUpdateContStatus, hclock]
  | some cur =>
      cases husers : a.update.users with
      | none => simp [sysUpdateContStatus, hclock, husers, StaTyp.tick]
      | some n =>
          rw [update_collects st s hclock husers]
          cases a.update.counters c b <;> rfl

/-! ## What the record holds -/

section Runs

variable {start : LoadStatic × StaTyp} {c : CpuEnu} {b : Band}

/-- The record holds the last count and the last time of the clock; without a reading the
speed is zero. -/
structure Tracked (start : LoadStatic × StaTyp) (c : CpuEnu) (b : Band) (as : List Attempt) :
    Prop where
  time : (after start as).2.lastTime.seconds = lastClock start.2.lastTime.seconds as
  count : ((after start as).2.traffic c b).cumulated = ((previous c b as).map Reading.count).getD 0
  unread : previous c b as = none → ((after start as).2.traffic c b).speed = 0
  nonneg : 0 ≤ ((after start as).2.traffic c b).speed

theorem after_time (as : List Attempt) :
    (after start as).2.lastTime.seconds = lastClock start.2.lastTime.seconds as := by
  induction as with
  | nil => rfl
  | cons a earlier ih =>
      rw [after, lastClock, update_lastTime]
      cases a.update.clock with
      | none => exact ih
      | some t => rfl

theorem previous_time {as : List Attempt} (hticking : Ticking start.2.lastTime.seconds as)
    {r : Reading} (hr : previous c b as = some r) :
    r.time ≤ lastClock start.2.lastTime.seconds as := by
  induction as generalizing r with
  | nil => cases hr
  | cons a earlier ih =>
      rw [previous] at hr
      cases hx : a.reading c b with
      | some x =>
          rw [hx] at hr
          cases hr
          rw [lastClock]
          unfold Attempt.reading at hx
          cases hclock : a.update.clock with
          | none => simp [hclock] at hx
          | some t =>
              simp only [hclock, Option.bind_some, Option.bind_eq_some_iff, Option.map_eq_some_iff] at hx
              obtain ⟨n, -, v, -, rfl⟩ := hx
              exact le_refl _
      | none =>
          -- the reading is an earlier one, and the clock has gone on since
          simp only [hx, Option.map_eq_some_iff] at hr
          obtain ⟨r', hr', rfl⟩ := hr
          refine (ih hticking.2 hr').trans ?_
          rw [lastClock]
          cases hclock : a.update.clock with
          | none => exact le_refl _
          | some t => exact (hticking.1 t hclock).le

theorem reading_clock {a : Attempt} {x : UVlong × Rat} (hx : a.reading c b = some x) :
    ∃ t, a.update.clock = some t ∧ x.2 = t.seconds := by
  unfold Attempt.reading at hx
  simp only [Option.bind_eq_some_iff, Option.map_eq_some_iff] at hx
  obtain ⟨t, ht, n, -, v, -, rfl⟩ := hx
  exact ⟨t, ht, rfl⟩

/-- The clock has gone on at a reading. -/
theorem lastClock_lt {a : Attempt} {earlier : List Attempt} {base : Rat}
    (hticking : Ticking base (a :: earlier)) {x : UVlong × Rat} (hx : a.reading c b = some x) :
    lastClock base earlier < x.2 := by
  obtain ⟨t, ht, heq⟩ := reading_clock hx
  rw [heq]
  exact hticking.1 t ht

/-- What a further attempt leaves of a counter. -/
theorem after_traffic (a : Attempt) (earlier : List Attempt) :
    (after start (a :: earlier)).2.traffic c b =
      match a.reading c b with
      | none => (after start earlier).2.traffic c b
      | some x => (collectCount ((after start earlier).2.traffic c b) (some x.1)
          (x.2 - lastClock start.2.lastTime.seconds earlier)).2 := by
  rw [after, update_traffic, after_time]

theorem tracked (hfresh : start.2.Fresh) {as : List Attempt}
    (hticking : Ticking start.2.lastTime.seconds as) : Tracked start c b as := by
  induction as with
  | nil =>
      have hzero := hfresh c b
      refine ⟨rfl, ?_, fun _ => ?_, ?_⟩
      · rw [after, hzero]
        rfl
      · rw [after, hzero]
      · rw [after, hzero]
  | cons a earlier ih =>
      have hearlier := ih hticking.2
      cases hx : a.reading c b with
      | none =>
          refine ⟨after_time _, ?_, fun hnone => ?_, ?_⟩
          · simp only [after_traffic, previous, hx, hearlier.count, Option.map_map]
            rfl
          · simp only [previous, hx, Option.map_eq_none_iff] at hnone
            simpa only [after_traffic, hx] using hearlier.unread hnone
          · simpa only [after_traffic, hx] using hearlier.nonneg
      | some x =>
          have hlt := lastClock_lt hticking hx
          refine ⟨after_time _, ?_, fun hnone => ?_, ?_⟩
          · simp only [after_traffic, previous, hx, collectCount]
            split <;> rfl
          · simp [previous, hx] at hnone
          · simp only [after_traffic, hx, collectCount]
            split
            · exact hearlier.nonneg
            · exact div_nonneg (Nat.cast_nonneg _) (sub_nonneg.mpr hlt.le)

/-! ## One reading -/

/-- With the time of the last reading and the last time of the clock in order, a reading
leaves a right speed exactly when it is no trap. -/
theorem speedRight_iff_steady {r : Reading} {recreated : Bool} {x : UVlong × Rat} {base : Rat}
    {t : BanTyp} (hcount : t.cumulated = r.count) (hzero : t.cumulated = 0 → t.speed = 0)
    (htime : r.time ≤ base) (hbase : base < x.2)
    (hgrow : (r.restarted || recreated) = false → r.count ≤ x.1) :
    r.SpeedRight recreated x (collectCount t (some x.1) (x.2 - base)).2.speed ↔
      r.Steady recreated x base := by
  have hdt : 0 < x.2 - base := sub_pos.mpr hbase
  have helapsed : 0 < x.2 - r.time := sub_pos.mpr (htime.trans_lt hbase)
  by_cases hnone : r.count = 0
  · -- the count is taken for no reading: the speed stays zero
    have hspeed : (collectCount t (some x.1) (x.2 - base)).2.speed = 0 := by
      simp only [collectCount, hcount, hnone, if_true]
      exact hzero (hcount.trans hnone)
    rw [hspeed, Reading.SpeedRight, Reading.Steady, hnone]
    split
    · exact iff_of_true (div_nonneg (Nat.cast_nonneg _) helapsed.le) (.inl rfl)
    · rw [eq_comm, div_eq_zero_iff, or_iff_left helapsed.ne']
      simp [BitVec.toNat_eq]
  · have hspeed : (collectCount t (some x.1) (x.2 - base)).2.speed =
        (x.1 - r.count).toNat / (x.2 - base) := by
      simp only [collectCount, hcount, hnone, if_false]
    rw [hspeed, Reading.SpeedRight, Reading.Steady]
    by_cases hle : r.count ≤ x.1
    · have hsub : (((x.1 - r.count).toNat : Nat) : Rat) = x.1.toNat - r.count.toNat := by
        rw [BitVec.toNat_sub_of_le hle, Nat.cast_sub (BitVec.le_def.mp hle)]
      rw [hsub]
      split
      · rw [or_iff_right hnone, and_iff_right hle, div_le_div_iff₀ hdt helapsed]
      · rw [div_eq_div_iff hdt.ne' helapsed.ne', mul_eq_mul_left_iff, and_iff_right hnone, or_comm]
        refine or_congr ?_ ?_
        · rw [sub_eq_zero, Nat.cast_inj, BitVec.toNat_inj]
        · constructor
          · intro h
            linear_combination h
          · rintro rfl
            rfl
    · -- the counter has restarted below the last count: the difference wraps around
      have hrestart : (r.restarted || recreated) = true := by
        by_contra hno
        exact hle (hgrow (Bool.not_eq_true _ ▸ hno))
      have hwrap : x.1.toNat < (x.1 - r.count).toNat := by
        have hlt : x.1.toNat < r.count.toNat := by simpa [BitVec.le_def] using hle
        have hbound := r.count.isLt
        rw [BitVec.toNat_sub]
        omega
      rw [if_pos hrestart, if_pos hrestart]
      refine iff_of_false (not_le.mpr ?_) ?_
      · calc (x.1.toNat : Rat) / (x.2 - r.time)
            ≤ x.1.toNat / (x.2 - base) :=
              div_le_div_of_nonneg_left (Nat.cast_nonneg _) hdt (sub_le_sub_left htime _)
          _ < (x.1 - r.count).toNat / (x.2 - base) :=
              div_lt_div_of_pos_right (Nat.cast_lt.mpr hwrap) hdt
      · rintro (hzero' | ⟨hle', -⟩)
        · exact hnone hzero'
        · exact hle hle'

/-- A right speed is zero where the counter stands at zero. -/
theorem SpeedRight.eq_zero {r : Reading} {recreated : Bool} {x : UVlong × Rat} {base : Rat}
    {t : BanTyp} (hcount : t.cumulated = r.count) (hzero : t.cumulated = 0 → t.speed = 0)
    (hnonneg : 0 ≤ (collectCount t (some x.1) (x.2 - base)).2.speed)
    (hgrow : (r.restarted || recreated) = false → r.count ≤ x.1)
    (h : r.SpeedRight recreated x (collectCount t (some x.1) (x.2 - base)).2.speed)
    (hx : x.1 = 0) : (collectCount t (some x.1) (x.2 - base)).2.speed = 0 := by
  rw [Reading.SpeedRight] at h
  split at h
  · refine le_antisymm (h.trans_eq ?_) hnonneg
    simp [hx]
  · rename_i hsame
    have hle : r.count ≤ 0 := hx ▸ hgrow (by simpa using hsame)
    have hnone : t.cumulated = 0 := hcount.trans (BitVec.le_zero_iff.mp hle)
    simp only [collectCount, hnone, if_true]
    exact hzero hnone

/-! ## Runs -/

/-- While all speeds are right, the speed of a counter that stands at zero is zero. -/
theorem AllRight.eq_zero (hfresh : start.2.Fresh) {as : List Attempt}
    (hticking : Ticking start.2.lastTime.seconds as) (hgrow : Growing c b as)
    (h : AllRight start c b as) (hzero : ((after start as).2.traffic c b).cumulated = 0) :
    ((after start as).2.traffic c b).speed = 0 := by
  induction as with
  | nil => rw [after, hfresh c b]
  | cons a earlier ih =>
      have hearlier := tracked (c := c) (b := b) hfresh hticking.2
      have hspeed := ih hticking.2 hgrow.2 h.2
      rw [after_traffic] at hzero ⊢
      cases hx : a.reading c b with
      | none =>
          rw [hx] at hzero
          exact hspeed hzero
      | some x =>
          simp only [hx] at hzero ⊢
          have hxzero : x.1 = 0 := by
            simp only [collectCount] at hzero
            split at hzero <;> exact hzero
          cases hr : previous c b earlier with
          | none =>
              -- the first reading: its count is stored, and no speed is computed
              have hnone : ((after start earlier).2.traffic c b).cumulated = 0 := by
                rw [hearlier.count, hr]
                rfl
              simp only [collectCount, hnone, if_true]
              exact hearlier.unread hr
          | some r =>
              have hright := h.1 x hx r hr
              simp only [after_traffic, hx] at hright
              have hnonneg := (tracked (c := c) (b := b) hfresh hticking).nonneg
              simp only [after_traffic, hx] at hnonneg
              have hcount : ((after start earlier).2.traffic c b).cumulated = r.count := by
                rw [hearlier.count, hr]
                rfl
              exact SpeedRight.eq_zero hcount hspeed hnonneg (hgrow.1 x hx r hr) hright hxzero

/-- Along a run all speeds of a counter are right exactly when no reading is a trap. -/
theorem allRight_iff_allSteady (hfresh : start.2.Fresh) {as : List Attempt}
    (hticking : Ticking start.2.lastTime.seconds as) (hgrow : Growing c b as) :
    AllRight start c b as ↔ AllSteady start.2.lastTime.seconds c b as := by
  induction as with
  | nil => exact Iff.rfl
  | cons a earlier ih =>
      rw [AllRight, AllSteady, ← ih hticking.2 hgrow.2]
      -- the earlier speeds are needed: a zero count keeps the speed that stands there
      refine and_congr_left fun hall => forall₂_congr fun x hx => forall₂_congr fun r hr => ?_
      have hcount : ((after start earlier).2.traffic c b).cumulated = r.count := by
        rw [(tracked hfresh hticking.2).count, Option.mem_def.mp hr]
        rfl
      simp only [after_traffic, Option.mem_def.mp hx]
      exact speedRight_iff_steady hcount (AllRight.eq_zero hfresh hticking.2 hgrow.2 hall)
        (previous_time hticking.2 hr) (lastClock_lt hticking hx) (hgrow.1 x hx r hr)

end Runs

/-- From a new record on, with the clock going on and the counters growing between
re-creations of their interfaces, the speeds of all counters are right after every reading
if and only if no reading of any counter is a trap. -/
theorem traffic_right_iff {start : LoadStatic × StaTyp} (hfresh : start.2.Fresh)
    {as : List Attempt} (hticking : Ticking start.2.lastTime.seconds as)
    (hgrow : ∀ c b, Growing c b as) :
    (∀ c b, AllRight start c b as) ↔ ∀ c b, AllSteady start.2.lastTime.seconds c b as :=
  forall₂_congr fun c b => allRight_iff_allSteady hfresh hticking (hgrow c b)

/-- A new record at time zero. -/
def newStatus : LoadStatic × StaTyp :=
  (.zero, {
    lastTime := ⟨0, 0⟩
    deltaT := 0
    nbruser := 0
    lastPid := 0
    pidsCurrent := 0
    cpuinf := fun _ => ⟨0, 0⟩
    traffic := fun _ _ => ⟨0, 0⟩ })

/-- An attempt at the second `sec` that reads the received bytes of the host, unless the
users cannot be counted. -/
def attemptAt (sec : Int) (users : Option Nat) (count : UVlong) : Attempt where
  update :=
    { clock := some ⟨sec, 0⟩
      users := users
      cpuinf := fun _ => ⟨0, 0⟩
      load := ⟨none, none, none⟩
      counters := fun c b => if c = .host ∧ b = .rx then some count else none }
  recreated := fun _ => false

/-- Two hundred bytes in two seconds. -/
theorem traffic_right_pair :
    (∀ c b, AllRight newStatus c b [attemptAt 3 (some 0) 300, attemptAt 1 (some 0) 100]) ∧
      ((after newStatus [attemptAt 3 (some 0) 300, attemptAt 1 (some 0) 100]).2.traffic
        .host .rx).speed = 100 := by
  refine ⟨(traffic_right_iff (fun _ _ => rfl) (by decide +kernel) ?_).mpr ?_, by decide +kernel⟩
  · intro c b
    cases c <;> cases b <;> decide +kernel
  · intro c b
    cases c <;> cases b <;> decide +kernel

/-- The users could not be counted in between: 200 bytes in two seconds are shown as 200 a
second. -/
theorem traffic_wrong_behind_failure :
    Ticking 0 [attemptAt 4 (some 0) 300, attemptAt 3 none 0, attemptAt 2 (some 0) 100] ∧
      (∀ c b, Growing c b
        [attemptAt 4 (some 0) 300, attemptAt 3 none 0, attemptAt 2 (some 0) 100]) ∧
      ((after newStatus [attemptAt 4 (some 0) 300, attemptAt 3 none 0,
        attemptAt 2 (some 0) 100]).2.traffic .host .rx).speed = 200 ∧
      ¬ AllRight newStatus .host .rx
        [attemptAt 4 (some 0) 300, attemptAt 3 none 0, attemptAt 2 (some 0) 100] := by
  refine ⟨by decide +kernel, ?_, by decide +kernel, by decide +kernel⟩
  intro c b
  cases c <;> cases b <;> decide +kernel

end Vzgot.Status

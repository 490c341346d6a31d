import Vzgot.Monitor.Mounts

/-!
# The monitor and a healthy container

In a healthy container every special file that exists is bound already, so no pass has
anything to mount. The monitor is to go on, and to spend no credit. `sys_check_remount`
reports a file that is missing like one that it had to mount, so a credit is spent for
every missing file in every pass (`doCheckMounts_bound`): the monitor is right exactly
when no file and no source is ever missing (`monitor_healthy_iff`).
-/

set_option autoImplicit false

open Vzgot.Transition

namespace Vzgot.Monitor

/-- Devices of the table. -/
def devices : List DevEnum := specdevs.map Prod.snd

/-- Path of the file that is bound on the special file. -/
def sourceOf : DevEnum → List Char
  | .cpuinfo => "/dev/cpuinfo".toList
  | .loadavg => "/dev/loadavg".toList
  | .meminfo => "/dev/meminfo".toList
  | .swaps => "/dev/swaps".toList
  | _ => "/dev/null".toList

/-- Path of the special file. -/
def targetOf (dev : DevEnum) : List Char := "/proc/".toList ++ devName dev.ndx

/-- If the special file exists, it is its source, or a tmpfs for a directory. -/
def Bound (p : Pass) (dev : DevEnum) : Prop :=
  ∀ target, p.stat (targetOf dev) = some target →
    if target.dir then p.tmpfs (targetOf dev) = some true
    else ∃ source, p.stat (sourceOf dev) = some source ∧
      source.dev = target.dev ∧ source.ino = target.ino

/-- The special file and its source exist. -/
def Found (p : Pass) (dev : DevEnum) : Prop :=
  (p.stat (sourceOf dev)).isSome ∧ (p.stat (targetOf dev)).isSome

/-- The pass returns true, and asks a credit only for a mount. -/
def Report.Healthy (r : Report) : Prop := r.isok = true ∧ (0 < r.credits → 0 < r.mounts)

instance (p : Pass) (dev : DevEnum) : Decidable (Found p dev) := inferInstanceAs (Decidable (_ ∧ _))

/-! ## One pass -/

/-- The paths are those of the table, where they are filled in. -/
def Filled (s : Static) : Prop :=
  ∀ dev ∈ devices, s.src dev.ndx = [] ∨
    (s.src dev.ndx = sourceOf dev ∧ s.dst dev.ndx = targetOf dev)

/-- Credit that the check of a bound file costs. -/
def cost (p : Pass) (dev : DevEnum) : Nat := if Found p dev then 0 else 1

/-- `after` is the report `r` with `n` more credits, and unchanged when there are none. -/
structure Costs (n : Nat) (r after : Report) : Prop where
  credits : after.credits = r.credits + n
  mounts : after.mounts = r.mounts
  isok : n = 0 → after.isok = r.isok

theorem Costs.add {n m : Nat} {r r' r'' : Report} (h : Costs n r r') (h' : Costs m r' r'') :
    Costs (n + m) r r'' where
  credits := by rw [h'.credits, h.credits, Nat.add_assoc]
  mounts := h'.mounts.trans h.mounts
  isok hzero := (h'.isok (by omega)).trans (h.isok (by omega))

section Passes

variable {p : Pass} {dev : DevEnum} {s : Static} {r : Report}

theorem found_iff {source target : Option Stat} (hs : p.stat (sourceOf dev) = source)
    (ht : p.stat (targetOf dev) = target) : Found p dev ↔ source.isSome ∧ target.isSome := by
  rw [Found, hs, ht]

/-- A bound file is never mounted, but a missing one is reported like a mount. -/
theorem sysCheckRemount_bound (h : Bound p dev) :
    sysCheckRemount p (sourceOf dev) (targetOf dev) = ⟨decide (¬ Found p dev), false⟩ := by
  rw [sysCheckRemount]
  rcases hs : p.stat (sourceOf dev) with _ | source
  · simp [found_iff hs rfl]
  rcases ht : p.stat (targetOf dev) with _ | target
  · simp [found_iff hs ht]
  have hbound := h target ht
  cases hdir : target.dir with
  | true =>
      rw [if_pos hdir] at hbound
      simp [found_iff hs ht, hdir, hbound]
  | false =>
      rw [if_neg (by simp [hdir]), hs] at hbound
      obtain ⟨_, heq, hdev, hino⟩ := hbound
      cases heq
      simp [found_iff hs ht, hdir, hdev, hino]

theorem ndx_injective {dev' : DevEnum} (h : dev.ndx = dev'.ndx) : dev = dev' := by
  cases dev <;> cases dev' <;> first | rfl | cases h

theorem fill_spec {source : List Char} (hs : Filled s) (hdev : dev ∈ devices)
    (hsource : "/dev/".toList ++ source = sourceOf dev) :
    Filled (fill s dev.ndx dev.ndx source) ∧
      (fill s dev.ndx dev.ndx source).src dev.ndx = sourceOf dev ∧
      (fill s dev.ndx dev.ndx source).dst dev.ndx = targetOf dev := by
  simp only [fill, hsource]
  by_cases hempty : s.src dev.ndx = []
  · rw [if_pos hempty]
    refine ⟨?_, Function.update_self .., Function.update_self ..⟩
    intro dev' hdev'
    by_cases heq : dev'.ndx = dev.ndx
    · obtain rfl := ndx_injective heq
      exact Or.inr ⟨Function.update_self .., Function.update_self ..⟩
    · simp only [Function.update_of_ne heq]
      exact hs dev' hdev'
  · rw [if_neg hempty]
    exact ⟨hs, (hs dev hdev).resolve_left hempty⟩

/-- A bound file costs a credit when it or its source is missing, and nothing otherwise. -/
theorem checkFile_bound (h : Bound p dev) (hs : Filled s) (hsrc : s.src dev.ndx = sourceOf dev)
    (hdst : s.dst dev.ndx = targetOf dev) (i : Nat) :
    Filled (checkFile p i dev.ndx s r).1 ∧
      Costs (cost p dev) r (checkFile p i dev.ndx s r).2 := by
  rw [checkFile, hsrc, hdst, sysCheckRemount_bound h, cost]
  by_cases hfound : Found p dev
  · simp only [hfound, not_true_eq_false, decide_false, if_true, Bool.false_eq_true, if_false]
    exact ⟨hs, rfl, rfl, fun _ => rfl⟩
  · simp only [hfound, not_false_eq_true, decide_true, if_true, if_false]
    exact ⟨hs, rfl, rfl, fun hone => nomatch hone⟩

theorem checkDevice_bound (hdev : dev ∈ devices) (h : Bound p dev) (hs : Filled s) :
    Filled (checkDevice p dev.ndx dev s r).1 ∧
      Costs (cost p dev) r (checkDevice p dev.ndx dev s r).2 := by
  have hfile : ∀ source, "/dev/".toList ++ source = sourceOf dev →
      Filled (checkFile p dev.ndx dev.ndx (fill s dev.ndx dev.ndx source) r).1 ∧
        Costs (cost p dev) r (checkFile p dev.ndx dev.ndx (fill s dev.ndx dev.ndx source) r).2 := by
    intro source hsource
    obtain ⟨hfilled, hsrc, hdst⟩ := fill_spec hs hdev hsource
    exact checkFile_bound h hfilled hsrc hdst dev.ndx
  cases dev with
  | unknown => exact absurd hdev (by decide)
  | cpuinfo => exact hfile (devName 0) rfl
  | loadavg => exact hfile (devName 2) rfl
  | meminfo => exact hfile (devName 3) rfl
  | swaps => exact hfile (devName 4) rfl
  | lastpid => exact hfile "null".toList rfl
  | acpi => exact hfile "null".toList rfl
  | bus => exact hfile "null".toList rfl
  | interrupts => exact hfile "null".toList rfl
  | ioports => exact hfile "null".toList rfl
  | kcore => exact hfile "null".toList rfl
  | mdstat => exact hfile "null".toList rfl
  | modules => exact hfile "null".toList rfl
  | partitions => exact hfile "null".toList rfl
  | trigger => exact hfile "null".toList rfl

/-- Credits of a pass over the entries `ds`, all bound. -/
def costs (p : Pass) : List (DevEnum × Nat) → Nat
  | [] => 0
  | d :: ds => cost p d.1 + costs p ds

theorem checkDevices_bound {ds : List (DevEnum × Nat)}
    (hds : ∀ d ∈ ds, d.1 ∈ devices ∧ d.1.ndx = d.2 ∧ Bound p d.1) (hs : Filled s) :
    Filled (checkDevices p ds s r).1 ∧ Costs (costs p ds) r (checkDevices p ds s r).2 := by
  induction ds generalizing s r with
  | nil => exact ⟨hs, rfl, rfl, fun _ => rfl⟩
  | cons d ds ih =>
      obtain ⟨dev, i⟩ := d
      obtain ⟨hdev, hi, hbound⟩ := hds _ List.mem_cons_self
      simp only at hdev hi hbound
      subst hi
      obtain ⟨hfilled, hcost⟩ := checkDevice_bound (r := r) hdev hbound hs
      obtain ⟨hfilled', hcosts⟩ := ih (fun d hd => hds d (List.mem_cons_of_mem _ hd)) hfilled
      rw [checkDevices]
      exact ⟨hfilled', hcost.add hcosts⟩

theorem cost_eq_zero_iff : cost p dev = 0 ↔ Found p dev := by
  rw [cost]
  by_cases h : Found p dev
  · simp [h]
  · simp [h]

theorem costs_eq_zero_iff {ds : List (DevEnum × Nat)} :
    costs p ds = 0 ↔ ∀ d ∈ ds, Found p d.1 := by
  induction ds with
  | nil => simp [costs]
  | cons d ds ih =>
      rw [List.forall_mem_cons, ← ih, ← cost_eq_zero_iff, costs]
      omega

/-- A pass that begins with nothing done is healthy exactly when it costs nothing. -/
theorem Costs.healthy_iff {n : Nat} (h : Costs n Report.zero r) : r.Healthy ↔ n = 0 := by
  have hcredits : r.credits = n := by simpa [Report.zero] using h.credits
  constructor
  · rintro ⟨-, hspent⟩
    rcases Nat.eq_zero_or_pos n with hzero | hpos
    · exact hzero
    · have hmounts := hspent (hcredits ▸ hpos)
      rw [h.mounts] at hmounts
      exact absurd hmounts (Nat.lt_irrefl 0)
  · intro hzero
    refine ⟨h.isok hzero, fun hpos => ?_⟩
    rw [hcredits, hzero] at hpos
    exact absurd hpos (Nat.lt_irrefl 0)

/-- With every file bound, a pass is healthy exactly when nothing is missing. -/
theorem doCheckMounts_bound (h : ∀ dev ∈ devices, Bound p dev) (hs : Filled s) :
    Filled (doCheckMounts p s).1 ∧
      ((doCheckMounts p s).2.Healthy ↔ ∀ dev ∈ devices, Found p dev) := by
  have htable : ∀ d ∈ devices.zipIdx, d.1 ∈ devices ∧ d.1.ndx = d.2 := by decide
  have hmem : ∀ dev ∈ devices, (dev, dev.ndx) ∈ devices.zipIdx := by decide
  obtain ⟨hfilled, hcosts⟩ := checkDevices_bound (r := Report.zero)
    (fun d hd => ⟨(htable d hd).1, (htable d hd).2, h d.1 (htable d hd).1⟩) hs
  refine ⟨hfilled, hcosts.healthy_iff.trans (costs_eq_zero_iff.trans ?_)⟩
  constructor
  · intro hd dev hdev
    exact hd _ (hmem dev hdev)
  · intro hdev d hd
    exact hdev d.1 (htable d hd).1

end Passes

/-! ## Runs -/

section Runs

/-- A step runs the pass of its event, or leaves the files and the reports alone. -/
theorem step_eq_some {s t : State} {e : Event} (h : step s e = some t) :
    (e.pass = none ∧ t.static = s.static ∧ t.reports = s.reports) ∨
      ∃ p, e.pass = some p ∧ t.static = (doCheckMounts p s.static).1 ∧
        t.reports = (doCheckMounts p s.static).2 :: s.reports := by
  rcases s with ⟨phase, keepRunning, static, reports⟩
  cases phase <;> cases e <;> cases keepRunning <;>
    simp only [step, State.check, Option.some.injEq, reduceCtorEq] at h <;> subst h
  all_goals first
    | exact Or.inl ⟨rfl, rfl, rfl⟩
    | exact Or.inr ⟨_, rfl, rfl, rfl⟩

/-- The files are filled in before any pass. -/
theorem filled_zero : Filled Static.zero := fun _ _ => Or.inl rfl

/-- A healthy pass is one that finds every file, along any run. -/
theorem run_healthy_iff {es : List Event} {s t : State} (hrun : run step s es = some t)
    (hbound : ∀ e ∈ es, ∀ p, e.pass = some p → ∀ dev ∈ devices, Bound p dev)
    (hs : Filled s.static) :
    (∀ r ∈ t.reports, r.Healthy) ↔ (∀ r ∈ s.reports, r.Healthy) ∧
      ∀ e ∈ es, ∀ p, e.pass = some p → ∀ dev ∈ devices, Found p dev := by
  induction es generalizing s with
  | nil =>
      cases hrun
      simp
  | cons e es ih =>
      obtain ⟨u, hstep, hrun⟩ := run_cons_eq_some.mp hrun
      rw [List.forall_mem_cons] at hbound ⊢
      rcases step_eq_some hstep with ⟨hnone, hstatic, hreports⟩ | ⟨p, hpass, hstatic, hreports⟩
      · rw [ih hrun hbound.2 (hstatic ▸ hs), hreports]
        simp [hnone]
      · obtain ⟨hfilled, hhealthy⟩ := doCheckMounts_bound (hbound.1 p hpass) hs
        rw [ih hrun hbound.2 (hstatic ▸ hfilled), hreports, List.forall_mem_cons, hhealthy]
        simp only [hpass, Option.some.injEq, forall_eq']
        rw [and_assoc, and_left_comm]

/-- A container where every file is bound, with the answer `missing` for `/proc/lastpid`. -/
def bound (missing : Option Stat) : Pass where
  stat path := if path = "/proc/lastpid".toList then missing else some ⟨0, 0, false⟩
  tmpfs _ := none
  time _ := 0

theorem bound_bound (missing : Option Stat)
    (h : ∀ st, missing = some st → st = ⟨0, 0, false⟩) (dev : DevEnum) :
    Bound (bound missing) dev := by
  intro target ht
  have hsource : sourceOf dev ≠ "/proc/lastpid".toList := by
    cases dev <;> decide
  have htarget : target = ⟨0, 0, false⟩ := by
    simp only [bound] at ht
    split at ht
    · exact h target ht
    · exact (Option.some.inj ht).symm
  subst htarget
  refine ⟨⟨0, 0, false⟩, ?_, rfl, rfl⟩
  simp only [bound, if_neg hsource]

theorem bound_found (dev : DevEnum) : Found (bound (some ⟨0, 0, false⟩)) dev := by
  have hstat : ∀ path, (bound (some ⟨0, 0, false⟩)).stat path = some ⟨0, 0, false⟩ :=
    fun _ => ite_self _
  constructor
  · rw [hstat, Option.isSome_some]
  · rw [hstat, Option.isSome_some]

/-- Along a run in a healthy container, every pass returns true and spends credits only for
mounts, if and only if every file and every source is found in every pass. -/
theorem monitor_healthy_iff {es : List Event} {t : State} (hrun : run step State.init es = some t)
    (hbound : ∀ e ∈ es, ∀ p, e.pass = some p → ∀ dev ∈ devices, Bound p dev) :
    (∀ r ∈ t.reports, r.Healthy) ↔
      ∀ e ∈ es, ∀ p, e.pass = some p → ∀ dev ∈ devices, Found p dev := by
  rw [run_healthy_iff hrun hbound filled_zero]
  exact and_iff_right fun r hr => nomatch hr

/-- A run where nothing is missing: both passes are healthy. -/
theorem monitor_healthy_run :
    ∃ t, run step State.init [.first (bound (some ⟨0, 0, false⟩)), .opened true,
        .mounted (bound (some ⟨0, 0, false⟩))] = some t ∧ ∀ r ∈ t.reports, r.Healthy := by
  have hpass : ∀ e ∈ [Event.first (bound (some ⟨0, 0, false⟩)), .opened true,
      .mounted (bound (some ⟨0, 0, false⟩))], ∀ p, e.pass = some p →
        p = bound (some ⟨0, 0, false⟩) := by
    simp only [List.forall_mem_cons, Event.pass, Option.some.injEq, forall_eq', reduceCtorEq,
      false_imp_iff, implies_true, true_and]
    exact fun _ h => nomatch h
  have hexists : ∃ t, run step State.init [.first (bound (some ⟨0, 0, false⟩)), .opened true,
      .mounted (bound (some ⟨0, 0, false⟩))] = some t ∧ True := exists_run (by decide +kernel)
  obtain ⟨t, hrun, -⟩ := hexists
  refine ⟨t, hrun, (monitor_healthy_iff hrun ?_).mpr ?_⟩
  · intro e he p hp dev _
    rw [hpass e he p hp]
    exact bound_bound _ (fun _ h => (Option.some.inj h).symm) dev
  · intro e he p hp dev _
    rw [hpass e he p hp]
    exact bound_found dev

/-- Every file that exists is bound, but `/proc/lastpid` does not exist: the fiftieth pass
ends the monitor, and no pass has mounted anything. -/
theorem monitor_gives_up :
    (∀ dev, Bound (bound none) dev) ∧ ∃ t, run step State.init
      (.first (bound none) :: .opened true :: List.replicate 49 (.mounted (bound none))) = some t ∧
        t.keepRunning = false ∧ (∃ r ∈ t.reports, r.isok = false) ∧ ∀ r ∈ t.reports, r.mounts = 0 :=
  ⟨bound_bound none (fun _ h => nomatch h), exists_run (by decide +kernel)⟩

end Runs

end Vzgot.Monitor

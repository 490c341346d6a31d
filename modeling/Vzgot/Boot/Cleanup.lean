import Vzgot.Boot.History
import Vzgot.Library.Ledger

/-!
# Who cleans up, and what is left behind

The phases behind `TOOBAD` act on the container of the name: they kill and remove its
cgroups, unmount its `dev` directory and remove its lock file. `OwnerCleans` says of a
history that this happens only behind a lock obtained in the same run, `NothingLeft`
that a run with the lock has given everything back.

The first holds exactly when the configuration of the container loads: `TOOBAD` of
phase 0 leads to the clean-up without a lock. The second holds exactly when no release
step fails: phase 18 jumps over phase 20 on a failure.
-/

set_option autoImplicit false

namespace Vzgot.Boot

open Transition Ledger

/-- The clean-up steps that act on the container of the name, whoever supervises it. -/
def BootOp.destructive : BootOp → Bool
  | .cleanCgroup _ | .unsetSupDevices _ | .unlock _ => true
  | _ => false

/-- Clean-up only behind a lock obtained in the same run. -/
def OwnerCleans : List (Nat × BootOp) → Prop :=
  Preceded (fun e => e.2.destructive = true) (fun e => e.2 = .lock true)

instance (ops : List (Nat × BootOp)) : Decidable (OwnerCleans ops) :=
  inferInstanceAs (Decidable (Preceded _ _ ops))

/-- The run has obtained the lock. -/
def Locked (ops : List (Nat × BootOp)) : Prop := ∃ e ∈ ops, e.2 = .lock true

instance (ops : List (Nat × BootOp)) : Decidable (Locked ops) :=
  inferInstanceAs (Decidable (∃ e ∈ ops, _))

section Step

variable {name : List Char} {s t : BootState} {a : BootAnswer} {w : Work}

theorem destructive_home {op : BootOp} (h : op.destructive = true) :
    ∃ p, op.home = some p ∧ 17 ≤ p := by
  cases op with
  | cleanCgroup path => exact ⟨17, rfl, by decide⟩
  | unsetSupDevices ok => exact ⟨18, rfl, by decide⟩
  | unlock removed => exact ⟨20, rfl, by decide⟩
  | _ => cases h

theorem Locked.after (h : Locked s.ops) (w : Work) : Locked (s.after w).ops := by
  obtain ⟨e, he, hlock⟩ := h
  exact ⟨e, List.mem_append_right _ he, hlock⟩

/-- Only phase 1 obtains the lock. -/
theorem not_locked_after (h : bootPhase name s.phase s.vars a = some w) (hp : s.phase ≠ 1)
    (hs : ¬ Locked s.ops) : ¬ Locked (s.after w).ops := by
  rintro ⟨e, he, hlock⟩
  rcases mem_after_ops he with ⟨-, hop⟩ | hold
  · rw [hlock] at hop
    exact bootPhase_not_mem h rfl hp hop
  · exact hs ⟨e, hold, hlock⟩

end Step

/-! ## Runs with a configuration -/

/-- Behind phase 1 the lock is held. -/
structure Owned (s : BootState) : Prop where
  phase : 1 ≤ s.phase
  locked : 2 ≤ s.phase → s.proceed = true → Locked s.ops
  cleans : OwnerCleans s.ops

theorem Jump.le_target (j : Jump) (phase : Nat) : 1 ≤ j.target phase := by
  cases j <;> simp only [Jump.target] <;> omega

theorem owned_step {name : List Char} {s t : BootState} {a : BootAnswer} (hs : Owned s)
    (h : bootStep name s a = some t) : Owned t := by
  obtain ⟨hproceed, w, hw, rfl⟩ := bootStep_eq_some.1 h
  rcases Nat.lt_or_ge 1 s.phase with hp | hp
  · -- behind phase 1 the lock is in the history
    have hlock := hs.locked hp hproceed
    exact ⟨w.jump.le_target _, fun _ _ => hlock.after w, hs.cleans.append_of_given hlock⟩
  · -- phase 1 either obtains the lock or leaves the loop
    have h₁ : s.phase = 1 := Nat.le_antisymm hp hs.phase
    refine ⟨w.jump.le_target _, fun _ hgo => ?_, hs.cleans.append_of_not ?_⟩
    · rw [h₁] at hw
      rcases bootPhase_locking hw with ⟨-, rfl⟩ | ⟨-, rfl⟩
      · exact ⟨(s.attempt, .lock true), by simp [Work.done], rfl⟩
      · exact absurd hgo (by simp [BootState.after])
    · intro e he hd
      obtain ⟨op, hop, rfl⟩ := List.mem_map.1 he
      obtain ⟨p, hhome, hge⟩ := destructive_home hd
      exact bootPhase_not_mem hw hhome (by omega) hop

/-! ## Runs without one -/

/-- The way from `TOOBAD` of phase 0 to the end: the lock is never obtained, the status
stays 0, and the clean-up is executed. -/
structure Unowned (s : BootState) : Prop where
  phase : 16 ≤ s.phase
  status : s.vars.status = 0
  unlocked : ¬ Locked s.ops
  returned : s.returned → 18 ≤ s.phase
  cleans : 18 ≤ s.phase → ¬ OwnerCleans s.ops

theorem unowned_step {name : List Char} {s t : BootState} {a : BootAnswer} (hs : Unowned s)
    (h : bootStep name s a = some t) : Unowned t := by
  obtain ⟨-, w, hw, rfl⟩ := bootStep_eq_some.1 h
  have hphase := hs.phase
  have hunlocked := not_locked_after hw (by omega) hs.unlocked
  -- the status of phase 0 is kept, so phase 19 does not reboot
  have hstatus : w.vars.status = 0 ∧ w.jump ≠ .reboot := by
    by_cases h₁₉ : s.phase = 19
    · rw [h₁₉] at hw
      rcases bootPhase_restart hw with ⟨h₁, -⟩ | ⟨-, -, hj, hst⟩
      · rw [hs.status] at h₁
        cases h₁
      · rw [hs.status] at hst
        exact ⟨hst, by rw [hj]; decide⟩
    · refine ⟨(bootPhase_status hw (by omega) (by omega) h₁₉).trans hs.status, fun hj => ?_⟩
      have hjump := bootPhase_jump hw
      rw [hj] at hjump
      exact h₁₉ hjump.1
  have hphase' : (s.after w).phase = w.jump.target s.phase := rfl
  have htarget := bootPhase_target hw
  -- without a reboot the phases only go up
  have hgoes : s.phase < w.jump.target s.phase ∧ (w.jump = .stop → 22 ≤ s.phase) := by
    rcases htarget with ⟨hj, h⟩ | ⟨hj, hp, h⟩ | ⟨hj, -⟩ | ⟨hj, hp, h⟩ | ⟨hj, hp, h⟩
    · exact ⟨by omega, by simp [hj]⟩
    · omega
    · exact absurd hj hstatus.2
    · exact ⟨by omega, by simp [hj]⟩
    · exact ⟨by omega, fun _ => by omega⟩
  refine ⟨by simp only [after_phase]; omega, hstatus.1, hunlocked, ?_, fun hge => ?_⟩
  · intro hret
    have := hgoes.2 ((after_returned s w).1 hret)
    simp only [after_phase]
    omega
  · by_cases h₁₇ : s.phase = 17
    · -- phase 17 itself: the containers cgroup is cleaned and the lock is not held
      have hclean : .cleanCgroup (cleanPath .containers (contname name)) ∈ w.ops := by
        rw [h₁₇] at hw
        obtain ⟨-, top, hops⟩ := bootPhase_cleaning hw
        simp [hops]
      exact not_preceded (List.mem_map.2 ⟨_, hclean, rfl⟩) rfl
        fun g hg hlock => hunlocked ⟨g, hg, hlock⟩
    · exact fun hpre => hs.cleans (by omega) (Preceded.of_append hpre)

/-! ## Clean-up by the owner -/

section Run

variable {name : List Char} {s : BootState} {as : List BootAnswer}

theorem owned_config : Owned configuredState :=
  ⟨Nat.le_refl _, fun h => absurd h (by decide), trivial⟩

theorem unowned_config : Unowned unconfiguredState := by
  refine ⟨Nat.le_refl _, rfl, ?_, (by decide), fun h => absurd h (by decide)⟩
  rintro ⟨e, he, hlock⟩
  rw [List.mem_singleton.1 he] at hlock
  cases hlock

/-- The run behind a phase 0 that loads the configuration. -/
theorem run_loaded (h : run (bootStep name) bootInit (.config true :: as) = some s) : Owned s := by
  obtain ⟨m, hm, hrun⟩ := run_cons_eq_some.1 h
  cases hm
  exact run_invariant (fun _ _ _ => owned_step) owned_config hrun

/-- The run behind a phase 0 that does not. -/
theorem run_unloaded (h : run (bootStep name) bootInit (.config false :: as) = some s) :
    Unowned s := by
  obtain ⟨m, hm, hrun⟩ := run_cons_eq_some.1 h
  cases hm
  exact run_invariant (fun _ _ _ => unowned_step) unowned_config hrun

/-- In a run of `boot` whose configuration loads only the owner of the lock cleans up, in
every state; in a run that has returned only the owner has cleaned up if and only if
the configuration was loaded. -/
theorem boot_owner_cleans {loaded : Bool}
    (h : run (bootStep name) bootInit (.config loaded :: as) = some s) :
    (loaded = true → OwnerCleans s.ops) ∧
      (s.returned → (OwnerCleans s.ops ↔ loaded = true)) := by
  cases loaded with
  | true =>
      have howned := run_loaded h
      exact ⟨fun _ => howned.cleans, fun _ => ⟨fun _ => rfl, fun _ => howned.cleans⟩⟩
  | false =>
      have hun := run_unloaded h
      refine ⟨fun hl => absurd hl (by decide), fun hret => ⟨fun hc => ?_, fun hl => ?_⟩⟩
      · exact absurd hc (hun.cleans (hun.returned hret))
      · exact absurd hl (by decide)

/-- The run without failures. -/
theorem boot_owner_cleans_plain : ∃ s,
    run (bootStep ['w', 'e', 'b']) bootInit plainBoot = some s ∧ s.returned ∧
      OwnerCleans s.ops := by
  obtain ⟨s, h, hret⟩ := plainBoot_run ['w', 'e', 'b']
  exact ⟨s, h, hret, (boot_owner_cleans h).1 rfl⟩

/-- Without a configuration the cgroups of the container are cleaned, its devices
unmounted and its lock removed, and the lock was never asked for. -/
theorem boot_cleans_unowned : ∃ s,
    run (bootStep ['w', 'e', 'b']) bootInit
      [.config false, .none, .cleaned .moved true true, .unsetSupDevices true, .none,
        .unlock true true, .none, .none] = some s ∧
      s.returned ∧ ¬ OwnerCleans s.ops :=
  exists_run (by decide)

end Run

/-! ## What is left behind -/

/-- The lock file that the run created still exists. -/
def lockLeft : List (Nat × BootOp) → Bool :=
  latest (fun
    | (_, .lock true) => some true
    | (_, .unlock true) => some false
    | _ => none) false

/-- `path` was cleaned and no container process was created since. -/
def cleanedSince (path : List Char) : List (Nat × BootOp) → Bool :=
  latest (fun
    | (_, .cleanCgroup p) => if p = path then some true else none
    | (_, .clone (some _)) => some false
    | _ => none) false

/-- Nothing of the run is left: the lock file is removed, and both cgroups were cleaned
after the last container process was created. -/
def NothingLeft (name : List Char) (ops : List (Nat × BootOp)) : Prop :=
  lockLeft ops = false ∧
    cleanedSince (cleanPath .containers (contname name)) ops = true ∧
    cleanedSince (cleanPath .supervisors (contname name)) ops = true

/-- A release step reports success. -/
def BootAnswer.releases : BootAnswer → Bool
  | .unsetSupDevices ok => ok
  | .unlock mkdir unlink => mkdir && unlink
  | _ => true

/-- No release step of the history failed. -/
def Released (ops : List (Nat × BootOp)) : Prop :=
  ∀ e ∈ ops, e.2 ≠ .unsetSupDevices false ∧ e.2 ≠ .unlock false

section Release

variable {name : List Char} {s t : BootState} {a : BootAnswer} {w : Work}

theorem lockLeft_after (h : bootPhase name s.phase s.vars a = some w) (h₁ : s.phase ≠ 1)
    (h₂₀ : s.phase ≠ 20) : lockLeft (s.after w).ops = lockLeft s.ops := by
  apply latest_append_of_none
  intro e he
  obtain ⟨op, hop, rfl⟩ := List.mem_map.1 he
  cases op with
  | lock granted => exact absurd hop (bootPhase_not_mem h rfl h₁)
  | unlock removed => exact absurd hop (bootPhase_not_mem h rfl h₂₀)
  | _ => rfl

theorem cleanedSince_after (h : bootPhase name s.phase s.vars a = some w) (h₈ : s.phase ≠ 8)
    (h₁₇ : s.phase ≠ 17) (path : List Char) :
    cleanedSince path (s.after w).ops = cleanedSince path s.ops := by
  apply latest_append_of_none
  intro e he
  obtain ⟨op, hop, rfl⟩ := List.mem_map.1 he
  cases op with
  | clone pid => exact absurd hop (bootPhase_not_mem h rfl h₈)
  | cleanCgroup p => exact absurd hop (bootPhase_not_mem h rfl h₁₇)
  | _ => rfl

theorem bootPhase_releases {phase : Nat} {v : BootVars} (h : bootPhase name phase v a = some w) :
    (∀ op ∈ w.ops, op ≠ .unsetSupDevices false ∧ op ≠ .unlock false) ↔ a.releases = true := by
  unfold bootPhase at h
  split at h
  case h_26 =>
    -- phase 16 only closes descriptors
    refine ⟨fun _ => rfl, fun _ op hop => ?_⟩
    cases h
    simp only [Work.done, List.mem_append, List.mem_cons, List.not_mem_nil, or_false] at hop
    rcases hop with hop | rfl | rfl
    · have hnone := closeSyncPipe_home hop
      constructor <;> rintro rfl <;> cases hnone
    · simp
    · simp
  all_goals try (simp only [Work.check] at h)
  all_goals
    repeat' split at h
    all_goals cases h
    all_goals simp_all [Work.done, Work.bad, BootAnswer.releases]

theorem released_run {s t : BootState} {as : List BootAnswer}
    (h : run (bootStep name) s as = some t) :
    Released t.ops ↔ Released s.ops ∧ ∀ a ∈ as, a.releases = true := by
  induction as generalizing s with
  | nil =>
      rw [run_nil, Option.some.injEq] at h
      simp [h]
  | cons a as ih =>
      obtain ⟨m, hm, hrun⟩ := run_cons_eq_some.1 h
      obtain ⟨-, w, hw, rfl⟩ := bootStep_eq_some.1 hm
      have hstep : Released (s.after w).ops ↔ Released s.ops ∧ a.releases = true := by
        rw [← bootPhase_releases hw, and_comm, Released, after_ops, List.forall_mem_append,
          List.forall_mem_map, Released]
      rw [ih hrun, hstep, and_assoc, List.forall_mem_cons]

/-- What is known of the release between phase 2 and the end of a run with the lock. -/
structure Releasing (name : List Char) (s : BootState) : Prop where
  phase : 2 ≤ s.phase
  held : s.phase ≤ 20 → lockLeft s.ops = true ∧ Released s.ops
  freed : 21 ≤ s.phase → (lockLeft s.ops = false ↔ Released s.ops)
  containers : 18 ≤ s.phase →
    cleanedSince (cleanPath .containers (contname name)) s.ops = true
  supervisors : 18 ≤ s.phase →
    cleanedSince (cleanPath .supervisors (contname name)) s.ops = true
  stopped : s.returned → 22 ≤ s.phase

theorem releases_elsewhere {phase : Nat} {v : BootVars}
    (h : bootPhase name phase v a = some w) (h₁₈ : phase ≠ 18) (h₂₀ : phase ≠ 20) :
    a.releases = true := by
  refine (bootPhase_releases h).1 fun op hop => ⟨?_, ?_⟩
  · rintro rfl
    exact bootPhase_not_mem h rfl h₁₈ hop
  · rintro rfl
    exact bootPhase_not_mem h rfl h₂₀ hop

theorem cleanedSince_cleaning {ext : Cgroup} (h : bootPhase name s.phase s.vars a = some w)
    (h₁₇ : s.phase = 17) (hext : ext = .containers ∨ ext = .supervisors) :
    cleanedSince (cleanPath ext (contname name)) (s.after w).ops = true := by
  rw [h₁₇] at h
  obtain ⟨-, top, hops⟩ := bootPhase_cleaning h
  rw [after_ops, hops]
  rcases hext with rfl | rfl
  · simp only [cleanedSince, List.map_cons, List.map_nil, List.cons_append, latest_cons]
    split <;> rfl
  · simp [cleanedSince, latest_cons]

theorem releasing_step (hs : Releasing name s) (h : bootStep name s a = some t) :
    Releasing name t := by
  have hrel : Released t.ops ↔ Released s.ops ∧ a.releases = true := by
    rw [released_run (run_cons_eq_some.2 ⟨t, h, run_nil t⟩), List.forall_mem_singleton]
  obtain ⟨-, w, hw, rfl⟩ := bootStep_eq_some.1 h
  have htarget := bootPhase_target hw
  have hphase : (s.after w).phase = w.jump.target s.phase := rfl
  have hge := hs.phase
  have hcleaned : ∀ ext, ext = .containers ∨ ext = .supervisors → 18 ≤ (s.after w).phase →
      (18 ≤ s.phase → cleanedSince (cleanPath ext (contname name)) s.ops = true) →
      cleanedSince (cleanPath ext (contname name)) (s.after w).ops = true := by
    intro ext hext hle hold
    by_cases h₁₇ : s.phase = 17
    · exact cleanedSince_cleaning hw h₁₇ hext
    · rw [cleanedSince_after hw (by omega) h₁₇]
      exact hold (by omega)
  refine ⟨by omega, fun hle => ?_, fun hle => ?_, fun hle => ?_, fun hle => ?_, fun hret => ?_⟩
  · -- the lock file is still there: phase 18 succeeded if this was it
    obtain ⟨hleft, hreleased⟩ := hs.held (by omega)
    rw [lockLeft_after hw (by omega) (by omega)]
    refine ⟨hleft, hrel.2 ⟨hreleased, ?_⟩⟩
    by_cases h₁₈ : s.phase = 18
    · rw [h₁₈] at hw
      obtain ⟨ok, rfl, rfl⟩ := bootPhase_devices hw
      cases ok with
      | true => rfl
      | false =>
          simp [Jump.target] at hle
    · exact releases_elsewhere hw h₁₈ (by omega)
  · by_cases h₂₀ : s.phase = 20
    · -- the unlocking itself
      obtain ⟨hleft, hreleased⟩ := hs.held (by omega)
      rw [hrel]
      rw [h₂₀] at hw
      obtain ⟨mkdir, unlink, rfl, rfl⟩ := bootPhase_unlocking hw
      simp only [lockLeft] at hleft
      cases hboth : mkdir && unlink <;>
        simp [lockLeft, latest_cons, Work.done, BootAnswer.releases, hboth, hleft, hreleased]
    · rw [lockLeft_after hw (by omega) h₂₀]
      by_cases h₁₈ : s.phase = 18
      · -- the jump over phase 20
        obtain ⟨hleft, -⟩ := hs.held (by omega)
        rw [h₁₈] at hw
        obtain ⟨ok, rfl, rfl⟩ := bootPhase_devices hw
        cases ok with
        | true =>
            simp [Jump.target] at hle
            omega
        | false =>
            rw [hrel, hleft]
            simp [BootAnswer.releases]
      · -- behind phase 20 nothing is released
        rw [hrel, hs.freed (by omega)]
        simp [releases_elsewhere hw h₁₈ h₂₀]
  · exact hcleaned _ (.inl rfl) hle hs.containers
  · exact hcleaned _ (.inr rfl) hle hs.supervisors
  · -- phase 1 is past: the loop is left at its end
    have hstop := (after_returned s w).1 hret
    rcases htarget with h | h | h | h | ⟨-, hge, ht⟩
    · simp [hstop] at h
    · simp [hstop] at h
    · simp [hstop] at h
    · simp [hstop] at h
    · omega

end Release

/-- A run that obtains the lock has loaded the configuration before. -/
theorem run_locked {name : List Char} {s : BootState} {as : List BootAnswer}
    (h : run (bootStep name) bootInit as = some s) (hlock : Locked s.ops) :
    ∃ rest, as = .config true :: .lock true :: rest ∧
      run (bootStep name) lockedState rest = some s := by
  rcases run_start h with rfl | ⟨rest, rfl⟩ | ⟨rest, rfl, hrun⟩
  · rw [run_nil, Option.some.injEq] at h
    simp [← h, Locked, bootInit] at hlock
  · exact absurd hlock (run_unloaded h).unlocked
  · rcases run_configured hrun with ⟨-, rfl⟩ | ⟨-, rfl⟩ | ⟨rest', rfl, hrun'⟩
    · simp [Locked, configuredState, bootInit] at hlock
    · simp [Locked, refusedState, bootInit] at hlock
    · exact ⟨rest', rfl, hrun'⟩

/-- In a run of `boot` that had the lock and has returned, nothing is left behind if and
only if every release step reported success. -/
theorem boot_nothing_left {name : List Char} {s : BootState} {as : List BootAnswer}
    (h : run (bootStep name) bootInit as = some s) (hlock : Locked s.ops) (hret : s.returned) :
    NothingLeft name s.ops ↔ ∀ a ∈ as, a.releases = true := by
  obtain ⟨rest, rfl, hrun⟩ := run_locked h hlock
  have hinit : Releasing name lockedState :=
    ⟨Nat.le_refl _, fun _ => ⟨rfl, by simp [Released, lockedState]⟩, by simp [lockedState],
      by simp [lockedState], by simp [lockedState], (by decide)⟩
  have hs := run_invariant (fun _ _ _ => releasing_step) hinit hrun
  have hge := hs.stopped hret
  have hreleased := released_run h
  rw [NothingLeft, hs.freed (by omega), hs.containers (by omega), hs.supervisors (by omega),
    hreleased]
  simp [Released, bootInit]

/-- The run without failures. -/
theorem boot_nothing_left_plain : ∃ s,
    run (bootStep ['w', 'e', 'b']) bootInit plainBoot = some s ∧
      NothingLeft ['w', 'e', 'b'] s.ops := by
  have hrun : ∃ s, run (bootStep ['w', 'e', 'b']) bootInit plainBoot = some s ∧
      Locked s.ops ∧ s.returned := exists_run (by decide)
  obtain ⟨s, h, hlock, hret⟩ := hrun
  exact ⟨s, h, (boot_nothing_left h hlock hret).2 (by decide)⟩

/-- The boot script cannot be started, so the `dev` directory was never mounted and
cannot be unmounted: `boot` returns and its lock file stays. -/
theorem boot_leaves_lock : ∃ s,
    run (bootStep ['w', 'e', 'b']) bootInit
      [.config true, .lock true, .script .noPipe, .none, .cleaned .moved true true,
        .unsetSupDevices false, .none] = some s ∧
      Locked s.ops ∧ s.returned ∧ ¬ NothingLeft ['w', 'e', 'b'] s.ops := by
  have hrun : ∃ s, run (bootStep ['w', 'e', 'b']) bootInit
      [.config true, .lock true, .script .noPipe, .none, .cleaned .moved true true,
        .unsetSupDevices false, .none] = some s ∧
      Locked s.ops ∧ s.returned ∧ lockLeft s.ops = true := exists_run (by decide)
  obtain ⟨s, h, hlock, hret, hleft⟩ := hrun
  exact ⟨s, h, hlock, hret, fun hn => by simp [hn.1] at hleft⟩

end Vzgot.Boot

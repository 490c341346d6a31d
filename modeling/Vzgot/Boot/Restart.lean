import Vzgot.Boot.History

/-!
# The status of `boot`

The status variable is shared by the boot attempts of one run. `StatusHonest` says that
`REBOOT` is taken only in an attempt whose `cont_attend` returned 1, and that a run
that returns 0 has a last attempt whose `cont_attend` returned 0 or 2.

An attempt that goes to `TOOBAD` before phase 13 keeps the status of the attempt before
it: 0 in the first attempt, 1 in the others. So it is reported as a success, or
followed by a reboot, unless phase 18 of a later attempt leaves the loop.
-/

set_option autoImplicit false

namespace Vzgot.Boot

open Transition

/-- `REBOOT` only behind a `cont_attend` of the same attempt that returned 1, and a
returned 0 only behind one of the last attempt that returned 0 or 2. -/
def StatusHonest (s : BootState) : Prop :=
  (∀ k, (k, .reboot) ∈ s.ops → (k, .attend 1) ∈ s.ops) ∧
    (s.returned → s.vars.status = 0 →
      (s.attempt, .attend 0) ∈ s.ops ∨ (s.attempt, .attend 2) ∈ s.ops)

/-- The current attempt has taken the error exit before `cont_attend`. -/
def EarlyFail (s : BootState) : Prop := ∃ p, p < 13 ∧ (s.attempt, .tooBad p) ∈ s.ops

/-- Phase 18 of an attempt that failed before `cont_attend` leaves the loop, and not in
the first attempt. -/
def AttemptAttended (s : BootState) (a : BootAnswer) : Prop :=
  s.phase = 18 → EarlyFail s → 0 < s.attempt ∧ a = .unsetSupDevices false

/-- Status with which an attempt starts. -/
def startStatus (attempt : Nat) : Int := if attempt = 0 then 0 else 1

/-- What the history tells about the status. -/
structure Tracked (s : BootState) : Prop where
  chronicle : Chronicled s
  fresh : s.phase ≤ 13 → s.proceed = true → s.vars.status = startStatus s.attempt
  attended : ∀ x, (s.attempt, .attend x) ∈ s.ops →
    (s.phase ≤ 19 → s.vars.status = x) ∧
      (20 ≤ s.phase → s.vars.status = 0 → x = 0 ∨ x = 2)
  early : EarlyFail s → 16 ≤ s.phase ∧ (∀ x, (s.attempt, .attend x) ∉ s.ops) ∧
    s.vars.status = startStatus s.attempt
  fate : 14 ≤ s.phase → EarlyFail s ∨ ∃ x, (s.attempt, .attend x) ∈ s.ops
  refused : s.returned → s.phase = 2 → s.vars.status = 1

section Step

variable {name : List Char} {s t : BootState} {a : BootAnswer} {w : Work}

/-- A `REBOOT` starts an attempt with the status 1. -/
theorem tracked_reboot (hs : Tracked s) (h : bootStep name s a = some (s.after w))
    (hw : bootPhase name s.phase s.vars a = some w) (hj : w.jump = .reboot) :
    Tracked (s.after w) := by
  have hnone := hs.chronicle.reboot hj
  have hphase : (s.after w).phase = 2 := by simp [hj, Jump.target]
  have hjump := bootPhase_jump hw
  rw [hj] at hjump
  rw [hjump.1] at hw
  have hstatus : (s.after w).vars.status = 1 := by
    rcases bootPhase_restart hw with ⟨h₁, rfl⟩ | ⟨h₁, -⟩
    · exact h₁
    · exact absurd hjump.2 h₁
  refine ⟨hs.chronicle.step h, fun _ _ => ?_, fun x hx => absurd hx (hnone _), ?_,
    fun hge => ?_, fun _ _ => hstatus⟩
  · rw [hstatus, after_attempt, if_pos hj]
    rfl
  · rintro ⟨p, -, hmem⟩
    exact absurd hmem (hnone _)
  · rw [hphase] at hge
    exact absurd hge (by decide)

/-- Status behind phase 19 when it goes on. -/
theorem restart_status (hw : bootPhase name s.phase s.vars a = some w) (h₁₉ : s.phase = 19)
    (hj : w.jump ≠ .reboot) :
    s.vars.status ≠ 1 ∧ w.vars.status = if s.vars.status = 2 then 0 else s.vars.status := by
  rw [h₁₉] at hw
  rcases bootPhase_restart hw with ⟨-, rfl⟩ | ⟨h₁, -, -, hst⟩
  · exact absurd rfl hj
  · exact ⟨h₁, hst⟩

/-! ### Steps inside an attempt -/

/-- A phase before `cont_attend` leaves the status alone. -/
theorem status_before_attend (hw : bootPhase name s.phase s.vars a = some w)
    (hlt : s.phase < 13) (hj : w.jump ≠ .stop) : w.vars.status = s.vars.status := by
  by_cases h₁ : s.phase = 1
  · rw [h₁] at hw
    rcases bootPhase_locking hw with ⟨-, rfl⟩ | ⟨-, rfl⟩
    · rfl
    · exact absurd rfl hj
  · exact bootPhase_status hw h₁ (by omega) (by omega)

theorem attended_after (hs : Tracked s) (hw : bootPhase name s.phase s.vars a = some w)
    (hj : w.jump ≠ .reboot) {x : Int} (hx : ((s.after w).attempt, .attend x) ∈ (s.after w).ops) :
    ((s.after w).phase ≤ 19 → w.vars.status = x) ∧
      (20 ≤ (s.after w).phase → w.vars.status = 0 → x = 0 ∨ x = 2) := by
  have hphase := phase_after hw hj
  rw [attempt_after hj] at hx
  rcases mem_after_ops hx with ⟨-, hnew⟩ | hold
  · -- `cont_attend` returns in this phase
    have h₁₃ := bootPhase_mem hw rfl hnew
    rw [h₁₃] at hw
    obtain ⟨status, rfl, rfl⟩ := bootPhase_attending hw
    have hx' : x = status := by simpa [Work.done] using hnew
    exact ⟨fun _ => hx'.symm, fun hge => by omega⟩
  · -- it has returned before: only phase 19 changes the status
    have hge := hs.chronicle.behind _ 13 hold rfl
    obtain ⟨heq, hfinal⟩ := hs.attended x hold
    refine ⟨fun hle => ?_, fun hge' => ?_⟩
    · rw [bootPhase_status hw (by omega) (by omega) (by omega)]
      exact heq (by omega)
    · by_cases h₁₉ : s.phase = 19
      · rw [(restart_status hw h₁₉ hj).2, ← heq (by omega)]
        intro hzero
        split at hzero
        · exact .inr ‹_›
        · exact .inl hzero
      · rw [bootPhase_status hw (by omega) (by omega) h₁₉]
        rcases Nat.lt_or_ge 19 s.phase with hlt | hle
        · exact hfinal hlt
        · exact fun hzero => .inl ((heq hle).symm.trans hzero)

theorem early_after (hs : Tracked s) (hproceed : s.proceed = true)
    (hw : bootPhase name s.phase s.vars a = some w) (hj : w.jump ≠ .reboot)
    (he : EarlyFail (s.after w)) :
    16 ≤ (s.after w).phase ∧ (∀ x, ((s.after w).attempt, .attend x) ∉ (s.after w).ops) ∧
      w.vars.status = startStatus (s.after w).attempt := by
  obtain ⟨p, hp, hmem⟩ := he
  have hphase := phase_after hw hj
  rw [attempt_after hj] at hmem ⊢
  rcases mem_after_ops hmem with ⟨-, hnew⟩ | hold
  · -- the error exit is taken in this phase
    obtain ⟨rfl, hbad, hst⟩ := bootPhase_tooBad hw hp hnew
    simp only [hbad, reduceCtorEq, false_and, false_or, or_false, true_and] at hphase
    refine ⟨by omega, fun x hatt => ?_, ?_⟩
    · rcases mem_after_ops hatt with ⟨-, hnew'⟩ | hold
      · exact absurd (bootPhase_mem hw rfl hnew') (by omega)
      · exact absurd (hs.chronicle.behind _ 13 hold rfl) (by omega)
    · rw [hst]
      exact hs.fresh (by omega) hproceed
  · -- it was taken before: the status stays what the attempt began with
    obtain ⟨hge, hnone, hst⟩ := hs.early ⟨p, hp, hold⟩
    refine ⟨by omega, fun x hatt => ?_, ?_⟩
    · rcases mem_after_ops hatt with ⟨-, hnew⟩ | hold
      · exact absurd (bootPhase_mem hw rfl hnew) (by omega)
      · exact hnone x hold
    · by_cases h₁₉ : s.phase = 19
      · obtain ⟨hne, hst'⟩ := restart_status hw h₁₉ hj
        rw [hst] at hst' hne
        rw [hst']
        unfold startStatus at hne ⊢
        split <;> simp_all
      · rw [bootPhase_status hw (by omega) (by omega) h₁₉, hst]

theorem fate_after (hs : Tracked s) (hw : bootPhase name s.phase s.vars a = some w)
    (hj : w.jump ≠ .reboot) (hge : 14 ≤ (s.after w).phase) :
    EarlyFail (s.after w) ∨ ∃ x, ((s.after w).attempt, .attend x) ∈ (s.after w).ops := by
  have hphase := phase_after hw hj
  simp only [EarlyFail, attempt_after hj]
  rcases Nat.lt_trichotomy s.phase 13 with hlt | h₁₃ | hgt
  · -- from a phase before 13 only the error exit leads behind it
    have hbad : w.jump = .tooBad := by
      rcases hphase with ⟨-, h⟩ | ⟨hbad, -⟩ | ⟨-, h, -⟩ | ⟨-, -, h⟩
      · omega
      · exact hbad
      · omega
      · omega
    have hjump := bootPhase_jump hw
    rw [hbad] at hjump
    exact .inl ⟨s.phase, hlt, by simp [hjump.1]⟩
  · rw [h₁₃] at hw
    obtain ⟨status, rfl, rfl⟩ := bootPhase_attending hw
    exact .inr ⟨status, by simp [Work.done]⟩
  · rcases hs.fate hgt with ⟨p, hp, hold⟩ | ⟨x, hold⟩
    · exact .inl ⟨p, hp, List.mem_append_right _ hold⟩
    · exact .inr ⟨x, List.mem_append_right _ hold⟩

theorem tracked_step (hs : Tracked s) (h : bootStep name s a = some t) : Tracked t := by
  have hchronicle := hs.chronicle.step h
  obtain ⟨hproceed, w, hw, rfl⟩ := bootStep_eq_some.1 h
  by_cases hj : w.jump = .reboot
  · exact tracked_reboot hs h hw hj
  have hphase := phase_after hw hj
  refine ⟨hchronicle, fun hle hgo => ?_, fun _ => attended_after hs hw hj,
    early_after hs hproceed hw hj, fate_after hs hw hj, fun hret h₂ => ?_⟩
  · have hstop : w.jump ≠ .stop := fun hj' => by simp [BootState.after, hj'] at hgo
    rw [attempt_after hj, ← hs.fresh (by omega) hproceed]
    exact status_before_attend hw (by omega) hstop
  · have hstop := (after_returned s w).1 hret
    have h₁ : s.phase = 1 := by omega
    rw [h₁] at hw
    rcases bootPhase_locking hw with ⟨-, rfl⟩ | ⟨-, rfl⟩
    · cases hstop
    · rfl

theorem tracked_init : Tracked bootInit := by
  refine ⟨chronicled_init, fun _ _ => rfl, by simp [bootInit], ?_, by simp [bootInit],
    by decide⟩
  rintro ⟨p, -, hmem⟩
  cases hmem

/-- What the guard keeps: every reboot so far was honest, and an attempt that failed
before `cont_attend` is past phase 19 only as a later attempt. -/
structure Sound (s : BootState) : Prop where
  tracked : Tracked s
  reboots : ∀ k, (k, .reboot) ∈ s.ops → (k, .attend 1) ∈ s.ops
  early : 19 ≤ s.phase → EarlyFail s → 0 < s.attempt ∧ 20 ≤ s.phase

/-- From phase 13 on an attempt does not fail early any more. -/
theorem earlyFail_after (hw : bootPhase name s.phase s.vars a = some w) (hp : 13 ≤ s.phase)
    (hj : w.jump ≠ .reboot) : EarlyFail (s.after w) ↔ EarlyFail s := by
  simp only [EarlyFail, attempt_after hj]
  refine exists_congr fun p => and_congr_right fun hlt => ⟨fun hmem => ?_, fun hmem => ?_⟩
  · rcases mem_after_ops hmem with ⟨-, hnew⟩ | hold
    · have := (bootPhase_tooBad hw hlt hnew).1
      omega
    · exact hold
  · exact List.mem_append_right _ hmem

theorem reboot_mem (hw : bootPhase name s.phase s.vars a = some w) {k : Nat}
    (hk : (k, .reboot) ∈ (s.after w).ops) :
    (k, .reboot) ∈ s.ops ∨ (k = s.attempt ∧ s.phase = 19 ∧ s.vars.status = 1) := by
  rcases mem_after_ops hk with ⟨rfl, hnew⟩ | hold
  · have h₁₉ : s.phase = 19 := bootPhase_mem hw rfl hnew
    rw [h₁₉] at hw
    rcases bootPhase_restart hw with ⟨h₁, -⟩ | ⟨-, hops, -⟩
    · exact .inr ⟨rfl, h₁₉, h₁⟩
    · rw [hops] at hnew
      cases hnew
  · exact .inl hold

theorem sound_step (hs : Sound s) (hg : AttemptAttended s a) (h : bootStep name s a = some t) :
    Sound t := by
  have htracked := tracked_step hs.tracked h
  obtain ⟨-, w, hw, rfl⟩ := bootStep_eq_some.1 h
  have htarget := bootPhase_target hw
  have hphase : (s.after w).phase = w.jump.target s.phase := rfl
  refine ⟨htracked, fun k hk => List.mem_append_right _ ?_, fun hge hearly => ?_⟩
  · rcases reboot_mem hw hk with hold | ⟨rfl, h₁₉, h₁⟩
    · exact hs.reboots k hold
    · -- the reboot of this phase: the attempt has not failed early, so it was attended
      rcases hs.tracked.fate (by omega) with hearly | ⟨x, hx⟩
      · have := (hs.early (by omega) hearly).2
        omega
      · have heq := (hs.tracked.attended x hx).1 (by omega)
        rw [h₁] at heq
        exact heq ▸ hx
  · by_cases hj : w.jump = .reboot
    · simp [hj, Jump.target] at hge
    · simp only [hj, false_and, false_or] at htarget
      rw [attempt_after hj]
      have hge₁₃ : 13 ≤ s.phase := by omega
      have hold := (earlyFail_after hw hge₁₃ hj).1 hearly
      by_cases h₁₈ : s.phase = 18
      · -- the guard: a later attempt, which jumps over phase 19
        obtain ⟨hpos, rfl⟩ := hg h₁₈ hold
        rw [h₁₈] at hw
        obtain ⟨ok, heq, rfl⟩ := bootPhase_devices hw
        cases heq
        exact ⟨hpos, by simp [Jump.target]⟩
      · obtain ⟨hpos, hge₂₀⟩ := hs.early (by omega) hold
        exact ⟨hpos, by omega⟩

theorem Sound.honest (hs : Sound s) : StatusHonest s := by
  refine ⟨hs.reboots, fun hret hzero => ?_⟩
  rcases hs.tracked.chronicle.stopped hret with h₂ | hge
  · -- the lock was refused, and the status is 1
    rw [hs.tracked.refused hret h₂] at hzero
    cases hzero
  · rcases hs.tracked.fate (by omega) with hearly | ⟨x, hx⟩
    · have hst := (hs.tracked.early hearly).2.2
      have hpos := (hs.early (by omega) hearly).1
      rw [hzero, startStatus, if_neg (by omega)] at hst
      cases hst
    · rcases (hs.tracked.attended x hx).2 (by omega) hzero with rfl | rfl
      · exact .inl hx
      · exact .inr hx

/-- A dishonest reboot has been taken, or a dishonest status is going to be returned. -/
def Doomed (s : BootState) : Prop :=
  (∃ k, k < s.attempt ∧ (k, .reboot) ∈ s.ops ∧ (k, .attend 1) ∉ s.ops) ∨
    (EarlyFail s ∧ 19 ≤ s.phase ∧ (s.attempt = 0 ∨ s.phase = 19))

theorem doomed_of_miss (hg : ¬ AttemptAttended s a) (h : bootStep name s a = some t) :
    Doomed t := by
  obtain ⟨-, w, hw, rfl⟩ := bootStep_eq_some.1 h
  simp only [AttemptAttended, Classical.not_imp] at hg
  obtain ⟨h₁₈, hearly, hno⟩ := hg
  have hdevices := hw
  rw [h₁₈] at hdevices
  obtain ⟨ok, rfl, rfl⟩ := bootPhase_devices hdevices
  have hj : (if ok then Jump.next else Jump.skip) ≠ .reboot := by cases ok <;> decide
  refine .inr ⟨(earlyFail_after hw (by omega) hj).2 hearly, ?_, ?_⟩
  · cases ok <;> simp [Jump.target, h₁₈]
  · cases ok with
    | true => exact .inr (by simp [Jump.target, h₁₈])
    | false =>
        have : s.attempt = 0 := by
          by_cases hpos : 0 < s.attempt
          · exact absurd ⟨hpos, rfl⟩ hno
          · omega
        exact .inl (by simp [this])

theorem doomed_step (hs : Tracked s) (hd : Doomed s) (h : bootStep name s a = some t) :
    Doomed t := by
  obtain ⟨-, w, hw, rfl⟩ := bootStep_eq_some.1 h
  rcases hd with ⟨k, hk, hreboot, hnone⟩ | ⟨hearly, hge, hlast⟩
  · -- the history of an earlier attempt is closed
    refine .inl ⟨k, ?_, List.mem_append_right _ hreboot, fun hmem => ?_⟩
    · rw [after_attempt]
      split <;> omega
    · rcases mem_after_ops hmem with ⟨heq, -⟩ | hold
      · exact absurd heq (Nat.ne_of_lt hk)
      · exact hnone hold
  · obtain ⟨-, hnone, hst⟩ := hs.early hearly
    by_cases hj : w.jump = .reboot
    · -- the reboot of an attempt that was never attended
      have hjump := bootPhase_jump hw
      rw [hj] at hjump
      have h₁₉ := hw
      rw [hjump.1] at h₁₉
      have hops : w.ops = [.reboot] := by
        rcases bootPhase_restart h₁₉ with ⟨-, rfl⟩ | ⟨hne, -⟩
        · rfl
        · exact absurd hjump.2 hne
      refine .inl ⟨s.attempt, ?_, by simp [hops], fun hmem => ?_⟩
      · rw [after_attempt, if_pos hj]
        exact Nat.lt_succ_self _
      · rcases mem_after_ops hmem with ⟨-, hnew⟩ | hold
        · simp [hops] at hnew
        · exact hnone 1 hold
    · have htarget := bootPhase_target hw
      simp only [hj, false_and, false_or] at htarget
      have hattempt : (s.after w).attempt = s.attempt := attempt_after hj
      -- a later attempt in phase 19 has status 1 and reboots
      have hfirst : s.attempt = 0 := by
        rcases hlast with hzero | h₁₉
        · exact hzero
        · have hne := (restart_status hw h₁₉ hj).1
          rw [hst, startStatus] at hne
          split at hne
          · assumption
          · exact absurd rfl hne
      have hphase : (s.after w).phase = w.jump.target s.phase := rfl
      exact .inr ⟨(earlyFail_after hw (by omega) hj).2 hearly, by omega, .inl (by omega)⟩

theorem Doomed.not_honest (hs : Tracked s) (hd : Doomed s) (hret : s.returned) :
    ¬ StatusHonest s := by
  rintro ⟨hreboots, hreturned⟩
  rcases hd with ⟨k, -, hreboot, hnone⟩ | ⟨hearly, hge, hlast⟩
  · exact hnone (hreboots k hreboot)
  · obtain ⟨-, hnone, hst⟩ := hs.early hearly
    have hfirst : s.attempt = 0 := by
      rcases hs.chronicle.stopped hret with h₂ | h₂₃ <;> omega
    rw [startStatus, if_pos hfirst] at hst
    rcases hreturned hret hst with hmem | hmem
    · exact hnone 0 hmem
    · exact hnone 2 hmem

end Step

theorem sound_init : Sound bootInit :=
  ⟨tracked_init, by simp [bootInit], fun h => absurd h (by decide)⟩

/-- The status of `boot` is honest in every state when no attempt that fails before
`cont_attend` gets behind phase 18, other than by leaving the loop in a later attempt;
a run that has returned is honest only then. -/
theorem boot_status_honest {name : List Char} {s : BootState} {as : List BootAnswer}
    (h : run (bootStep name) bootInit as = some s) :
    (Meets (bootStep name) AttemptAttended bootInit as → StatusHonest s) ∧
      (s.returned →
        (StatusHonest s ↔ Meets (bootStep name) AttemptAttended bootInit as)) := by
  have hhonest : Meets (bootStep name) AttemptAttended bootInit as → StatusHonest s := fun hm =>
    (meets_invariant (fun _ _ _ => sound_step) sound_init hm h).honest
  refine ⟨hhonest, fun hret => ⟨fun hs => ?_, hhonest⟩⟩
  have htracked := run_invariant (fun _ _ _ => tracked_step) tracked_init h
  rcases meets_or_doomed (fun _ _ _ => tracked_step) (fun _ _ _ _ => doomed_of_miss)
    (fun _ _ _ => doomed_step) tracked_init h with hm | hd
  · exact hm
  · exact absurd hs (hd.not_honest htracked hret)

/-- The run without failures. -/
theorem boot_status_honest_plain : ∃ s,
    run (bootStep ['w', 'e', 'b']) bootInit plainBoot = some s ∧ s.returned ∧
      (StatusHonest s ↔
        Meets (bootStep ['w', 'e', 'b']) AttemptAttended bootInit plainBoot) := by
  obtain ⟨s, h, hret⟩ := plainBoot_run ['w', 'e', 'b']
  exact ⟨s, h, hret, (boot_status_honest h).2 hret⟩

/-- The container is hung up once and then its cgroup cannot be prepared: the second
attempt never reaches `cont_attend` and is followed by a reboot. -/
theorem boot_reboots_unattended : ∃ s,
    run (bootStep ['w', 'e', 'b']) bootInit
      ((plainBoot.take 13 ++ [BootAnswer.attend 1]) ++
        [BootAnswer.script (.exited 0), .unsetRootfs true, .none, .cleaned .moved true true,
          .unsetSupDevices true, .none, .script (.exited 0), .pipe (some (3, 4)),
          .pty (.ready 5), .setCgroup false, .none, .cleaned .moved true true,
          .unsetSupDevices true, .none]) = some s ∧
      ¬ StatusHonest s := by
  have hrun : ∃ s, run (bootStep ['w', 'e', 'b']) bootInit
      ((plainBoot.take 13 ++ [BootAnswer.attend 1]) ++
        [BootAnswer.script (.exited 0), .unsetRootfs true, .none, .cleaned .moved true true,
          .unsetSupDevices true, .none, .script (.exited 0), .pipe (some (3, 4)),
          .pty (.ready 5), .setCgroup false, .none, .cleaned .moved true true,
          .unsetSupDevices true, .none]) = some s ∧
      (1, .reboot) ∈ s.ops ∧ (1, .attend 1) ∉ s.ops := exists_run (by decide)
  obtain ⟨s, h, hreboot, hnone⟩ := hrun
  exact ⟨s, h, fun hs => hnone (hs.1 1 hreboot)⟩

end Vzgot.Boot

import Vzgot.Boot.Phases

/-!
# What one phase of `boot` can do

Every operation except opening and closing a descriptor belongs to one phase
(`bootPhase_home`). The error exit is taken from the phases before 13 and from
phase 14, `REBOOT` from phase 19, `phase=999` from phase 18, and the loop is left
from phase 1 and from the phases behind 21 (`bootPhase_jump`). The status changes
only where the lock is refused, in phase 13 and in phase 19 (`bootPhase_status`).
-/

set_option autoImplicit false

namespace Vzgot.Boot

open Transition

/-- The phase an operation or a jump belongs to; descriptors are opened and closed in
several phases. -/
def BootOp.home : BootOp → Option Nat
  | .lock _ => some 1
  | .script .vzboot _ => some 2
  | .setCgroup _ => some 5
  | .setSupDevices _ => some 6
  | .trackConsole _ => some 7
  | .clone _ => some 8
  | .setContPid _ | .setStart _ => some 9
  | .moveToCgroup .containers _ | .mapcontids _ => some 10
  | .script .vzethup _ => some 11
  | .clearance _ => some 12
  | .attend _ => some 13
  | .script .vzethdown _ => some 14
  | .unsetRootfs _ => some 15
  | .moveToCgroup _ _ | .cleanCgroup _ => some 17
  | .unsetSupDevices _ => some 18
  | .reboot => some 19
  | .unlock _ => some 20
  | .tooBad phase => some phase
  | .opened _ | .close _ => none

/-- The phase that a result belongs to; scripts are run in several phases, and several
phases call nothing. -/
def BootAnswer.home : BootAnswer → Option Nat
  | .config _ => some 0
  | .lock _ => some 1
  | .pipe _ => some 3
  | .pty _ => some 4
  | .setCgroup _ => some 5
  | .setSupDevices _ => some 6
  | .console _ => some 7
  | .clone _ => some 8
  | .record _ _ => some 9
  | .confine _ _ _ _ => some 10
  | .clearance _ => some 12
  | .attend _ => some 13
  | .unsetRootfs _ => some 15
  | .cleaned _ _ _ => some 17
  | .unsetSupDevices _ => some 18
  | .unlock _ _ => some 20
  | .script _ | .none => Option.none

section Phase

variable {name : List Char} {phase : Nat} {v : BootVars} {a : BootAnswer} {w : Work}

attribute [local simp] bootPhase

/-- A phase takes its own results only. -/
theorem bootPhase_answer (h : bootPhase name phase v a = some w) {p : Nat}
    (hp : a.home = some p) : phase = p := by
  unfold bootPhase at h
  split at h
  all_goals
    first
    | cases hp
      done
    | cases hp
      rfl
    | cases h

theorem closeSyncPipe_status (v : BootVars) : (closeSyncPipe v).1.status = v.status := by
  simp only [closeSyncPipe]
  split <;> split <;> rfl

theorem closeSyncPipe_home {v : BootVars} {op : BootOp} (h : op ∈ (closeSyncPipe v).2) :
    op.home = none := by
  simp only [closeSyncPipe] at h
  split at h <;> split at h <;> simp at h
  · rcases h with rfl | rfl <;> rfl
  · exact h ▸ rfl
  · exact h ▸ rfl

theorem bootPhase_home (h : bootPhase name phase v a = some w) :
    ∀ op ∈ w.ops, op.home = none ∨ op.home = some phase := by
  unfold bootPhase at h
  split at h
  case h_26 =>
    -- phase 16 only closes descriptors
    cases h
    intro op hop
    simp only [Work.done, List.mem_append, List.mem_cons, List.not_mem_nil, or_false] at hop
    rcases hop with hop | rfl | rfl
    · exact .inl (closeSyncPipe_home hop)
    · exact .inl rfl
    · exact .inl rfl
  all_goals try (simp only [Work.check] at h)
  all_goals
    repeat' split at h
    all_goals cases h
    all_goals simp [Work.done, Work.bad, BootOp.home]

/-- An operation is executed in its own phase. -/
theorem bootPhase_mem (h : bootPhase name phase v a = some w) {op : BootOp} {p : Nat}
    (hop : op.home = some p) (hmem : op ∈ w.ops) : phase = p := by
  rcases bootPhase_home h op hmem with hnone | hsome
  · rw [hop] at hnone
    cases hnone
  · rw [hop] at hsome
    exact (Option.some.inj hsome).symm

theorem bootPhase_not_mem (h : bootPhase name phase v a = some w) {op : BootOp} {p : Nat}
    (hop : op.home = some p) (hp : phase ≠ p) : op ∉ w.ops :=
  fun hmem => hp (bootPhase_mem h hop hmem)

/-- Where the jumps of the loop are taken. -/
theorem bootPhase_jump (h : bootPhase name phase v a = some w) :
    match w.jump with
    | .next => ∀ p, .tooBad p ∉ w.ops
    | .tooBad => .tooBad phase ∈ w.ops ∧ (phase < 13 ∨ phase = 14)
    | .reboot => phase = 19 ∧ v.status = 1
    | .skip => phase = 18 ∧ a = .unsetSupDevices false
    | .stop => phase = 1 ∨ 22 ≤ phase := by
  unfold bootPhase at h
  split at h
  case h_26 =>
    cases h
    simp [Work.done]
    intro p hp
    cases closeSyncPipe_home hp
  all_goals try (simp only [Work.check] at h)
  all_goals
    repeat' split at h
    all_goals cases h
    all_goals simp_all [Work.done, Work.bad]

/-- Where a phase goes. -/
theorem bootPhase_target (h : bootPhase name phase v a = some w) :
    (w.jump = .next ∧ w.jump.target phase = phase + 1) ∨
      (w.jump = .tooBad ∧ (phase < 13 ∨ phase = 14) ∧ w.jump.target phase = 16) ∨
      (w.jump = .reboot ∧ phase = 19 ∧ w.jump.target phase = 2) ∨
      (w.jump = .skip ∧ phase = 18 ∧ w.jump.target phase = 1000) ∨
      (w.jump = .stop ∧ (phase = 1 ∨ 22 ≤ phase) ∧ w.jump.target phase = phase + 1) := by
  have hjump := bootPhase_jump h
  cases hj : w.jump with
  | next => simp [Jump.target]
  | tooBad =>
      rw [hj] at hjump
      simp [Jump.target, hjump.2]
  | reboot =>
      rw [hj] at hjump
      simp [Jump.target, hjump.1]
  | skip =>
      rw [hj] at hjump
      simp [Jump.target, hjump.1]
  | stop =>
      rw [hj] at hjump
      simp [Jump.target, hjump]

theorem bootPhase_status (h : bootPhase name phase v a = some w)
    (h₁ : phase ≠ 1) (h₁₃ : phase ≠ 13) (h₁₉ : phase ≠ 19) : w.vars.status = v.status := by
  unfold bootPhase at h
  split at h
  case h_26 =>
    cases h
    exact closeSyncPipe_status v
  all_goals try (simp only [Work.check] at h)
  all_goals
    repeat' split at h
    all_goals cases h
    all_goals first | rfl | contradiction

/-- Phase 1: the lock decides between phase 2 and the end of the loop. -/
theorem bootPhase_locking (h : bootPhase name 1 v a = some w) :
    (a = .lock true ∧ w = .done v [.lock true]) ∨
      (a = .lock false ∧ w = ⟨{ v with status := 1 }, [.lock false], .stop⟩) := by
  cases a with
  | lock granted =>
      simp only [bootPhase, Option.some.injEq] at h
      subst h
      cases granted
      · exact .inr ⟨rfl, rfl⟩
      · exact .inl ⟨rfl, rfl⟩
  | _ => simp at h

/-- The descriptors of the pipe change where it is opened and where it is closed. -/
theorem bootPhase_pipe (h : bootPhase name phase v a = some w) (h₃ : phase ≠ 3)
    (h₁₆ : phase ≠ 16) :
    w.vars.syncPipe0 = v.syncPipe0 ∧ w.vars.syncPipe1 = v.syncPipe1 := by
  unfold bootPhase at h
  split at h
  case h_26 => contradiction
  all_goals try (simp only [Work.check] at h)
  all_goals
    repeat' split at h
    all_goals cases h
    all_goals first | exact ⟨rfl, rfl⟩ | contradiction

/-- An error exit recorded before `cont_attend` is an error exit taken. -/
theorem bootPhase_tooBad (h : bootPhase name phase v a = some w) {p : Nat} (hp : p < 13)
    (hmem : .tooBad p ∈ w.ops) : phase = p ∧ w.jump = .tooBad ∧ w.vars.status = v.status := by
  have hphase := bootPhase_mem h rfl hmem
  have h₁ : phase ≠ 1 := by
    rintro rfl
    rcases bootPhase_locking h with ⟨-, rfl⟩ | ⟨-, rfl⟩
    · simp [Work.done] at hmem
    · simp at hmem
  refine ⟨hphase, ?_, bootPhase_status h h₁ (by omega) (by omega)⟩
  have hjump := bootPhase_jump h
  cases hj : w.jump with
  | tooBad => rfl
  | next =>
      rw [hj] at hjump
      exact absurd hmem (hjump p)
  | reboot =>
      rw [hj] at hjump
      omega
  | skip =>
      rw [hj] at hjump
      omega
  | stop =>
      rw [hj] at hjump
      omega

theorem check_jump {p : Nat} {op : BootOp} {ok : Bool}
    (hj : (Work.check p v op ok).jump ≠ .tooBad) : ok = true ∧ Work.check p v op ok = .done v [op] := by
  cases ok with
  | true => exact ⟨rfl, rfl⟩
  | false => exact absurd rfl hj

/-- Phase 2: the boot script. -/
theorem bootPhase_script (h : bootPhase name 2 v a = some w) :
    ∃ fate, w = .check 2 v (.script .vzboot fate) (cntInitscript fate) := by
  cases a with
  | script fate =>
      simp only [bootPhase, Option.some.injEq] at h
      exact ⟨fate, h.symm⟩
  | _ => simp at h

/-- Phase 3: the pipe. -/
theorem bootPhase_opening (h : bootPhase name 3 v a = some w) :
    w.jump = .tooBad ∨ 0 ≤ w.vars.syncPipe0 := by
  cases a with
  | pipe fds =>
      cases fds with
      | none =>
          simp only [bootPhase, Option.some.injEq] at h
          exact .inl (h ▸ rfl)
      | some fds =>
          obtain ⟨r, wr⟩ := fds
          simp only [bootPhase, Option.some.injEq] at h
          exact .inr (h ▸ Int.natCast_nonneg r)
  | _ => simp at h

/-- Phase 5: the cgroup. -/
theorem bootPhase_cgroup (h : bootPhase name 5 v a = some w) :
    ∃ ok, w = .check 5 v (.setCgroup ok) ok := by
  cases a with
  | setCgroup ok =>
      simp only [bootPhase, Option.some.injEq] at h
      exact ⟨ok, h.symm⟩
  | _ => simp at h

/-- Phase 10: the move to the containers cgroup and the id maps, with both results
dropped. -/
theorem bootPhase_confine (h : bootPhase name 10 v a = some w) :
    ∃ moved mapped, w = .done v [.mapcontids mapped, .moveToCgroup .containers moved] := by
  cases a with
  | confine move uidMap setgroups gidMap =>
      simp only [bootPhase, Option.some.injEq] at h
      exact ⟨_, _, h.symm⟩
  | _ => simp at h

/-- Phase 11: the network script. -/
theorem bootPhase_network (h : bootPhase name 11 v a = some w) :
    ∃ fate, a = .script fate ∧ w = .check 11 v (.script .vzethup fate) (cntInitscript fate) := by
  cases a with
  | script fate =>
      simp only [bootPhase, Option.some.injEq] at h
      exact ⟨fate, rfl, h.symm⟩
  | _ => simp at h

/-- Phase 12: the clearance, and the end of the pipe for writing. -/
theorem bootPhase_clearance (h : bootPhase name 12 v a = some w) :
    ∃ sent, a = .clearance sent ∧ w = .done v [.close v.syncPipe1, .clearance sent] := by
  cases a with
  | clearance sent =>
      simp only [bootPhase, Option.some.injEq] at h
      exact ⟨sent, rfl, h.symm⟩
  | _ => simp at h

/-- Phase 13: the status is the one of `cont_attend`. -/
theorem bootPhase_attending (h : bootPhase name 13 v a = some w) :
    ∃ status, a = .attend status ∧ w = .done { v with status := status } [.attend status] := by
  cases a with
  | attend status =>
      simp only [bootPhase, Option.some.injEq] at h
      exact ⟨status, rfl, h.symm⟩
  | _ => simp at h

/-- Phase 8 with a container process. -/
theorem bootPhase_clone {pid : Nat} (h : bootPhase name phase v (.clone (some pid)) = some w) :
    phase = 8 ∧
      w = .done { v with childPid := pid } [.close v.syncPipe0, .clone (some pid)] := by
  have h₈ : phase = 8 := bootPhase_answer h rfl
  rw [h₈] at h
  simp only [bootPhase, Option.some.injEq] at h
  exact ⟨h₈, h.symm⟩

theorem bootPhase_cloning (h : bootPhase name 8 v a = some w) :
    w.jump = .tooBad ∨ ∃ pid, a = .clone (some pid) := by
  cases a with
  | clone pid =>
      cases pid with
      | none =>
          simp only [bootPhase, Option.some.injEq] at h
          exact .inl (h ▸ rfl)
      | some pid => exact .inr ⟨pid, rfl⟩
  | _ => simp at h

/-- Phase 16: the descriptors are closed. -/
theorem bootPhase_closing (h : bootPhase name 16 v a = some w) :
    w = .done (closeSyncPipe v).1
      ((closeSyncPipe v).2 ++ [BootOp.close v.ptyMasterFd, .close v.slaveFd]) := by
  cases a with
  | none =>
      simp only [bootPhase, Option.some.injEq] at h
      exact h.symm
  | _ => simp at h

theorem closeSyncPipe_closes (h : 0 ≤ v.syncPipe0) :
    .close v.syncPipe1 ∈ (closeSyncPipe v).2 := by
  simp only [closeSyncPipe, if_pos h]
  split <;> simp

/-- Phase 17: both cgroups are cleaned. -/
theorem bootPhase_cleaning (h : bootPhase name 17 v a = some w) :
    w.jump = .next ∧ ∃ top, w.ops =
      [.cleanCgroup (cleanPath .supervisors (contname name)),
        .cleanCgroup (cleanPath .containers (contname name)), .moveToCgroup .top top] := by
  cases a with
  | cleaned top containers supervisors =>
      simp only [bootPhase, Option.some.injEq] at h
      subst h
      exact ⟨rfl, _, rfl⟩
  | _ => simp at h

/-- Phase 18: a failure jumps over the phases 19 to 21. -/
theorem bootPhase_devices (h : bootPhase name 18 v a = some w) :
    ∃ ok, a = .unsetSupDevices ok ∧ w = ⟨v, [.unsetSupDevices ok], if ok then .next else .skip⟩ := by
  cases a with
  | unsetSupDevices ok =>
      simp only [bootPhase, Option.some.injEq] at h
      exact ⟨ok, rfl, h.symm⟩
  | _ => simp at h

/-- Phase 20: the result of the unlocking is dropped. -/
theorem bootPhase_unlocking (h : bootPhase name 20 v a = some w) :
    ∃ mkdir unlink, a = .unlock mkdir unlink ∧ w = .done v [.unlock (mkdir && unlink)] := by
  cases a with
  | unlock mkdir unlink =>
      simp only [bootPhase, Option.some.injEq] at h
      exact ⟨mkdir, unlink, rfl, h.symm⟩
  | _ => simp at h

/-- Phase 19: the status decides between `REBOOT` and the end. -/
theorem bootPhase_restart (h : bootPhase name 19 v a = some w) :
    (v.status = 1 ∧ w = ⟨v, [.reboot], .reboot⟩) ∨
      (v.status ≠ 1 ∧ w.ops = [] ∧ w.jump = .next ∧
        w.vars.status = if v.status = 2 then 0 else v.status) := by
  cases a with
  | none =>
      simp only [bootPhase, Option.some.injEq] at h
      subst h
      by_cases h₁ : v.status = 1
      · exact .inl ⟨h₁, by rw [if_pos h₁]⟩
      · rw [if_neg h₁]
        by_cases h₂ : v.status = 2
        · rw [if_pos h₂, if_pos h₂]
          exact .inr ⟨h₁, rfl, rfl, rfl⟩
        · rw [if_neg h₂, if_neg h₂]
          exact .inr ⟨h₁, rfl, rfl, rfl⟩
  | _ => simp at h

theorem mem_after_ops {s : BootState} {e : Nat × BootOp} (h : e ∈ (s.after w).ops) :
    (e.1 = s.attempt ∧ e.2 ∈ w.ops) ∨ e ∈ s.ops := by
  rw [after_ops, List.mem_append, List.mem_map] at h
  rcases h with ⟨op, hop, rfl⟩ | h
  · exact .inl ⟨rfl, hop⟩
  · exact .inr h

end Phase

/-! ## What the history tells about the place -/

/-- The history is the one of the attempts so far, the current attempt has executed
operations of earlier phases only, and the loop ends behind phase 1 or at the end. -/
structure Chronicled (s : BootState) : Prop where
  bound : ∀ e ∈ s.ops, e.1 ≤ s.attempt
  behind : ∀ op p, (s.attempt, op) ∈ s.ops → op.home = some p → p < s.phase
  stopped : s.returned → s.phase = 2 ∨ 23 ≤ s.phase

section Chronicle

variable {name : List Char} {s t : BootState} {a : BootAnswer} {w : Work}

theorem attempt_after (hj : w.jump ≠ .reboot) : (s.after w).attempt = s.attempt := by
  rw [after_attempt, if_neg hj]

/-- Where a phase goes inside an attempt. -/
theorem phase_after (hw : bootPhase name s.phase s.vars a = some w) (hj : w.jump ≠ .reboot) :
    (w.jump = .next ∧ (s.after w).phase = s.phase + 1) ∨
      (w.jump = .tooBad ∧ (s.phase < 13 ∨ s.phase = 14) ∧ (s.after w).phase = 16) ∨
      (w.jump = .skip ∧ s.phase = 18 ∧ (s.after w).phase = 1000) ∨
      (w.jump = .stop ∧ (s.phase = 1 ∨ 22 ≤ s.phase) ∧ (s.after w).phase = s.phase + 1) := by
  have htarget := bootPhase_target hw
  simp only [hj, false_and, false_or] at htarget
  exact htarget

/-- A `REBOOT` starts an attempt without history. -/
theorem Chronicled.reboot (hs : Chronicled s) (hj : w.jump = .reboot) (op : BootOp) :
    ((s.after w).attempt, op) ∉ (s.after w).ops := by
  intro hop
  rw [after_attempt, if_pos hj] at hop
  rcases mem_after_ops hop with ⟨heq, -⟩ | hmem
  · exact Nat.succ_ne_self _ heq
  · exact absurd (hs.bound _ hmem) (Nat.not_succ_le_self _)

theorem Chronicled.step (hs : Chronicled s) (h : bootStep name s a = some t) : Chronicled t := by
  obtain ⟨-, w, hw, rfl⟩ := bootStep_eq_some.1 h
  have htarget := bootPhase_target hw
  have hphase : (s.after w).phase = w.jump.target s.phase := rfl
  refine ⟨fun e he => ?_, fun op p hop hhome => ?_, fun hret => ?_⟩
  · have hle : s.attempt ≤ (s.after w).attempt := by
      rw [after_attempt]
      split <;> omega
    rcases mem_after_ops he with ⟨heq, -⟩ | hold
    · exact heq ▸ hle
    · exact Nat.le_trans (hs.bound e hold) hle
  · by_cases hj : w.jump = .reboot
    · exact absurd hop (hs.reboot hj op)
    · simp only [hj, false_and, false_or] at htarget
      rw [after_attempt, if_neg hj] at hop
      rcases mem_after_ops hop with ⟨-, hnew⟩ | hold
      · have := bootPhase_mem hw hhome hnew
        omega
      · have := hs.behind op p hold hhome
        omega
  · have hj := (after_returned s w).1 hret
    have hjump := bootPhase_jump hw
    rw [hj] at hjump
    rw [hphase, hj, Jump.target]
    omega

/-- The history only grows. -/
theorem run_ops_mono {as : List BootAnswer} {e : Nat × BootOp} (he : e ∈ s.ops)
    (h : run (bootStep name) s as = some t) : e ∈ t.ops := by
  have hstep : ∀ (u : BootState) (b : BootAnswer) (v : BootState), e ∈ u.ops →
      bootStep name u b = some v → e ∈ v.ops := by
    intro u b v hu hv
    obtain ⟨-, w, -, rfl⟩ := bootStep_eq_some.1 hv
    exact List.mem_append_right _ hu
  exact run_invariant hstep he h

theorem chronicled_init : Chronicled bootInit :=
  ⟨by simp [bootInit], by simp [bootInit], by decide⟩

end Chronicle

/-! ## The first two phases -/

/-- State behind phase 0 with a configuration. -/
def configuredState : BootState := { bootInit with phase := 1 }

/-- State behind phase 0 without one. -/
def unconfiguredState : BootState := { bootInit with phase := 16, ops := [(0, .tooBad 0)] }

/-- State behind phase 1 with the lock. -/
def lockedState : BootState := { bootInit with phase := 2, ops := [(0, .lock true)] }

/-- State behind phase 1 without it. -/
def refusedState : BootState where
  vars := { bootInit.vars with status := 1 }
  phase := 2
  proceed := false
  attempt := 0
  ops := [(0, .lock false)]

section Start

variable {name : List Char} {s t : BootState} {as : List BootAnswer}

theorem run_returned (h : run (bootStep name) s as = some t) (hs : s.returned) :
    as = [] ∧ s = t := by
  cases as with
  | nil => exact ⟨rfl, Option.some.inj h⟩
  | cons a as =>
      obtain ⟨m, hm, -⟩ := run_cons_eq_some.1 h
      rw [bootStep_eq_some, hs] at hm
      exact absurd hm.1 (by decide)

/-- Phase 0 of a run. -/
theorem run_start (h : run (bootStep name) bootInit as = some s) :
    as = [] ∨ (∃ rest, as = .config false :: rest) ∨
      ∃ rest, as = .config true :: rest ∧ run (bootStep name) configuredState rest = some s := by
  cases as with
  | nil => exact .inl rfl
  | cons a as =>
      obtain ⟨m, hm, hrun⟩ := run_cons_eq_some.1 h
      cases a with
      | config loaded =>
          cases hm
          cases loaded with
          | true => exact .inr (.inr ⟨as, rfl, hrun⟩)
          | false => exact .inr (.inl ⟨as, rfl⟩)
      | _ => cases hm

/-- Phase 1 of a run. -/
theorem run_configured (h : run (bootStep name) configuredState as = some s) :
    (as = [] ∧ s = configuredState) ∨ (as = [.lock false] ∧ s = refusedState) ∨
      ∃ rest, as = .lock true :: rest ∧ run (bootStep name) lockedState rest = some s := by
  cases as with
  | nil => exact .inl ⟨rfl, (Option.some.inj h).symm⟩
  | cons a as =>
      obtain ⟨m, hm, hrun⟩ := run_cons_eq_some.1 h
      cases a with
      | lock granted =>
          cases hm
          cases granted with
          | true => exact .inr (.inr ⟨as, rfl, hrun⟩)
          | false =>
              obtain ⟨rfl, rfl⟩ := run_returned hrun rfl
              exact .inr (.inl ⟨rfl, rfl⟩)
      | _ => cases hm

end Start

/-! ## A run without failures -/

/-- Results in a run without failures whose container powers off. -/
def plainBoot : List BootAnswer :=
  [.config true, .lock true, .script (.exited 0), .pipe (some (3, 4)), .pty (.ready 5),
    .setCgroup true, .setSupDevices true, .console (.tracked 6 100), .clone (some 101),
    .record .written true, .confine .moved .written .written .written, .script (.exited 0),
    .clearance true, .attend 2, .script (.exited 0), .unsetRootfs true, .none,
    .cleaned .moved true true, .unsetSupDevices true, .none, .unlock true true, .none, .none]

theorem plainBoot_run (name : List Char) :
    ∃ s, run (bootStep name) bootInit plainBoot = some s ∧ s.returned :=
  ⟨_, rfl, rfl⟩

end Vzgot.Boot

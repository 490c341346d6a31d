import Vzgot.Boot.History
import Vzgot.Library.Handles

/-!
# The descriptors of `boot`

Phase 3 of `boot` opens the sync pipe, phase 4 the master of the pty, and phase 7 its slave.
Phase 8 closes the end of the pipe for reading, phase 12 the other end, and phase 16 closes
what is left: `slave_fd`, `pty_master_fd`, and, for each end of the pipe that is not
negative, `sync_pipe[1]`.

As neither phase 8 nor phase 12 marks its end as closed, and as `slave_fd` is zero before
phase 7, phase 16 is right only behind the failures in which the run holds just `slave_fd`,
`pty_master_fd` and `sync_pipe[1]` (`Abandoned`, `boot_descriptors_iff`).
-/

set_option autoImplicit false

namespace Vzgot.Boot

open Transition Handles

/-- What an operation does to the descriptors. -/
def BootOp.use : BootOp → Option (Use Int)
  | .opened fd => some (.acquire fd)
  | .close fd => some (.release fd)
  | _ => none

/-- The uses of descriptors in a run. -/
def uses (ops : List (Nat × BootOp)) : List (Use Int) := ops.filterMap fun e => e.2.use

/-- Every close is one of a descriptor that the run has opened and not closed since, and
behind phase 16 no descriptor of the attempt is open. -/
structure Owning (s : BootState) : Prop where
  proper : Proper (uses s.ops)
  left : s.phase = 17 → ∀ fd, (s.attempt, .opened fd) ∈ s.ops → ¬ Held (uses s.ops) fd

/-- Descriptors that the kernel gives. -/
def BootAnswer.fds : BootAnswer → List Int
  | .pipe (some (r, w)) => [r, w]
  | .pty (.notGranted fd) | .pty (.notUnlocked fd) | .pty (.ready fd) => [fd]
  | .console (.noLogger slave) | .console (.tracked slave _) => [slave]
  | _ => []

/-- The kernel gives descriptors that are not in use. -/
def GivesFresh (s : BootState) (a : BootAnswer) : Prop :=
  a.fds.Nodup ∧ ∀ fd ∈ a.fds, ¬ Held (uses s.ops) fd

instance decidableGivesFresh (s : BootState) (a : BootAnswer) : Decidable (GivesFresh s a) :=
  inferInstanceAs (Decidable (_ ∧ _))

/-- The phase that has just failed. -/
def failedAt : List (Nat × BootOp) → Option Nat
  | (_, .tooBad phase) :: _ => some phase
  | _ => none

/-- The attempt has been abandoned in phase 9 or 11, or, when the end of the pipe for reading
is the descriptor that `slave_fd` is, in one of the phases 4 to 7 with a pty. -/
def Abandoned (v : BootVars) (failed : Option Nat) : Prop :=
  failed = some 9 ∨ failed = some 11 ∨
    (v.slaveFd = v.syncPipe0 ∧ 0 ≤ v.ptyMasterFd ∧ ∃ p, 4 ≤ p ∧ p ≤ 7 ∧ failed = some p)

/-- Phase 16 is executed for such an attempt only. -/
def ClosesAbandoned (s : BootState) (_ : BootAnswer) : Prop :=
  s.phase = 16 → Abandoned s.vars (failedAt s.ops)

/-! ## What is open in a phase -/

/-- The open descriptors `l` in front of a phase up to 15. -/
inductive Stage : Nat → BootVars → List Int → Prop where
  | closed {phase : Nat} {v : BootVars} (hphase : phase ≤ 3) (hslave : v.slaveFd = 0)
      (hpty : v.ptyMasterFd = -1) (hpipe : v.syncPipe0 = 0) : Stage phase v []
  | piped {v : BootVars} (hslave : v.slaveFd = 0) (hpty : v.ptyMasterFd = -1)
      (h₀ : 0 ≤ v.syncPipe0) (h₁ : 0 ≤ v.syncPipe1)
      (hnodup : [v.syncPipe1, v.syncPipe0].Nodup) : Stage 4 v [v.syncPipe1, v.syncPipe0]
  | terminal {phase : Nat} {v : BootVars} (hfirst : 5 ≤ phase) (hlast : phase ≤ 7)
      (hslave : v.slaveFd = 0) (h₀ : 0 ≤ v.syncPipe0) (h₁ : 0 ≤ v.syncPipe1)
      (hpty : 0 ≤ v.ptyMasterFd) (hnodup : [v.ptyMasterFd, v.syncPipe1, v.syncPipe0].Nodup) :
      Stage phase v [v.ptyMasterFd, v.syncPipe1, v.syncPipe0]
  | console {v : BootVars} (h₀ : 0 ≤ v.syncPipe0)
      (hnodup : [v.syncPipe0, v.slaveFd, v.ptyMasterFd, v.syncPipe1].Nodup) :
      Stage 8 v [v.syncPipe0, v.slaveFd, v.ptyMasterFd, v.syncPipe1]
  | cloned {phase : Nat} {v : BootVars} (hfirst : 9 ≤ phase) (hlast : phase ≤ 12)
      (h₀ : 0 ≤ v.syncPipe0) (hnodup : [v.syncPipe1, v.slaveFd, v.ptyMasterFd].Nodup) :
      Stage phase v [v.syncPipe1, v.slaveFd, v.ptyMasterFd]
  | cleared {phase : Nat} {v : BootVars} (hfirst : 13 ≤ phase) (hlast : phase ≤ 15)
      (h₀ : 0 ≤ v.syncPipe0) (hnodup : [v.slaveFd, v.ptyMasterFd].Nodup) :
      Stage phase v [v.slaveFd, v.ptyMasterFd]

/-- The descriptors that phase 16 closes are all the open ones exactly for an abandoned
attempt. -/
structure Closing (v : BootVars) (failed : Option Nat) (l : List Int) : Prop where
  pipe : 0 ≤ v.syncPipe0
  nodup : l.Nodup
  perm_iff : [v.slaveFd, v.ptyMasterFd, v.syncPipe1].Perm l ↔ Abandoned v failed
  status : Abandoned v failed → v.status = 0

/-- Where the loop is, and what is open there. -/
inductive Place (s : BootState) (l : List Int) : Prop where
  | stage (hstage : Stage s.phase s.vars l) (hstatus : s.phase ≤ 13 → s.vars.status = 0)
  | closing (hphase : s.phase = 16) (h : Closing s.vars (failedAt s.ops) l)
  | left (hphase : 17 ≤ s.phase) (hstatus : s.vars.status = 0) (hnone : l = [])

/-- Runs in which phase 16 has only been executed for an abandoned attempt. -/
structure Keeping (s : BootState) : Prop where
  attempt : ∀ e ∈ s.ops, e.1 = s.attempt
  proper : Proper (uses s.ops)
  left : s.phase = 17 → Holds (uses s.ops) []
  place : s.proceed = true → ∃ l, Holds (uses s.ops) l ∧ Place s l

/-! ## Phase 16 -/

section Closings

variable {v : BootVars} {failed : Option Nat} {l : List Int} {phase p : Nat}

theorem not_abandoned (h₉ : failed ≠ some 9) (h₁₁ : failed ≠ some 11)
    (hmiddle : ∀ p, 4 ≤ p → p ≤ 7 → failed = some p → v.slaveFd = v.syncPipe0 → v.ptyMasterFd < 0) :
    ¬ Abandoned v failed := by
  rintro (h | h | ⟨hslave, hpty, p, hfirst, hlast, h⟩)
  · exact h₉ h
  · exact h₁₁ h
  · exact absurd (hmiddle p hfirst hlast h hslave) (Int.not_lt.mpr hpty)

/-- Descriptors that are not all closed, and an attempt that is not abandoned. -/
theorem closing_of_not (hpipe : 0 ≤ v.syncPipe0) (hnodup : l.Nodup)
    (hperm : ¬ [v.slaveFd, v.ptyMasterFd, v.syncPipe1].Perm l) (habandoned : ¬ Abandoned v failed) :
    Closing v failed l where
  pipe := hpipe
  nodup := hnodup
  perm_iff := iff_of_false hperm habandoned
  status := fun h => absurd h habandoned

/-- Another number of descriptors than three is never all closed. -/
theorem closing_of_length (hpipe : 0 ≤ v.syncPipe0) (hnodup : l.Nodup) (hlength : l.length ≠ 3)
    (habandoned : ¬ Abandoned v failed) : Closing v failed l :=
  closing_of_not hpipe hnodup (fun h => hlength h.length_eq.symm) habandoned

/-- With the pty and no slave, `slave_fd` decides. -/
theorem closing_terminal (h₀ : 0 ≤ v.syncPipe0) (hpty : 0 ≤ v.ptyMasterFd)
    (hnodup : [v.ptyMasterFd, v.syncPipe1, v.syncPipe0].Nodup) (hstatus : v.status = 0)
    (hfirst : 4 ≤ p) (hlast : p ≤ 7) :
    Closing v (some p) [v.ptyMasterFd, v.syncPipe1, v.syncPipe0] where
  pipe := h₀
  nodup := hnodup
  perm_iff := by
    have hrotate : [v.slaveFd, v.ptyMasterFd, v.syncPipe1].Perm
        [v.ptyMasterFd, v.syncPipe1, v.slaveFd] :=
      (List.perm_append_comm : ([v.slaveFd] ++ [v.ptyMasterFd, v.syncPipe1]).Perm _)
    constructor
    · intro h
      have hlist := hrotate.symm.trans h
      have hend := List.singleton_perm_singleton.mp hlist.cons_inv.cons_inv
      exact .inr (.inr ⟨hend, hpty, p, hfirst, hlast, rfl⟩)
    · rintro (h | h | ⟨hslave, -⟩)
      · have := Option.some.inj h
        omega
      · have := Option.some.inj h
        omega
      · rw [hslave] at hrotate
        rwa [hslave]
  status := fun _ => hstatus

/-- With the container and without the end of the pipe for reading, all are closed. -/
theorem closing_cloned (h₀ : 0 ≤ v.syncPipe0)
    (hnodup : [v.syncPipe1, v.slaveFd, v.ptyMasterFd].Nodup) (hstatus : v.status = 0)
    (hp : p = 9 ∨ p = 11) : Closing v (some p) [v.syncPipe1, v.slaveFd, v.ptyMasterFd] where
  pipe := h₀
  nodup := hnodup
  perm_iff := by
    have hrotate : [v.slaveFd, v.ptyMasterFd, v.syncPipe1].Perm
        [v.syncPipe1, v.slaveFd, v.ptyMasterFd] :=
      (List.perm_append_comm : ([v.slaveFd, v.ptyMasterFd] ++ [v.syncPipe1]).Perm _)
    refine iff_of_true hrotate ?_
    rcases hp with rfl | rfl
    · exact .inl rfl
    · exact .inr (.inl rfl)
  status := fun _ => hstatus

/-- A failure in a phase leaves what is open there. -/
theorem Stage.closing (h : Stage phase v l) (hstatus : phase ≤ 13 → v.status = 0)
    (h₁₀ : phase ≠ 10) (h₁₂ : phase ≠ 12) : Closing v (some phase) l := by
  have hnot : (phase ≤ 4 → v.ptyMasterFd < 0) → phase ≠ 9 → phase ≠ 11 → (phase < 5 ∨ 7 < phase) →
      ¬ Abandoned v (some phase) := by
    intro hpty h₉ h₁₁ hrange
    refine not_abandoned (fun h => h₉ (Option.some.inj h)) (fun h => h₁₁ (Option.some.inj h)) ?_
    intro p hfirst hlast hp _
    have hphase := Option.some.inj hp
    exact hpty (by omega)
  cases h with
  | closed hphase hslave hpty hpipe =>
      refine closing_of_length (Int.le_of_eq hpipe.symm) List.nodup_nil (by decide) (hnot ?_ ?_ ?_ ?_)
      · exact fun _ => by rw [hpty]; decide
      all_goals omega
  | piped hslave hpty h₀ h₁ hnodup =>
      refine closing_of_length h₀ hnodup (by simp) (hnot ?_ ?_ ?_ ?_)
      · exact fun _ => by rw [hpty]; decide
      all_goals omega
  | terminal hfirst hlast hslave h₀ h₁ hpty hnodup =>
      exact closing_terminal h₀ hpty hnodup (hstatus (by omega)) (by omega) hlast
  | console h₀ hnodup =>
      refine closing_of_length h₀ hnodup (by simp) (hnot ?_ ?_ ?_ ?_)
      all_goals omega
  | cloned hfirst hlast h₀ hnodup =>
      exact closing_cloned h₀ hnodup (hstatus (by omega)) (by omega)
  | cleared hfirst hlast h₀ hnodup =>
      refine closing_of_length h₀ hnodup (by simp) (hnot ?_ ?_ ?_ ?_)
      all_goals omega

end Closings

/-! ## One phase -/

section Steps

variable {name : List Char} {phase : Nat} {v : BootVars} {a : BootAnswer} {w : Work}
variable {s t : BootState} {l : List Int}

/-- Only six phases do something to the descriptors. -/
theorem bootPhase_keeps (h : bootPhase name phase v a = some w)
    (hp : phase ≠ 3 ∧ phase ≠ 4 ∧ phase ≠ 7 ∧ phase ≠ 8 ∧ phase ≠ 12 ∧ phase ≠ 16) :
    w.ops.filterMap BootOp.use = [] ∧ w.vars.slaveFd = v.slaveFd ∧
      w.vars.ptyMasterFd = v.ptyMasterFd ∧ w.vars.syncPipe0 = v.syncPipe0 ∧
      w.vars.syncPipe1 = v.syncPipe1 := by
  unfold bootPhase at h
  split at h
  all_goals try (exfalso; omega)
  all_goals try (simp only [Work.check] at h)
  all_goals
    repeat' split at h
    all_goals cases h
    all_goals exact ⟨rfl, rfl, rfl, rfl, rfl⟩

/-- The newest operation of an error exit. -/
theorem bootPhase_failed (h : bootPhase name phase v a = some w) (hj : w.jump = .tooBad) (n : Nat)
    (older : List (Nat × BootOp)) :
    failedAt (w.ops.map (fun op => (n, op)) ++ older) = some phase := by
  unfold bootPhase at h
  split at h
  all_goals try (simp only [Work.check] at h)
  all_goals
    repeat' split at h
    all_goals cases h
    all_goals first | rfl | (simp [Work.done] at hj)

theorem uses_after (s : BootState) (w : Work) :
    uses (s.after w).ops = w.ops.filterMap BootOp.use ++ uses s.ops := by
  simp only [uses, after_ops, List.filterMap_append, List.filterMap_map]
  rfl

/-- The fields that `Stage` is about are the same. -/
theorem Stage.congr {v' : BootVars} (h : Stage phase v l) (hslave : v'.slaveFd = v.slaveFd)
    (hpty : v'.ptyMasterFd = v.ptyMasterFd) (h₀ : v'.syncPipe0 = v.syncPipe0)
    (h₁ : v'.syncPipe1 = v.syncPipe1) : Stage phase v' l := by
  obtain ⟨status, slaveFd, ptyMasterFd, syncPipe0, syncPipe1, loggerPid, childPid⟩ := v
  obtain ⟨status', slaveFd', ptyMasterFd', syncPipe0', syncPipe1', loggerPid', childPid'⟩ := v'
  simp only at hslave hpty h₀ h₁
  subst hslave hpty h₀ h₁
  cases h with
  | closed hphase hslave hpty hpipe => exact .closed hphase hslave hpty hpipe
  | piped hslave hpty h₀ h₁ hnodup => exact .piped hslave hpty h₀ h₁ hnodup
  | terminal hfirst hlast hslave h₀ h₁ hpty hnodup =>
      exact .terminal hfirst hlast hslave h₀ h₁ hpty hnodup
  | console h₀ hnodup => exact .console h₀ hnodup
  | cloned hfirst hlast h₀ hnodup => exact .cloned hfirst hlast h₀ hnodup
  | cleared hfirst hlast h₀ hnodup => exact .cleared hfirst hlast h₀ hnodup

/-- The next phase, when this one leaves the descriptors alone. -/
theorem Stage.next (h : Stage phase v l)
    (hp : phase ≠ 3 ∧ phase ≠ 4 ∧ phase ≠ 7 ∧ phase ≠ 8 ∧ phase ≠ 12 ∧ phase ≠ 15) :
    Stage (phase + 1) v l := by
  cases h with
  | closed hphase hslave hpty hpipe => exact .closed (by omega) hslave hpty hpipe
  | piped hslave hpty h₀ h₁ hnodup => omega
  | terminal hfirst hlast hslave h₀ h₁ hpty hnodup =>
      exact .terminal (by omega) (by omega) hslave h₀ h₁ hpty hnodup
  | console h₀ hnodup => omega
  | cloned hfirst hlast h₀ hnodup => exact .cloned (by omega) (by omega) h₀ hnodup
  | cleared hfirst hlast h₀ hnodup => exact .cleared (by omega) (by omega) h₀ hnodup

theorem Stage.le (h : Stage phase v l) : phase ≤ 15 := by
  cases h <;> omega

/-- Phase 15: the result is dropped. -/
theorem bootPhase_unmounting (h : bootPhase name 15 v a = some w) :
    ∃ ok, w = .done v [.unsetRootfs ok] := by
  cases a with
  | unsetRootfs ok =>
      simp only [bootPhase, Option.some.injEq] at h
      exact ⟨ok, h.symm⟩
  | _ => simp [bootPhase] at h

/-- The status stays as it is where the loop goes on. -/
theorem status_kept (hw : bootPhase name phase v a = some w) (hj : w.jump ≠ .stop)
    (h₁₃ : phase ≠ 13) (h₁₉ : phase ≠ 19) : w.vars.status = v.status := by
  by_cases h₁ : phase = 1
  · rw [h₁] at hw
    rcases bootPhase_locking hw with ⟨-, rfl⟩ | ⟨-, rfl⟩
    · rfl
    · exact absurd rfl hj
  · exact bootPhase_status hw h₁ h₁₃ h₁₉

/-- Behind phase 15 one end of the pipe is closed a second time. -/
theorem Stage.closing_none (h : Stage 15 v l) : Closing v none l := by
  have hnot : ¬ Abandoned v none := by
    rintro (h | h | ⟨-, -, p, -, -, h⟩) <;> cases h
  cases h with
  | closed hphase hslave hpty hpipe => omega
  | terminal hfirst hlast hslave h₀ h₁ hpty hnodup => omega
  | cloned hfirst hlast h₀ hnodup => omega
  | cleared hfirst hlast h₀ hnodup => exact closing_of_length h₀ hnodup (by simp) hnot

/-! ## One step -/

theorem Keeping.after (hs : Keeping s) (hj : w.jump ≠ .reboot)
    (hproper : Proper (uses (s.after w).ops))
    (hleft : (s.after w).phase = 17 → Holds (uses (s.after w).ops) [])
    (hplace : w.jump ≠ .stop → ∃ l, Holds (uses (s.after w).ops) l ∧ Place (s.after w) l) :
    Keeping (s.after w) where
  attempt := by
    rw [attempt_after hj]
    intro e he
    rcases mem_after_ops he with ⟨h, -⟩ | h
    · exact h
    · exact hs.attempt e h
  proper := hproper
  left := hleft
  place := fun hproceed => hplace fun hstop => absurd ((after_returned s w).2 hstop)
    (by rw [BootState.returned, hproceed]; decide)

/-- A phase in which the descriptors stay as they are. -/
theorem keeping_quiet (hs : Keeping s) (hholds : Holds (uses s.ops) l)
    (hstage : Stage s.phase s.vars l) (hstatus : s.phase ≤ 13 → s.vars.status = 0)
    (hw : bootPhase name s.phase s.vars a = some w)
    (hp : s.phase ≠ 3 ∧ s.phase ≠ 4 ∧ s.phase ≠ 7 ∧ s.phase ≠ 8 ∧ s.phase ≠ 12 ∧ s.phase ≠ 16) :
    Keeping (s.after w) := by
  obtain ⟨hnone, hslave, hpty, h₀, h₁⟩ := bootPhase_keeps hw hp
  have huses : uses (s.after w).ops = uses s.ops := by
    rw [uses_after, hnone, List.nil_append]
  have hle := hstage.le
  have htarget := bootPhase_target hw
  have hj : w.jump ≠ .reboot := by
    intro hj
    simp only [hj, reduceCtorEq, false_and, true_and, or_false, false_or] at htarget
    omega
  refine hs.after hj (huses ▸ hs.proper) (fun h₁₇ => ?_) (fun hstop => ⟨l, huses ▸ hholds, ?_⟩)
  · rw [after_phase] at h₁₇
    omega
  · have hfields := fun {p : Nat} (h : Stage p s.vars l) => h.congr hslave hpty h₀ h₁
    rcases htarget with ⟨-, hnext⟩ | ⟨hjump, hphase, hnext⟩ | ⟨hjump, -⟩ | ⟨-, hphase, -⟩ | ⟨hjump, -⟩
    · by_cases h₁₅ : s.phase = 15
      · rw [h₁₅] at hw hstage
        obtain ⟨ok, rfl⟩ := bootPhase_unmounting hw
        exact .closing (by rw [after_phase, hnext, h₁₅]) hstage.closing_none
      · refine .stage ?_ (fun h₁₃ => ?_)
        · rw [after_phase, hnext]
          exact hfields (hstage.next (by omega))
        · rw [after_phase, hnext] at h₁₃
          rw [after_vars, status_kept hw hstop (by omega) (by omega)]
          exact hstatus (by omega)
    · refine .closing (by rw [after_phase, hnext]) ?_
      rw [after_ops, bootPhase_failed hw hjump, after_vars]
      refine (hfields hstage).closing (fun h₁₃ => ?_) (fun h₁₀ => ?_) (by omega)
      · rw [status_kept hw hstop (by omega) (by omega)]
        exact hstatus h₁₃
      · rw [h₁₀] at hw
        obtain ⟨moved, mapped, rfl⟩ := bootPhase_confine hw
        cases hjump
    · exact absurd hjump hj
    · omega
    · exact absurd hjump hstop

/-- Behind phase 16 the attempt comes to its end. -/
theorem keeping_over (hs : Keeping s) (hholds : Holds (uses s.ops) []) (hphase : 17 ≤ s.phase)
    (hstatus : s.vars.status = 0) (hw : bootPhase name s.phase s.vars a = some w) :
    Keeping (s.after w) := by
  obtain ⟨hnone, -⟩ := bootPhase_keeps hw (by omega)
  have huses : uses (s.after w).ops = uses s.ops := by
    rw [uses_after, hnone, List.nil_append]
  have hj : w.jump ≠ .reboot := by
    intro hj
    have hjump := bootPhase_jump hw
    rw [hj] at hjump
    have hone := hjump.2
    rw [hstatus] at hone
    cases hone
  refine hs.after hj (huses ▸ hs.proper) (fun _ => huses ▸ hholds)
    (fun hstop => ⟨[], huses ▸ hholds, .left ?_ ?_ rfl⟩)
  · have htarget := bootPhase_target hw
    simp only [hj, false_and, false_or] at htarget
    rw [after_phase]
    omega
  · by_cases h₁₉ : s.phase = 19
    · rw [h₁₉] at hw
      rcases bootPhase_restart hw with ⟨hone, -⟩ | ⟨-, -, -, hrest⟩
      · rw [hstatus] at hone
        cases hone
      · rw [after_vars, hrest, hstatus]
        rfl
    · rw [after_vars, status_kept hw hstop (by omega) h₁₉, hstatus]

/-- Phase 3: the pipe, or a failure. -/
theorem keeping_opening (hs : Keeping s) (hholds : Holds (uses s.ops) l)
    (hstage : Stage 3 s.vars l) (hstatus : s.vars.status = 0) (h₃ : s.phase = 3)
    (hfresh : GivesFresh s a) (hw : bootPhase name 3 s.vars a = some w) : Keeping (s.after w) := by
  cases hstage with
  | terminal hfirst hlast hslave h₀ h₁ hpty hnodup => omega
  | cloned hfirst hlast h₀ hnodup => omega
  | cleared hfirst hlast h₀ hnodup => omega
  | closed hphase hslave hpty hpipe =>
      cases a with
      | pipe fds =>
          cases fds with
          | none =>
              cases hw
              refine hs.after (by rintro ⟨⟩) hs.proper (by rintro ⟨⟩) fun _ => ⟨[], hholds, .closing rfl ?_⟩
              exact (Stage.closed hphase hslave hpty hpipe).closing (fun _ => hstatus) (by decide) (by decide)
          | some fds =>
              obtain ⟨r, wr⟩ := fds
              cases hw
              have hnodup : [(wr : Int), (r : Int)].Nodup :=
                (List.Perm.swap (wr : Int) r []).symm.nodup_iff.mpr hfresh.1
              refine hs.after (by rintro ⟨⟩) hs.proper ?_ fun _ =>
                ⟨[(wr : Int), r], (hholds.acquire r).acquire wr, .stage ?_ fun _ => hstatus⟩
              · rw [after_phase, h₃]
                rintro ⟨⟩
              · rw [after_phase, h₃]
                exact .piped hslave hpty (Int.natCast_nonneg r) (Int.natCast_nonneg wr) hnodup
      | _ => simp [bootPhase] at hw

/-- A new descriptor is none of the open ones. -/
theorem nodup_fresh {fd : Int} (hholds : Holds (uses s.ops) l) (hnodup : l.Nodup)
    (hfresh : ¬ Held (uses s.ops) fd) : (fd :: l).Nodup :=
  List.nodup_cons.mpr ⟨fun hmem => hfresh ((hholds fd).mpr hmem), hnodup⟩

/-- Phase 4: the master of the pty, which may stay unusable. -/
theorem keeping_pty (hs : Keeping s) (hholds : Holds (uses s.ops) l) (hstage : Stage 4 s.vars l)
    (hstatus : s.vars.status = 0) (h₄ : s.phase = 4) (hfresh : GivesFresh s a)
    (hw : bootPhase name 4 s.vars a = some w) : Keeping (s.after w) := by
  cases hstage with
  | closed hphase hslave hpty hpipe => omega
  | terminal hfirst hlast hslave h₀ h₁ hpty hnodup => omega
  | cloned hfirst hlast h₀ hnodup => omega
  | cleared hfirst hlast h₀ hnodup => omega
  | piped hslave hpty h₀ h₁ hnodup =>
      cases a with
      | pty fate =>
          -- an open master makes the failure one of the phases that may be abandoned
          have hbad : ∀ fd : Nat, ¬ Held (uses s.ops) fd →
              Keeping (s.after (.bad 4 { s.vars with ptyMasterFd := fd } [.opened fd])) := by
            intro fd hfd
            refine hs.after (by rintro ⟨⟩) hs.proper (by rintro ⟨⟩) fun _ =>
              ⟨(fd : Int) :: [s.vars.syncPipe1, s.vars.syncPipe0], hholds.acquire fd, .closing rfl ?_⟩
            exact @closing_terminal { s.vars with ptyMasterFd := fd } 4 h₀ (Int.natCast_nonneg fd)
              (nodup_fresh hholds hnodup hfd) hstatus (by decide) (by decide)
          cases fate with
          | noPty =>
              cases hw
              refine hs.after (by rintro ⟨⟩) hs.proper (by rintro ⟨⟩) fun _ => ⟨_, hholds, .closing rfl ?_⟩
              have hpiped : Stage 4 { s.vars with ptyMasterFd := -1 }
                  [s.vars.syncPipe1, s.vars.syncPipe0] := .piped hslave rfl h₀ h₁ hnodup
              exact hpiped.closing (fun _ => hstatus) (by decide) (by decide)
          | notGranted fd =>
              cases hw
              exact hbad fd (hfresh.2 fd List.mem_cons_self)
          | notUnlocked fd =>
              cases hw
              exact hbad fd (hfresh.2 fd List.mem_cons_self)
          | ready fd =>
              cases hw
              refine hs.after (by rintro ⟨⟩) hs.proper ?_ fun _ =>
                ⟨(fd : Int) :: [s.vars.syncPipe1, s.vars.syncPipe0], hholds.acquire fd,
                  .stage ?_ fun _ => hstatus⟩
              · rw [after_phase, h₄]
                rintro ⟨⟩
              · rw [after_phase, h₄]
                show Stage 5 _ _
                exact .terminal (by decide) (by decide) hslave h₀ h₁ (Int.natCast_nonneg fd)
                  (nodup_fresh hholds hnodup (hfresh.2 fd List.mem_cons_self))
      | _ => simp [bootPhase] at hw

/-- Phase 7: the slave of the pty, and the logger. -/
theorem keeping_console (hs : Keeping s) (hholds : Holds (uses s.ops) l) (hstage : Stage 7 s.vars l)
    (hstatus : s.vars.status = 0) (h₇ : s.phase = 7) (hfresh : GivesFresh s a)
    (hw : bootPhase name 7 s.vars a = some w) : Keeping (s.after w) := by
  cases hstage with
  | closed hphase hslave hpty hpipe => omega
  | cloned hfirst hlast h₀ hnodup => omega
  | cleared hfirst hlast h₀ hnodup => omega
  | terminal hfirst hlast hslave h₀ h₁ hpty hnodup =>
      have hterminal := closing_terminal h₀ hpty hnodup hstatus (by decide : 4 ≤ 7) (by decide)
      cases a with
      | console fate =>
          cases fate with
          | noLog =>
              cases hw
              exact hs.after (by rintro ⟨⟩) hs.proper (by rintro ⟨⟩) fun _ =>
                ⟨_, hholds, .closing rfl hterminal⟩
          | notMounted =>
              cases hw
              exact hs.after (by rintro ⟨⟩) hs.proper (by rintro ⟨⟩) fun _ =>
                ⟨_, hholds, .closing rfl hterminal⟩
          | noSlave =>
              cases hw
              refine hs.after (by rintro ⟨⟩) hs.proper (by rintro ⟨⟩) fun _ => ⟨_, hholds, .closing rfl ?_⟩
              refine closing_of_not h₀ hnodup (fun hperm => ?_) ?_
              · -- the slave is not a descriptor
                have hmem : (-1 : Int) ∈ [s.vars.ptyMasterFd, s.vars.syncPipe1, s.vars.syncPipe0] :=
                  hperm.mem_iff.mp List.mem_cons_self
                simp only [List.mem_cons, List.not_mem_nil, or_false] at hmem
                omega
              · refine not_abandoned (by rintro ⟨⟩) (by rintro ⟨⟩) fun p _ _ _ hsame => ?_
                have hneg : (-1 : Int) = s.vars.syncPipe0 := hsame
                omega
          | noLogger slave =>
              cases hw
              have hnew := nodup_fresh hholds hnodup (hfresh.2 slave List.mem_cons_self)
              refine hs.after (by rintro ⟨⟩) hs.proper (by rintro ⟨⟩) fun _ =>
                ⟨_, hholds.acquire slave, .closing rfl ?_⟩
              refine closing_of_length h₀ hnew (by simp) ?_
              refine not_abandoned (by rintro ⟨⟩) (by rintro ⟨⟩) fun p _ _ _ hsame => ?_
              have hslave' : (slave : Int) = s.vars.syncPipe0 := hsame
              rw [hslave'] at hnew
              simp at hnew
          | tracked slave logger =>
              cases hw
              have hnew := nodup_fresh hholds hnodup (hfresh.2 slave List.mem_cons_self)
              have hlist : ((slave : Int) :: [s.vars.ptyMasterFd, s.vars.syncPipe1, s.vars.syncPipe0]).Perm
                  [s.vars.syncPipe0, (slave : Int), s.vars.ptyMasterFd, s.vars.syncPipe1] :=
                (List.perm_append_comm :
                  ([(slave : Int), s.vars.ptyMasterFd, s.vars.syncPipe1] ++ [s.vars.syncPipe0]).Perm _)
              refine hs.after (by rintro ⟨⟩) hs.proper ?_ fun _ =>
                ⟨_, (hholds.acquire slave).perm hlist, .stage ?_ fun _ => hstatus⟩
              · rw [after_phase, h₇]
                rintro ⟨⟩
              · rw [after_phase, h₇]
                exact .console h₀ (hlist.nodup_iff.mp hnew)
      | _ => simp [bootPhase] at hw

/-- Phase 8: the supervisor keeps one end of the pipe. -/
theorem keeping_cloning (hs : Keeping s) (hholds : Holds (uses s.ops) l) (hstage : Stage 8 s.vars l)
    (hstatus : s.vars.status = 0) (h₈ : s.phase = 8) (hw : bootPhase name 8 s.vars a = some w) :
    Keeping (s.after w) := by
  cases hstage with
  | closed hphase hslave hpty hpipe => omega
  | terminal hfirst hlast hslave h₀ h₁ hpty hnodup => omega
  | cloned hfirst hlast h₀ hnodup => omega
  | cleared hfirst hlast h₀ hnodup => omega
  | console h₀ hnodup =>
      cases a with
      | clone pid =>
          cases pid with
          | none =>
              cases hw
              refine hs.after (by rintro ⟨⟩) hs.proper (by rintro ⟨⟩) fun _ => ⟨_, hholds, .closing rfl ?_⟩
              have hconsole : Stage 8 { s.vars with childPid := -1 } _ := .console h₀ hnodup
              exact hconsole.closing (fun _ => hstatus) (by decide) (by decide)
          | some pid =>
              cases hw
              obtain ⟨hfirst, hrest⟩ := List.nodup_cons.mp hnodup
              have hlist : [s.vars.slaveFd, s.vars.ptyMasterFd, s.vars.syncPipe1].Perm
                  [s.vars.syncPipe1, s.vars.slaveFd, s.vars.ptyMasterFd] :=
                (List.perm_append_comm :
                  ([s.vars.slaveFd, s.vars.ptyMasterFd] ++ [s.vars.syncPipe1]).Perm _)
              refine hs.after (by rintro ⟨⟩) ⟨(hholds _).mpr List.mem_cons_self, hs.proper⟩ ?_ fun _ =>
                ⟨_, (hholds.release hfirst).perm hlist, .stage ?_ fun _ => hstatus⟩
              · rw [after_phase, h₈]
                rintro ⟨⟩
              · rw [after_phase, h₈]
                show Stage 9 _ _
                exact .cloned (by decide) (by decide) h₀ (hlist.nodup_iff.mp hrest)
      | _ => simp [bootPhase] at hw

/-- Phase 12: the other end of the pipe is closed. -/
theorem keeping_clearance (hs : Keeping s) (hholds : Holds (uses s.ops) l)
    (hstage : Stage 12 s.vars l) (hstatus : s.vars.status = 0) (h₁₂ : s.phase = 12)
    (hw : bootPhase name 12 s.vars a = some w) : Keeping (s.after w) := by
  obtain ⟨sent, rfl, rfl⟩ := bootPhase_clearance hw
  cases hstage with
  | closed hphase hslave hpty hpipe => omega
  | terminal hfirst hlast hslave h₀ h₁ hpty hnodup => omega
  | cleared hfirst hlast h₀ hnodup => omega
  | cloned hfirst hlast h₀ hnodup =>
      obtain ⟨hfd, hrest⟩ := List.nodup_cons.mp hnodup
      refine hs.after (by rintro ⟨⟩) ⟨(hholds _).mpr List.mem_cons_self, hs.proper⟩ ?_ fun _ =>
        ⟨_, hholds.release hfd, .stage ?_ fun _ => hstatus⟩
      · rw [after_phase, h₁₂]
        rintro ⟨⟩
      · rw [after_phase, h₁₂]
        show Stage 13 _ _
        exact .cleared (by decide) (by decide) h₀ hrest

/-- Phase 16 closes three descriptors. -/
theorem uses_closing (h₁₆ : s.phase = 16) (hpipe : 0 ≤ s.vars.syncPipe0)
    (hw : bootPhase name 16 s.vars a = some w) :
    uses (s.after w).ops =
      releases [s.vars.slaveFd, s.vars.ptyMasterFd, s.vars.syncPipe1] (uses s.ops) ∧
    (s.after w).phase = 17 ∧ w.jump = .next ∧ w.vars.status = s.vars.status := by
  obtain rfl := bootPhase_closing hw
  have hops : (closeSyncPipe s.vars).2 = [.close s.vars.syncPipe1] := by
    simp [closeSyncPipe, hpipe]
  refine ⟨?_, ?_, rfl, closeSyncPipe_status s.vars⟩
  · rw [uses_after, Work.done, hops]
    rfl
  · rw [after_phase, h₁₆]
    rfl

/-- A descriptor that is held has been opened. -/
theorem opened_of_held {ops : List (Nat × BootOp)} {fd : Int} (h : Held (uses ops) fd) :
    ∃ e ∈ ops, e.2 = .opened fd := by
  induction ops with
  | nil => exact h.elim
  | cons e ops ih =>
      have hlater : Held (uses ops) fd → ∃ e' ∈ e :: ops, e'.2 = .opened fd := by
        intro h'
        obtain ⟨e', he', hopened⟩ := ih h'
        exact ⟨e', List.mem_cons_of_mem e he', hopened⟩
      obtain ⟨n, op⟩ := e
      cases op with
      | opened fd' =>
          rcases h with rfl | h
          · exact ⟨_, List.mem_cons_self, rfl⟩
          · exact hlater h
      | close fd' => exact hlater h.2
      | _ => exact hlater h

/-! ## Runs -/

theorem Keeping.owning (hs : Keeping s) : Owning s where
  proper := hs.proper
  left := fun h₁₇ fd _ hheld => List.not_mem_nil ((hs.left h₁₇ fd).mp hheld)

theorem keeping_step (hs : Keeping s) (hfresh : GivesFresh s a) (hg : ClosesAbandoned s a)
    (h : bootStep name s a = some t) : Keeping t := by
  obtain ⟨hproceed, w, hw, rfl⟩ := bootStep_eq_some.1 h
  obtain ⟨l, hholds, hplace⟩ := hs.place hproceed
  cases hplace with
  | stage hstage hstatus =>
      have hle := hstage.le
      -- the phases that open or close; the others leave the descriptors alone
      by_cases h₃ : s.phase = 3
      · rw [h₃] at hstage hw
        exact keeping_opening hs hholds hstage (hstatus (by omega)) h₃ hfresh hw
      by_cases h₄ : s.phase = 4
      · rw [h₄] at hstage hw
        exact keeping_pty hs hholds hstage (hstatus (by omega)) h₄ hfresh hw
      by_cases h₇ : s.phase = 7
      · rw [h₇] at hstage hw
        exact keeping_console hs hholds hstage (hstatus (by omega)) h₇ hfresh hw
      by_cases h₈ : s.phase = 8
      · rw [h₈] at hstage hw
        exact keeping_cloning hs hholds hstage (hstatus (by omega)) h₈ hw
      by_cases h₁₂ : s.phase = 12
      · rw [h₁₂] at hstage hw
        exact keeping_clearance hs hholds hstage (hstatus (by omega)) h₁₂ hw
      · exact keeping_quiet hs hholds hstage hstatus hw (by omega)
  | closing h₁₆ hclosing =>
      -- phase 16 closes what the attempt has left open, and no more
      have habandoned := hg h₁₆
      rw [h₁₆] at hw
      obtain ⟨huses, hnext, hjump, hstatus⟩ := uses_closing h₁₆ hclosing.pipe hw
      have hall := (release_all_iff hholds hclosing.nodup hs.proper).mpr
        (hclosing.perm_iff.mpr habandoned)
      have hnone : Holds (uses (s.after w).ops) [] := by
        rw [huses]
        exact fun fd => iff_of_false (hall.2 fd) List.not_mem_nil
      have hj : w.jump ≠ .reboot := by
        rw [hjump]
        rintro ⟨⟩
      refine hs.after hj (huses ▸ hall.1) (fun _ => hnone) fun _ => ⟨[], hnone, .left ?_ ?_ rfl⟩
      · exact Nat.le_of_eq hnext.symm
      · rw [after_vars, hstatus]
        exact hclosing.status habandoned
  | left hphase hstatus hnil =>
      rw [hnil] at hholds
      exact keeping_over hs hholds hphase hstatus hw

/-- Phase 16 for another attempt closes a descriptor that is not open, or leaves one. -/
theorem not_owning_step (hs : Keeping s) (hg : ¬ ClosesAbandoned s a)
    (h : bootStep name s a = some t) : ¬ Owning t := by
  obtain ⟨hproceed, w, hw, rfl⟩ := bootStep_eq_some.1 h
  obtain ⟨l, hholds, hplace⟩ := hs.place hproceed
  obtain ⟨h₁₆, hnot⟩ := Classical.not_imp.mp hg
  cases hplace with
  | stage hstage hstatus =>
      have hle := hstage.le
      omega
  | left hphase hstatus hnil => omega
  | closing _ hclosing =>
      rw [h₁₆] at hw
      obtain ⟨huses, hnext, hjump, -⟩ := uses_closing h₁₆ hclosing.pipe hw
      intro howning
      refine hnot (hclosing.perm_iff.mp ((release_all_iff hholds hclosing.nodup hs.proper).mp ?_))
      rw [← huses]
      refine ⟨howning.proper, fun fd hheld => ?_⟩
      have hattempt : (s.after w).attempt = s.attempt := attempt_after (by rw [hjump]; rintro ⟨⟩)
      -- the descriptor has been opened in this attempt, as there has been no other
      obtain ⟨⟨n, op⟩, hmem, hopened⟩ := opened_of_held hheld
      have hn : n = s.attempt := by
        rcases mem_after_ops hmem with ⟨hn, -⟩ | hold
        · exact hn
        · exact hs.attempt _ hold
      have hop : op = .opened fd := hopened
      rw [hn, hop, ← hattempt] at hmem
      exact howning.left hnext fd hmem hheld

theorem keeping_init : Keeping bootInit where
  attempt := fun e he => absurd he List.not_mem_nil
  proper := trivial
  left := by rintro ⟨⟩
  place := fun _ => ⟨[], holds_nil, .stage (.closed (by decide) rfl rfl rfl) fun _ => rfl⟩

end Steps

/-- When the kernel gives descriptors that are not in use, every close in a run of `boot` is
one of a descriptor that the run has opened and not closed since, and nothing is left open
behind phase 16, exactly when phase 16 is only executed for abandoned attempts: because
phase 9 or phase 11 has failed, or, when the end of the pipe for reading is descriptor 0, a
phase between the opening of the pty and the one of its slave. -/
theorem boot_descriptors_iff {name : List Char} {s : BootState} {as : List BootAnswer}
    (hfresh : Meets (bootStep name) GivesFresh bootInit as)
    (h : run (bootStep name) bootInit as = some s) :
    Always (bootStep name) Owning bootInit as ↔ Meets (bootStep name) ClosesAbandoned bootInit as :=
  always_iff_meets_of_allowed (fun _ => Keeping.owning) (fun _ _ _ => keeping_step)
    (fun _ _ _ => not_owning_step) keeping_init hfresh h

/-- The process number cannot be written in phase 9. -/
def unrecordedBoot : List BootAnswer :=
  plainBoot.take 9 ++ [.record .noFile true, .none, .cleaned .moved true true, .unsetSupDevices true,
    .none, .unlock true true, .none, .none]

theorem boot_descriptors_iff_unrecorded :
    ∃ s, run (bootStep "web".toList) bootInit unrecordedBoot = some s ∧ s.returned ∧
      Always (bootStep "web".toList) Owning bootInit unrecordedBoot := by
  have hrun : ∃ s, run (bootStep "web".toList) bootInit unrecordedBoot = some s ∧ s.returned :=
    exists_run (by decide)
  obtain ⟨s, hs, hreturned⟩ := hrun
  have hgiven : checkMeets (bootStep "web".toList) (fun s a => decide (GivesFresh s a)) bootInit
      unrecordedBoot = true := by decide
  have hfailed : checkMeets (bootStep "web".toList)
      (fun s _ => decide (s.phase = 16 → failedAt s.ops = some 9)) bootInit unrecordedBoot = true := by
    decide
  have hfresh := (meets_of_check hgiven).mono fun _ _ => of_decide_eq_true
  refine ⟨s, hs, hreturned, (boot_descriptors_iff hfresh hs).2 ?_⟩
  exact (meets_of_check hfailed).mono fun _ _ h h₁₆ => .inl (of_decide_eq_true h h₁₆)

/-- A run without failures closes the end of the pipe for writing twice, in phase 12 and in
phase 16. -/
theorem boot_closes_twice :
    ∃ s, run (bootStep "web".toList) bootInit plainBoot = some s ∧ s.returned ∧
      ¬ Proper (uses s.ops) ∧ ¬ Always (bootStep "web".toList) Owning bootInit plainBoot := by
  have hrun : ∃ s, run (bootStep "web".toList) bootInit plainBoot = some s ∧
      (s.returned ∧ ¬ Proper (uses s.ops)) := exists_run (by decide)
  obtain ⟨s, hs, hreturned, hproper⟩ := hrun
  exact ⟨s, hs, hreturned, hproper,
    fun h => hproper (h plainBoot [] s (List.append_nil _).symm hs).proper⟩

end Vzgot.Boot

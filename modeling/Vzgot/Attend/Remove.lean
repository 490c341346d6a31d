import Vzgot.Attend.Stop

/-!
# `first.pid` in `cont_attend`

`cont_attend` removes the file in its last phase, and `cont_shutdown` removes it when the
command that it runs in the container fails. `RemovesDead` is the condition under which
both find the container dead and no way out leaves the file: `Kept` is what every step
then keeps.
-/

set_option autoImplicit false

namespace Vzgot.Attend

open Transition Signal Command

/-- The monitoring process and the process descriptor are found, `cont_shutdown` takes the
error branch of its phase 2 with the container dead, `waitpid` does not fail and is not
left out while the container is alive, and `unlink` fails only without a file. -/
def RemovesDead (s : State) (e : Event) : Bool :=
  match s.pc, e with
  | .monitor turn, .monitor mpid => mpid ≠ 0 ∨ turn + 1 < 5
  | .pidfd, .pidfd opened => opened
  | .shutdown _, .shutdown (.removed ok) => !ok || !s.alive
  | .waitpid, .wait .failed => !s.alive
  | .waitpid, .run => !s.alive
  | .remove, .removed ok => ok || !s.pidFile
  | _, _ => true

/-- Places behind `waitpid` where the file has still to be removed. -/
def Pc.removing : Pc → Bool
  | .nozombie | .remove => true
  | _ => false

/-- Places behind the removal. -/
def Pc.leaving : Pc → Bool
  | .out | .returned => true
  | _ => false

/-- The file has not been removed from a live container, will not be, and is gone when
`cont_attend` returns. -/
structure Kept (s : State) : Prop where
  kept : s.removedAlive = false
  dead : s.pc.removing = true → s.alive = false
  gone : s.pc.leaving = true → s.pidFile = false

section Step

variable {name : List Char} {s t : State} {e : Event}

/-- A step to a place where the file stays as it is. -/
theorem Kept.same (hs : Kept s) (hkept : t.removedAlive = s.removedAlive)
    (hremoving : t.pc.removing = false) (hleaving : t.pc.leaving = false) : Kept t := by
  refine ⟨hkept.trans hs.kept, fun h => ?_, fun h => ?_⟩
  · rw [hremoving] at h
    cases h
  · rw [hleaving] at h
    cases h

theorem kept_checksig {check : CheckPc} {again : CheckPc → Pc} {next : Pc} (hs : Kept s)
    (hnext : next.removing = false ∧ next.leaving = false)
    (hagain : ∀ c, (again c).removing = false ∧ (again c).leaving = false) (before : Bool) :
    Kept { s.checksig check again next with before := before } := by
  obtain ⟨signals, pc, hpc, heq⟩ := s.checksig_eq check again next
  have hstay : pc.removing = false ∧ pc.leaving = false := by
    rcases hpc with rfl | ⟨c, rfl⟩
    · exact hnext
    · exact hagain c
  rw [heq]
  exact hs.same rfl hstay.1 hstay.2

theorem kept_polled {r : Poll} (hs : Kept s) (h : s.polled r = some t) : Kept t := by
  cases r with
  | interrupted sig =>
      cases h
      exact hs.same rfl rfl rfl
  | error =>
      cases h
      exact hs.same rfl rfl rfl
  | exited =>
      simp only [State.polled, Option.ite_none_left_eq_some, Option.some.injEq] at h
      obtain ⟨-, rfl⟩ := h
      exact hs.same rfl rfl rfl
  | timeout =>
      simp only [State.polled, Option.some.injEq] at h
      subst h
      split <;> exact hs.same rfl rfl rfl

/-- A removal with the container dead, or one that fails. -/
theorem kept_unlink {ok : Bool} (hs : Kept s) (hdead : ok = true → s.alive = false)
    (h : s.unlink ok = some t) : Kept t := by
  rcases State.unlink_eq h with ⟨-, rfl⟩ | ⟨hok, rfl⟩
  · exact hs
  · refine ⟨?_, hs.dead, fun _ => rfl⟩
    rw [hs.kept, hdead hok]
    rfl

theorem kept_waited {r : Wait} (hs : Kept s) (hdead : r = .failed → s.alive = false)
    (h : s.waited r = some t) : Kept t := by
  obtain ⟨hended, status, rfl⟩ := State.waited_eq h
  exact ⟨hs.kept, fun _ => hended.elim hdead id, by simp [Pc.leaving]⟩

theorem kept_run (hs : Kept s) (hg : RemovesDead s e = true) (h : attendRun name s e = some t) :
    Kept t := by
  cases attendRun_move h with
  | search turn hpc =>
      -- the search for the monitoring process
      exact hs.same rfl rfl rfl
  | searchCheck turn check hpc =>
      -- `apl_checksig` in the search
      rw [← checksig_before]
      exact kept_checksig hs ⟨rfl, rfl⟩ (fun _ => ⟨rfl, rfl⟩) _
  | monitor turn mpid hpc =>
      -- the monitoring process, found or not
      -- the guard: the way out without a monitoring process is not taken
      have hfound : mpid ≠ 0 ∨ turn + 1 < 5 := by simpa [RemovesDead, hpc] using hg
      by_cases h₁ : mpid ≠ 0
      · exact hs.same rfl (by simp [h₁, Pc.removing]) (by simp [h₁, Pc.leaving])
      · have h₂ := hfound.resolve_left h₁
        exact hs.same rfl (by simp [h₁, h₂, Pc.removing]) (by simp [h₁, h₂, Pc.leaving])
  | pidfd opened hpc =>
      -- `pidfd_open`
      obtain rfl : opened = true := by simpa [RemovesDead, hpc] using hg
      exact hs.same rfl rfl rfl
  | purge check hpc =>
      -- `apl_checksig` before the loop
      exact kept_checksig hs ⟨rfl, rfl⟩ (fun _ => ⟨rfl, rfl⟩) _
  | poll result t hpc h =>
      -- the poll
      exact kept_polled hs h
  | check check hpc =>
      -- `apl_checksig` of the EINTR branch
      rw [← checksig_before]
      exact kept_checksig hs ⟨rfl, rfl⟩ (fun _ => ⟨rfl, rfl⟩) _
  | decide hpc =>
      -- the tests of the EINTR branch
      simp only [State.decides]
      split <;> exact hs.same rfl rfl rfl
  | shutdown sd a t hpc h =>
      -- a turn of `cont_shutdown`
      obtain ⟨r, -, hr⟩ := Option.bind_eq_some_iff.1 h
      have ht : Kept { s with pc := .shutdown r.1 } := hs.same rfl rfl rfl
      cases a with
      | removed ok =>
          have hdead : ok = true → s.alive = false := by
            simpa [RemovesDead, hpc, imp_iff_not_or] using hg
          exact kept_unlink ht hdead hr
      | _ =>
          cases hr
          exact ht
  | stopped sd hpc =>
      -- `cont_shutdown` has returned
      exact hs.same rfl rfl rfl
  | probe alive hpc =>
      -- `kill(mpid,0)` behind the duty tasks
      cases alive <;> exact hs.same rfl rfl rfl
  | again hpc =>
      -- the next iteration
      exact hs.same rfl rfl rfl
  | leave hpc =>
      -- the end of the loop
      exact hs.same rfl rfl rfl
  | wait result t hpc h =>
      -- `waitpid`
      refine kept_waited hs ?_ h
      rintro rfl
      simpa [RemovesDead, hpc] using hg
  | abandon hpc =>
      -- kill mode 3: no `waitpid`
      have hdead : s.alive = false := by simpa [RemovesDead, hpc] using hg
      exact ⟨hs.kept, fun _ => hdead, by simp [Pc.leaving]⟩
  | nozombie hpc =>
      -- `prc_nozombie`
      have hdead : s.alive = false := hs.dead (by rw [hpc]; rfl)
      exact ⟨hs.kept, fun _ => hdead, by simp [Pc.leaving]⟩
  | remove ok t hpc h =>
      -- `cnt_rm_cont_pid`
      have hdead : s.alive = false := hs.dead (by rw [hpc]; rfl)
      have hgone : ok = true ∨ s.pidFile = false := by simpa [RemovesDead, hpc] using hg
      rcases State.unlink_eq h with ⟨rfl, rfl⟩ | ⟨-, rfl⟩
      · exact ⟨hs.kept, by simp [Pc.removing], fun _ => hgone.resolve_left (by decide)⟩
      · exact ⟨by simp [hs.kept, hdead], by simp [Pc.removing], fun _ => rfl⟩
  | out hpc =>
      -- the status, and the return
      have hgone : s.pidFile = false := hs.gone (by rw [hpc]; rfl)
      exact ⟨hs.kept, by simp [Pc.removing], fun _ => hgone⟩

theorem kept_step (hs : Kept s) (hg : RemovesDead s e = true) (h : attendStep name s e = some t) :
    Kept t := by
  cases e with
  | trap sig =>
      cases h
      exact ⟨hs.kept, hs.dead, hs.gone⟩
  | ends =>
      obtain rfl := attendStep_ends h
      exact ⟨hs.kept, fun _ => rfl, hs.gone⟩
  | _ => exact kept_run hs hg h

/-- Behind the removal nothing happens to the file. -/
theorem leaving_step (hpc : s.pc.leaving = true) (h : attendStep name s e = some t) :
    t.pc.leaving = true ∧ t.pidFile = s.pidFile ∧ t.removedAlive = s.removedAlive := by
  have hrun : attendRun name s e = some t →
      t.pc.leaving = true ∧ t.pidFile = s.pidFile ∧ t.removedAlive = s.removedAlive := by
    intro hr
    cases attendRun_move hr with
    | out => exact ⟨rfl, rfl, rfl⟩
    | _ => simp_all [Pc.leaving]
  cases e with
  | trap sig =>
      cases h
      exact ⟨hpc, rfl, rfl⟩
  | ends =>
      obtain rfl := attendStep_ends h
      exact ⟨hpc, rfl, rfl⟩
  | _ => exact hrun h

end Step

end Vzgot.Attend

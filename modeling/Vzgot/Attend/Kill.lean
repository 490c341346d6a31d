import Vzgot.Attend.Stop

/-!
# The escalation of `cont_attend`

Kill mode goes from 0 over the shutdown and SIGINT to SIGKILL, one step for each
timeout. The EINTR branch sets it to 1 whenever a stop flag is raised, and the flags are
not cleared in the loop: behind the SIGINT any trapped signal sets it back. The
escalation is monotone exactly when this does not happen (`attend_escalates`).
-/

set_option autoImplicit false

namespace Vzgot.Attend

open Transition Signal Command

/-- The step does not lower the kill mode. -/
def NotLowering (name : List Char) (s : State) (e : Event) : Prop :=
  ∀ t, attendStep name s e = some t → s.killMode ≤ t.killMode

/-- Three timeouts after kill mode 0 was left, the container has got SIGKILL. -/
def Escalated (s : State) : Prop := 3 ≤ s.timeouts → s.sigkilled = true

/-- The EINTR branch behind the SIGINT finds no stop flag. -/
def NoFlagBehindSigint (s : State) (e : Event) : Prop :=
  s.pc = .decide → e = .run → 2 ≤ s.killMode →
    s.signals.flags.sigterm = false ∧ s.signals.flags.sigint = false ∧
      s.signals.flags.sighup = false

/-- Places before the end of the loop. -/
def Pc.looping : Pc → Bool
  | .bottom false | .waitpid | .nozombie | .remove | .out | .returned => false
  | _ => true

/-- The kill mode counts the timeouts. -/
structure Escalating (s : State) : Prop where
  idle : s.killMode = 0 → s.timeouts = 0
  counts : 1 ≤ s.killMode → s.killMode = s.timeouts + 1
  killed : 3 ≤ s.killMode → s.sigkilled = true
  loop : s.pc.looping = true → s.killMode ≤ 2
  duty : s.pc = .duty → s.killMode = 0

section Step

variable {name : List Char} {s t : State} {e : Event}

/-- A step that leaves the mode and the counter alone and does not go back into the
loop. -/
theorem Escalating.same (hs : Escalating s) (hmode : t.killMode = s.killMode)
    (htimeouts : t.timeouts = s.timeouts) (hkilled : t.sigkilled = s.sigkilled)
    (hloop : t.pc.looping = true → s.pc.looping = true) (hduty : t.pc ≠ .duty) :
    Escalating t := by
  refine ⟨?_, ?_, ?_, ?_, fun h => absurd h hduty⟩
  · rw [hmode, htimeouts]
    exact hs.idle
  · rw [hmode, htimeouts]
    exact hs.counts
  · rw [hmode, hkilled]
    exact hs.killed
  · rw [hmode]
    exact fun h => hs.loop (hloop h)

theorem escalating_unlink {ok : Bool} (hs : Escalating s) (h : s.unlink ok = some t) :
    Escalating t := by
  rcases State.unlink_eq h with ⟨-, rfl⟩ | ⟨-, rfl⟩
  · exact hs
  · exact ⟨hs.idle, hs.counts, hs.killed, hs.loop, hs.duty⟩

theorem escalating_checksig {check : CheckPc} {again : CheckPc → Pc} {next : Pc}
    (hs : Escalating s) (hloop : s.pc.looping = true) (hnext : next ≠ .duty)
    (hagain : ∀ c, again c ≠ .duty) (before : Bool) :
    Escalating { s.checksig check again next with before := before } := by
  obtain ⟨signals, pc, hpc, heq⟩ := s.checksig_eq check again next
  rw [heq]
  refine hs.same rfl rfl rfl (fun _ => hloop) ?_
  rcases hpc with rfl | ⟨c, rfl⟩
  · exact hnext
  · exact hagain c

theorem escalating_polled {r : Poll} (hs : Escalating s) (hpc : s.pc = .poll)
    (h : s.polled r = some t) : Escalating t := by
  have hle : s.killMode ≤ 2 := hs.loop (by rw [hpc]; rfl)
  cases r with
  | interrupted sig =>
      cases h
      exact hs.same rfl rfl rfl (fun _ => by rw [hpc]; rfl) (by simp)
  | error =>
      cases h
      exact hs.same rfl rfl rfl (by simp [Pc.looping]) (by simp)
  | exited =>
      simp only [State.polled, Option.ite_none_left_eq_some, Option.some.injEq] at h
      obtain ⟨-, rfl⟩ := h
      exact hs.same rfl rfl rfl (by simp [Pc.looping]) (by simp)
  | timeout =>
      simp only [State.polled, Option.some.injEq] at h
      subst h
      rcases hk : s.killMode with _ | _ | _ | n
      · -- kill mode 0: the duty tasks
        exact ⟨by simp, by simp, by simp, by simp, by simp⟩
      · have := hs.counts (by omega)
        refine ⟨by simp, fun _ => ?_, by simp, by simp, by simp⟩
        simp only [hk] at this ⊢
        simp
        omega
      · have := hs.counts (by omega)
        refine ⟨by simp, fun _ => ?_, by simp, by simp [Pc.looping], by simp⟩
        simp only [hk] at this ⊢
        simp
        omega
      · omega

theorem escalating_decides (hs : Escalating s) (hpc : s.pc = .decide)
    (hg : NoFlagBehindSigint s .run) : Escalating s.decides := by
  have hle : s.killMode ≤ 2 := hs.loop (by rw [hpc]; rfl)
  simp only [State.decides]
  split
  · rename_i hstop
    have hflags := (halting_stops _).1 hstop
    -- the guard: kill mode 2 is not set back
    have hlow : s.killMode ≤ 1 := by
      by_contra hge
      obtain ⟨hterm, hint, hhup⟩ := hg hpc rfl (by omega)
      simp [hterm, hint, hhup] at hflags
    have hzero : s.timeouts = 0 := by
      by_cases hk : s.killMode = 0
      · exact hs.idle hk
      · have := hs.counts (by omega)
        omega
    exact ⟨by simp, by simp [hzero], by simp, by simp, by simp⟩
  · exact hs.same rfl rfl rfl (fun _ => by rw [hpc]; rfl) (by simp)

theorem escalating_run (hs : Escalating s) (hg : NoFlagBehindSigint s e)
    (h : attendRun name s e = some t) : Escalating t := by
  cases attendRun_move h with
  | search turn hpc =>
      -- the search for the monitoring process
      exact hs.same rfl rfl rfl (fun _ => by rw [hpc]; rfl) (by simp)
  | searchCheck turn check hpc =>
      -- `apl_checksig` in the search
      rw [← checksig_before]
      exact escalating_checksig hs (by rw [hpc]; rfl) (by simp) (by simp) _
  | monitor turn mpid hpc =>
      -- the monitoring process, found or not
      refine hs.same rfl rfl rfl (fun _ => by rw [hpc]; rfl) ?_
      by_cases h₁ : mpid ≠ 0
      · simp [h₁]
      · by_cases h₂ : turn + 1 < 5 <;> simp [h₁, h₂]
  | pidfd opened hpc =>
      -- `pidfd_open`
      refine hs.same rfl rfl rfl (fun _ => by rw [hpc]; rfl) ?_
      cases opened <;> simp
  | purge check hpc =>
      -- `apl_checksig` before the loop
      exact escalating_checksig hs (by rw [hpc]; rfl) (by simp) (by simp) _
  | poll result t hpc h =>
      -- the poll
      exact escalating_polled hs hpc h
  | check check hpc =>
      -- `apl_checksig` of the EINTR branch
      rw [← checksig_before]
      exact escalating_checksig hs (by rw [hpc]; rfl) (by simp) (by simp) _
  | decide hpc =>
      -- the tests of the EINTR branch
      exact escalating_decides hs hpc hg
  | shutdown sd a t hpc h =>
      -- a turn of `cont_shutdown`
      obtain ⟨r, -, hr⟩ := Option.bind_eq_some_iff.1 h
      have ht : Escalating { s with pc := .shutdown r.1 } :=
        hs.same rfl rfl rfl (fun _ => by rw [hpc]; rfl) (by simp)
      cases a with
      | removed ok => exact escalating_unlink ht hr
      | _ =>
          cases hr
          exact ht
  | stopped sd hpc =>
      -- `cont_shutdown` has returned
      exact hs.same rfl rfl rfl (fun _ => by rw [hpc]; rfl) (by simp)
  | probe alive hpc =>
      -- `kill(mpid,0)` behind the duty tasks
      cases alive with
      | true => exact hs.same rfl rfl rfl (fun _ => by rw [hpc]; rfl) (by simp)
      | false =>
          have hzero := hs.duty hpc
          have := hs.idle hzero
          exact ⟨by simp, by simp [hzero, this], by simp [hzero], by simp [hzero], by simp⟩
  | again hpc =>
      -- the next iteration
      exact hs.same rfl rfl rfl (fun _ => by rw [hpc]; rfl) (by simp)
  | leave hpc =>
      -- the end of the loop
      exact hs.same rfl rfl rfl (by simp [Pc.looping]) (by simp)
  | wait result t hpc h =>
      -- `waitpid`
      obtain ⟨-, status, rfl⟩ := State.waited_eq h
      exact hs.same rfl rfl rfl (by simp [Pc.looping]) (by simp)
  | abandon hpc =>
      -- kill mode 3: no `waitpid`
      exact hs.same rfl rfl rfl (by simp [Pc.looping]) (by simp)
  | nozombie hpc =>
      -- `prc_nozombie`
      exact hs.same rfl rfl rfl (by simp [Pc.looping]) (by simp)
  | remove ok t hpc h =>
      -- `cnt_rm_cont_pid`
      have ht : Escalating { s with pc := .out } :=
        hs.same rfl rfl rfl (by simp [Pc.looping]) (by simp)
      exact escalating_unlink ht h
  | out hpc =>
      -- the status, and the return
      exact hs.same rfl rfl rfl (by simp [Pc.looping]) (by simp)

theorem escalating_step (hs : Escalating s) (hg : NoFlagBehindSigint s e)
    (h : attendStep name s e = some t) : Escalating t := by
  cases e with
  | trap sig =>
      cases h
      exact ⟨hs.idle, hs.counts, hs.killed, hs.loop, hs.duty⟩
  | ends =>
      obtain rfl := attendStep_ends h
      exact ⟨hs.idle, hs.counts, hs.killed, hs.loop, hs.duty⟩
  | _ => exact escalating_run hs hg h

theorem Escalating.escalated (hs : Escalating s) : Escalated s := by
  intro hge
  by_cases hk : s.killMode = 0
  · have := hs.idle hk
    omega
  · have := hs.counts (by omega)
    exact hs.killed (by omega)

/-! ## One step -/

theorem unlink_killMode {ok : Bool} (h : s.unlink ok = some t) : t.killMode = s.killMode := by
  rcases State.unlink_eq h with ⟨-, rfl⟩ | ⟨-, rfl⟩
  · rfl
  · rfl

theorem checksig_killMode {check : CheckPc} {again : CheckPc → Pc} {next : Pc} :
    (s.checksig check again next).killMode = s.killMode := by
  obtain ⟨_, _, -, heq⟩ := s.checksig_eq check again next
  rw [heq]

theorem polled_killMode {r : Poll} (h : s.polled r = some t) : s.killMode ≤ t.killMode := by
  cases r with
  | interrupted sig =>
      cases h
      exact Nat.le_refl _
  | error =>
      cases h
      exact Nat.le_refl _
  | exited =>
      simp only [State.polled, Option.ite_none_left_eq_some, Option.some.injEq] at h
      obtain ⟨-, rfl⟩ := h
      exact Nat.le_refl _
  | timeout =>
      simp only [State.polled, Option.some.injEq] at h
      subst h
      rcases hk : s.killMode with _ | _ | _ | n <;> simp

theorem run_killMode (hpc : s.pc ≠ .decide) (h : attendRun name s e = some t) :
    s.killMode ≤ t.killMode := by
  cases attendRun_move h with
  | searchCheck => exact Nat.le_of_eq checksig_killMode.symm
  | purge => exact Nat.le_of_eq checksig_killMode.symm
  | check => exact Nat.le_of_eq checksig_killMode.symm
  | poll result t hpc h => exact polled_killMode h
  | decide hd => exact absurd hd hpc
  | shutdown sd a t hpc h =>
      obtain ⟨r, -, hr⟩ := Option.bind_eq_some_iff.1 h
      cases a with
      | removed ok => exact Nat.le_of_eq (unlink_killMode hr).symm
      | _ =>
          cases hr
          exact Nat.le_refl _
  | probe alive =>
      -- without its monitoring process the container gets a mode
      cases alive <;> simp
  | wait result t hpc h =>
      obtain ⟨-, status, rfl⟩ := State.waited_eq h
      exact Nat.le_refl _
  | remove ok t hpc h => exact Nat.le_of_eq (unlink_killMode h).symm
  | _ => exact Nat.le_refl _

/-- A step lowers the kill mode exactly when it is the EINTR branch behind the SIGINT with
a stop flag. -/
theorem notLowering_iff : NotLowering name s e ↔ NoFlagBehindSigint s e := by
  constructor
  · rintro h hpc rfl hge
    have ht := h s.decides (by simp [attendStep, attendRun, hpc])
    simp only [State.decides] at ht
    split at ht
    · simp only at ht
      omega
    · rename_i hno
      have hflags := (halting_stops s.signals.flags).not.1 hno
      simpa [not_or] using hflags
  · intro hg t h
    cases e with
    | trap sig =>
        cases h
        exact Nat.le_refl _
    | ends =>
        obtain rfl := attendStep_ends h
        exact Nat.le_refl _
    | run =>
        by_cases hpc : s.pc = .decide
        · have ht : t = s.decides := by
            simpa [attendStep, attendRun, hpc, eq_comm] using h
          subst ht
          simp only [State.decides]
          split
          · rename_i hstop
            have hflags := (halting_stops _).1 hstop
            by_contra hlow
            obtain ⟨hterm, hint, hhup⟩ := hg hpc rfl (by simp only at hlow; omega)
            simp [hterm, hint, hhup] at hflags
          · exact Nat.le_refl _
        · exact run_killMode hpc h
    | _ =>
        have hpc : s.pc ≠ .decide := by
          intro hpc
          simp [attendStep, attendRun, hpc] at h
        exact run_killMode hpc h

end Step

theorem escalating_init (signals : Signals Nat) (alive pidFile : Bool) :
    Escalating (attendInit signals alive pidFile) :=
  ⟨fun _ => rfl, by simp [attendInit], by simp [attendInit], by simp [attendInit],
    by simp [attendInit]⟩

/-- In a run of `cont_attend` the kill mode never decreases and a stopped container gets SIGKILL
after at most three timeouts if and only if the EINTR branch never finds a stop flag
behind the SIGINT. -/
theorem attend_escalates (name : List Char) (signals : Signals Nat) (alive pidFile : Bool)
    (es : List Event) :
    (Meets (attendStep name) (NotLowering name) (attendInit signals alive pidFile) es ∧
      Always (attendStep name) Escalated (attendInit signals alive pidFile) es) ↔
      Meets (attendStep name) NoFlagBehindSigint (attendInit signals alive pidFile) es := by
  constructor
  · exact fun h => h.1.mono fun _ _ => notLowering_iff.1
  · intro hm
    refine ⟨hm.mono fun _ _ => notLowering_iff.2, ?_⟩
    exact always_of_meets (fun _ hs => hs.escalated) (fun _ _ _ hs hg => escalating_step hs hg)
      (escalating_init signals alive pidFile) hm

/-- Behind SIGTERM, a shutdown that fails and the timeout that sends SIGINT, SIGUSR1 sets
the kill mode back from 2 to 1. -/
theorem attend_lowers_kill_mode : ∃ s,
    run (attendStep ['w', 'e', 'b']) (attendInit noSignals true true)
      (toPoll ++ [Event.poll (.interrupted sigTerm)] ++ List.replicate 72 Event.run ++
        [Event.shutdown (.config false), .run, .run, .poll .timeout, .run,
          .poll (.interrupted sigUsr1)] ++ List.replicate 71 Event.run) = some s ∧
      ¬ NotLowering ['w', 'e', 'b'] s .run := by
  have hrun : ∃ s, run (attendStep ['w', 'e', 'b']) (attendInit noSignals true true)
      (toPoll ++ [Event.poll (.interrupted sigTerm)] ++ List.replicate 72 Event.run ++
        [Event.shutdown (.config false), .run, .run, .poll .timeout, .run,
          .poll (.interrupted sigUsr1)] ++ List.replicate 71 Event.run) = some s ∧
      s.killMode = 2 ∧ (attendStep ['w', 'e', 'b'] s .run).any (fun t => t.killMode = 1) = true :=
    exists_run (by decide +kernel)
  obtain ⟨s, h, hk, hany⟩ := hrun
  refine ⟨s, h, fun hno => ?_⟩
  cases ht : attendStep ['w', 'e', 'b'] s .run with
  | none => simp [ht] at hany
  | some t =>
      have hle := hno t ht
      have hone : t.killMode = 1 := by simpa [ht] using hany
      omega

end Vzgot.Attend

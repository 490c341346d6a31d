import Vzgot.Attend.Loop

/-!
# Stop requests in the loop of `cont_attend`

The signals are looked at in one branch of the poll, the one of an interrupted poll. A
stop signal that arrives anywhere else raises no flag there, and the next poll waits for
its timeout. `NoLostStop` says that an iteration does not end in kill mode 0 with the
container alive when a stop signal had arrived before the iteration; it holds all along
a run exactly when each such iteration is interrupted, or loses the monitoring process
(`attend_no_lost_stop`).
-/

set_option autoImplicit false

namespace Vzgot.Attend

open Transition Signal Command

/-- At the end of an iteration, a stop signal that arrived before it has left kill mode
0, if the container is alive. -/
def NoLostStop (s : State) : Prop :=
  ∀ go, s.pc = .bottom go → s.before = true → s.alive = true → s.killMode ≠ 0

/-- An iteration that begins with a stop signal delivered, in kill mode 0 and with the
container alive, ends neither in a poll error nor in a timeout that finds the monitoring
process. -/
def StopHeard (s : State) (e : Event) : Prop :=
  s.before = true → s.killMode = 0 → s.alive = true → e ≠ .poll .error ∧ e ≠ .probe true

/-- Access of `apl_checksig` that is next. -/
def Pc.checkPc : Pc → CheckPc
  | .searchCheck _ c | .purge c | .check c => c
  | _ => .done

/-- Places outside `apl_checksig` and the EINTR branch, and not at the end of an
iteration. -/
def Pc.plain : Pc → Bool
  | .searchCheck _ _ | .purge _ | .check _ | .decide | .shutdown _ | .bottom _ => false
  | _ => true

/-- The call of `apl_checksig` in progress. -/
def State.call (s : State) : Check Nat := ⟨s.signals, s.pc.checkPc, 0⟩

/-- What the code owes to a stop signal, place by place. -/
structure Heard (s : State) : Prop where
  seen : s.seen = true → ∃ sig, stopSignal sig = true ∧ Owed sig s.call
  before : s.before = true → s.seen = true
  check : ∀ check, s.pc = .check check → s.before = true →
    ∃ sig, stopSignal sig = true ∧ Noted sig s.call
  decide : s.pc = .decide → s.before = true →
    ∃ sig, stopSignal sig = true ∧ s.signals.flags.raised sig
  shutdown : ∀ sd, s.pc = .shutdown sd → s.killMode ≠ 0
  bottom : NoLostStop s

section Step

variable {name : List Char} {s t : State} {e : Event}

theorem stopSignal_lt {sig : Nat} (h : stopSignal sig = true) : sig < nsig := by
  simp only [stopSignal, sigTerm, sigInt, sigHup, decide_eq_true_eq] at h
  simp only [nsig]
  omega

/-- A flag of a stop signal makes the EINTR branch stop the container. -/
theorem stopping_of_raised {f : Flags} {sig : Nat} (hsig : stopSignal sig = true)
    (h : f.raised sig) : f.sigterm = true ∨ f.sigint = true ∨ f.sighup = true := by
  simp only [stopSignal, decide_eq_true_eq] at hsig
  rcases hsig with rfl | rfl | rfl
  · exact .inl h
  · exact .inr (.inl h)
  · exact .inr (.inr h)

/-- A step that neither looks at the signals nor shuts the container down. -/
theorem Heard.quiet (hs : Heard s) (hsignals : t.signals = s.signals) (hseen : t.seen = s.seen)
    (hbefore : t.before = true → s.seen = true) (hcall : s.pc.checkPc = .done)
    (hpc : t.pc.checkPc = .done) (hcheck : ∀ check, t.pc ≠ .check check) (hdecide : t.pc ≠ .decide)
    (hshutdown : ∀ sd, t.pc = .shutdown sd → t.killMode ≠ 0) (hbottom : NoLostStop t) : Heard t := by
  have heq : t.call = s.call := by
    unfold State.call
    rw [hsignals, hcall, hpc]
  exact ⟨fun h => heq ▸ hs.seen (hseen ▸ h), fun h => hseen ▸ hbefore h,
    fun check h => absurd h (hcheck check), fun h => absurd h hdecide, hshutdown, hbottom⟩

/-- A step to such a place. -/
theorem Heard.plain (hs : Heard s) (hcall : s.pc.checkPc = .done) (hpc : t.pc.plain = true)
    (hsignals : t.signals = s.signals) (hseen : t.seen = s.seen)
    (hbefore : t.before = true → s.seen = true) : Heard t := by
  refine hs.quiet hsignals hseen hbefore hcall ?_ ?_ ?_ ?_ ?_
  · cases ht : t.pc <;> simp_all [Pc.plain, Pc.checkPc]
  · rintro c ht
    simp [ht, Pc.plain] at hpc
  · rintro ht
    simp [ht, Pc.plain] at hpc
  · rintro sd ht
    simp [ht, Pc.plain] at hpc
  · rintro go ht
    simp [ht, Pc.plain] at hpc

/-- `apl_checksig` is called outside the EINTR branch. -/
theorem Heard.enter (hs : Heard s) (hcall : s.pc.checkPc = .done) {pc : Pc}
    (hpc : pc.checkPc = .test 0) (hcheck : ∀ check, pc ≠ .check check) :
    Heard { s with pc := pc } := by
  refine ⟨fun h => ?_, hs.before, fun c h => absurd h (hcheck c), ?_, ?_, ?_⟩
  · obtain ⟨sig, hsig, howed⟩ := hs.seen h
    refine ⟨sig, hsig, ?_⟩
    show Owed sig ⟨s.signals, pc.checkPc, 0⟩
    rw [hpc]
    exact (howed.noted_start hcall).owed
  · rintro rfl
    cases hpc
  · rintro sd rfl
    cases hpc
  · rintro go rfl
    cases hpc

/-- A step inside a call of `apl_checksig`, or behind it. -/
theorem checksig_call {check : CheckPc} {again : CheckPc → Pc} {next : Pc}
    (hpc : s.pc.checkPc = check) (hagain : ∀ c, (again c).checkPc = c)
    (hnext : next.checkPc = .done) :
    (s.checksig check again next).signals = s.call.step.signals ∧
      (s.checksig check again next).pc.checkPc = s.call.step.pc := by
  subst hpc
  unfold State.checksig State.call
  by_cases hdone : s.pc.checkPc = .done
  · rw [if_pos hdone, hdone]
    exact ⟨rfl, hnext⟩
  · rw [if_neg hdone]
    exact ⟨rfl, hagain _⟩

theorem owed_congr {sig : Nat} {c d : Check Nat} (hsignals : d.signals = c.signals) (hpc : d.pc = c.pc)
    (h : Owed sig c) : Owed sig d := by
  unfold Owed
  rw [hsignals, hpc]
  exact h

theorem noted_congr {sig : Nat} {c d : Check Nat} (hsignals : d.signals = c.signals)
    (hpc : d.pc = c.pc) (h : Noted sig c) : Noted sig d := by
  unfold Noted
  rw [hsignals, hpc]
  exact h

theorem heard_trap (hs : Heard s) (sig : Nat) : Heard (s.trap sig) := by
  have hcall : (s.trap sig).call = s.call.trap sig := rfl
  refine ⟨fun h => ?_, fun h => ?_, fun check hpc h => ?_, hs.decide, hs.shutdown, hs.bottom⟩
  · rw [hcall]
    by_cases hsig : stopSignal sig = true
    · exact ⟨sig, hsig, owed_trap_self (Nat.succ_ne_zero _)⟩
    · have hseen : s.seen = true := by simpa [State.trap, hsig] using h
      obtain ⟨sig', hsig', howed⟩ := hs.seen hseen
      exact ⟨sig', hsig', owed_trap (fun _ => Nat.succ_ne_zero _) howed⟩
  · have hseen := hs.before h
    simp [State.trap, hseen]
  · obtain ⟨sig', hsig', hnoted⟩ := hs.check check hpc h
    exact ⟨sig', hsig', noted_trap (fun _ => Nat.succ_ne_zero _) hnoted⟩

/-- Behind the EINTR branch the flag of every noted signal is raised. -/
theorem heard_checksig {check : CheckPc} {again : CheckPc → Pc} {next : Pc} {before : Bool}
    (hs : Heard s) (hpc : s.pc.checkPc = check) (hagain : ∀ c, (again c).checkPc = c)
    (hnext : next.checkPc = .done) (hbefore : before = true → s.seen = true)
    (hcheck : ∀ c, { s.checksig check again next with before := before }.pc = .check c →
      before = true → ∃ sig, stopSignal sig = true ∧ Noted sig s.call)
    (hdecide : { s.checksig check again next with before := before }.pc = .decide →
      before = true → s.pc.checkPc = .done ∧ ∃ sig, stopSignal sig = true ∧ Noted sig s.call)
    (hplain : ∀ sd go, { s.checksig check again next with before := before }.pc ≠ .shutdown sd ∧
      { s.checksig check again next with before := before }.pc ≠ .bottom go) :
    Heard { s.checksig check again next with before := before } := by
  obtain ⟨hsignals, hstep⟩ := checksig_call hpc hagain hnext
  have hseen : (s.checksig check again next).seen = s.seen := by
    obtain ⟨_, _, -, heq⟩ := s.checksig_eq check again next
    rw [heq]
  refine ⟨fun h => ?_, fun h => ?_, fun c hc hb => ?_, fun hd hb => ?_, fun sd h => ?_,
    fun go h => ?_⟩
  · obtain ⟨sig, hsig, howed⟩ := hs.seen (hseen ▸ h)
    exact ⟨sig, hsig, owed_congr hsignals hstep (owed_step howed)⟩
  · exact hseen.trans (hbefore h)
  · obtain ⟨sig, hsig, hnoted⟩ := hcheck c hc hb
    exact ⟨sig, hsig, noted_congr hsignals hstep (noted_step (stopSignal_lt hsig) hnoted)⟩
  · obtain ⟨hdone, sig, hsig, hnoted⟩ := hdecide hd hb
    refine ⟨sig, hsig, ?_⟩
    show (s.checksig check again next).signals.flags.raised sig
    rw [hsignals]
    exact raised_step (hnoted.raised hdone)
  · exact absurd h (hplain sd true).1
  · exact absurd h (hplain shutdownInit go).2

theorem heard_polled {r : Poll} (hs : Heard s) (hpc : s.pc = .poll)
    (hg : StopHeard s (.poll r)) (h : s.polled r = some t) : Heard t := by
  have hcall : s.pc.checkPc = .done := by rw [hpc]; rfl
  cases r with
  | interrupted sig =>
      -- what was owed at the head of the loop is noted by this call of `apl_checksig`
      cases h
      have ht := heard_trap hs sig
      refine ⟨fun hseen => ?_, ht.before, fun c _ hb => ?_, by simp, by simp, by simp [NoLostStop]⟩
      · obtain ⟨sig', hsig', howed⟩ := ht.seen hseen
        exact ⟨sig', hsig', (howed.noted_start hcall).owed⟩
      · obtain ⟨sig', hsig', howed⟩ := ht.seen (ht.before hb)
        exact ⟨sig', hsig', howed.noted_start hcall⟩
  | error =>
      cases h
      refine hs.quiet rfl rfl hs.before hcall rfl (by simp) (by simp) (by simp) ?_
      intro go _ hb ha hk
      exact (hg hb hk ha).1 rfl
  | exited =>
      simp only [State.polled, Option.ite_none_left_eq_some, Option.some.injEq] at h
      obtain ⟨hdead, rfl⟩ := h
      refine hs.quiet rfl rfl hs.before hcall rfl (by simp) (by simp) (by simp) ?_
      intro go _ _ ha
      exact absurd ha hdead
  | timeout =>
      simp only [State.polled, Option.some.injEq] at h
      subst h
      rcases hk : s.killMode with _ | _ | _ | n
      · exact hs.quiet rfl rfl hs.before hcall rfl (by simp) (by simp) (by simp)
          (by simp [NoLostStop])
      · exact hs.quiet rfl rfl hs.before hcall rfl (by simp) (by simp) (by simp)
          (by simp [NoLostStop])
      · exact hs.quiet rfl rfl hs.before hcall rfl (by simp) (by simp) (by simp)
          (by simp [NoLostStop])
      · exact hs.quiet rfl rfl hs.before hcall rfl (by simp) (by simp) (by simp)
          (by simp [NoLostStop])

theorem raised_halting {f : Flags} {sig : Nat} (h : f.raised sig) : (halting f).raised sig := by
  unfold halting
  split
  · unfold Flags.raised at h ⊢
    split <;> simp_all
  · exact h

/-- The EINTR branch shuts the container down exactly when a stop flag is raised. -/
theorem halting_stops (f : Flags) :
    ((halting f).sigint = true ∨ (halting f).sighup = true) ↔
      f.sigterm = true ∨ f.sigint = true ∨ f.sighup = true := by
  unfold halting
  cases f.sigterm <;> simp

theorem heard_decides (hs : Heard s) (hpc : s.pc = .decide) : Heard s.decides := by
  have howed : s.seen = true → ∃ sig, stopSignal sig = true ∧
      Owed sig ⟨{ s.signals with flags := halting s.signals.flags }, .done, 0⟩ := by
    intro hseen
    obtain ⟨sig, hsig, howed⟩ := hs.seen hseen
    refine ⟨sig, hsig, ?_⟩
    have hcall : s.call = ⟨s.signals, .done, 0⟩ := by
      unfold State.call
      rw [hpc]
      rfl
    rw [hcall] at howed
    rcases howed with hraised | hlatch | hcount
    · exact .inl (raised_halting hraised)
    · cases hlatch
    · exact .inr (.inr hcount)
  simp only [State.decides]
  split
  · exact ⟨howed, hs.before, by simp, by simp, by simp, by simp [NoLostStop]⟩
  · refine ⟨howed, hs.before, by simp, by simp, by simp, fun go _ hb => ?_⟩
    -- a stop signal of an earlier iteration has its flag raised here
    obtain ⟨sig, hsig, hraised⟩ := hs.decide hpc hb
    have := (halting_stops s.signals.flags).2 (stopping_of_raised hsig hraised)
    contradiction

theorem heard_shutdown {sd sd' : Shutdown} (hs : Heard s) (hpc : s.pc = .shutdown sd) :
    Heard { s with pc := .shutdown sd' } := by
  have hcall : s.pc.checkPc = .done := by rw [hpc]; rfl
  exact hs.quiet rfl rfl hs.before hcall rfl (by simp) (by simp)
    (fun _ _ => hs.shutdown sd hpc) (by simp [NoLostStop])

/-- Removing `first.pid` has nothing to do with the signals. -/
theorem heard_unlink {ok : Bool} (hs : Heard s) (h : s.unlink ok = some t) : Heard t := by
  rcases State.unlink_eq h with ⟨-, rfl⟩ | ⟨-, rfl⟩
  · exact hs
  · exact ⟨hs.seen, hs.before, hs.check, hs.decide, hs.shutdown, hs.bottom⟩

theorem heard_shuts {sd : Shutdown} {a : Answer} (hs : Heard s) (hpc : s.pc = .shutdown sd)
    (h : s.shuts name sd a = some t) : Heard t := by
  obtain ⟨r, -, hr⟩ := Option.bind_eq_some_iff.1 h
  cases a with
  | removed ok => exact heard_unlink (heard_shutdown hs hpc) hr
  | _ =>
      cases hr
      exact heard_shutdown hs hpc

theorem heard_waited {r : Wait} (hs : Heard s) (hpc : s.pc = .waitpid)
    (h : s.waited r = some t) : Heard t := by
  have hcall : s.pc.checkPc = .done := by rw [hpc]; rfl
  obtain ⟨-, status, rfl⟩ := State.waited_eq h
  exact hs.plain hcall rfl rfl rfl hs.before

theorem heard_checking {check : CheckPc} {turn : Nat} (hs : Heard s)
    (hpc : s.pc = .searchCheck turn check) :
    Heard (s.checksig check (.searchCheck turn) (.monitor turn)) := by
  have hnext : ∀ pc, (s.checksig check (.searchCheck turn) (.monitor turn)).pc = pc →
      pc = .monitor turn ∨ ∃ c, pc = .searchCheck turn c := by
    rintro pc rfl
    exact checksig_pc _ _ _ _
  rw [← checksig_before]
  refine heard_checksig hs (by rw [hpc]; rfl) (fun _ => rfl) rfl hs.before ?_ ?_ ?_
  · intro c hc
    rcases hnext _ hc with h | ⟨c', h⟩ <;> cases h
  · intro hd
    rcases hnext _ hd with h | ⟨c', h⟩ <;> cases h
  · refine fun sd go => ⟨fun h => ?_, fun h => ?_⟩ <;>
      rcases hnext _ h with h | ⟨c', h⟩ <;> cases h

theorem heard_purging {check : CheckPc} (hs : Heard s) (hpc : s.pc = .purge check) :
    Heard { s.checksig check .purge .poll with before := s.seen } := by
  have hnext : ∀ pc, (s.checksig check .purge .poll).pc = pc →
      pc = .poll ∨ ∃ c, pc = .purge c := by
    rintro pc rfl
    exact checksig_pc _ _ _ _
  refine heard_checksig hs (by rw [hpc]; rfl) (fun _ => rfl) rfl id ?_ ?_ ?_
  · intro c hc
    rcases hnext _ hc with h | ⟨c', h⟩ <;> cases h
  · intro hd
    rcases hnext _ hd with h | ⟨c', h⟩ <;> cases h
  · refine fun sd go => ⟨fun h => ?_, fun h => ?_⟩ <;>
      rcases hnext _ h with h | ⟨c', h⟩ <;> cases h

/-- The EINTR branch itself. -/
theorem heard_interrupted {check : CheckPc} (hs : Heard s) (hpc : s.pc = .check check) :
    Heard (s.checksig check .check .decide) := by
  have hnext : ∀ pc, (s.checksig check .check .decide).pc = pc →
      pc = .decide ∨ ∃ c, pc = .check c := by
    rintro pc rfl
    exact checksig_pc _ _ _ _
  rw [← checksig_before]
  refine heard_checksig hs (by rw [hpc]; rfl) (fun _ => rfl) rfl hs.before ?_ ?_ ?_
  · exact fun _ _ hb => hs.check check hpc hb
  · intro hd hb
    refine ⟨?_, hs.check check hpc hb⟩
    rw [hpc]
    unfold State.checksig at hd
    split at hd
    · assumption
    · cases hd
  · refine fun sd go => ⟨fun h => ?_, fun h => ?_⟩ <;>
      rcases hnext _ h with h | ⟨c', h⟩ <;> cases h

theorem heard_run (hs : Heard s) (hg : StopHeard s e) (h : attendRun name s e = some t) :
    Heard t := by
  have hcall : ∀ {pc : Pc}, s.pc = pc → pc.checkPc = .done → s.pc.checkPc = .done := by
    rintro pc rfl hpc
    exact hpc
  cases attendRun_move h with
  | search turn hpc =>
      -- the search for the monitoring process
      exact hs.enter (hcall hpc rfl) rfl (by simp)
  | searchCheck turn check hpc =>
      -- `apl_checksig` in the search
      exact heard_checking hs hpc
  | monitor turn mpid hpc =>
      -- the monitoring process, found or not
      refine hs.plain (hcall hpc rfl) ?_ rfl rfl hs.before
      by_cases h₁ : mpid ≠ 0
      · simp [h₁, Pc.plain]
      · by_cases h₂ : turn + 1 < 5 <;> simp [h₁, h₂, Pc.plain]
  | pidfd opened hpc =>
      -- `pidfd_open`
      cases opened with
      | true => exact hs.enter (hcall hpc rfl) rfl (by simp)
      | false => exact hs.plain (hcall hpc rfl) rfl rfl rfl hs.before
  | purge check hpc =>
      -- `apl_checksig` before the loop
      exact heard_purging hs hpc
  | poll result t hpc h =>
      -- the poll
      exact heard_polled hs hpc hg h
  | check check hpc =>
      -- `apl_checksig` of the EINTR branch
      exact heard_interrupted hs hpc
  | decide hpc =>
      -- the tests of the EINTR branch
      exact heard_decides hs hpc
  | shutdown sd a t hpc h =>
      -- a turn of `cont_shutdown`
      exact heard_shuts hs hpc h
  | stopped sd hpc =>
      -- `cont_shutdown` has returned
      exact hs.quiet rfl rfl hs.before (hcall hpc rfl) rfl (by simp) (by simp) (by simp)
        fun _ _ _ _ => hs.shutdown sd hpc
  | probe alive hpc =>
      -- `kill(mpid,0)` behind the duty tasks
      cases alive with
      | true =>
          refine hs.quiet rfl rfl hs.before (hcall hpc rfl) rfl (by simp) (by simp) (by simp) ?_
          exact fun _ _ hb ha hk => (hg hb hk ha).2 rfl
      | false =>
          exact hs.quiet rfl rfl hs.before (hcall hpc rfl) rfl (by simp) (by simp) (by simp)
            fun _ _ _ _ => Nat.succ_ne_zero _
  | again hpc =>
      -- the next iteration
      exact hs.plain (hcall hpc rfl) rfl rfl rfl id
  | leave hpc =>
      -- the end of the loop
      exact hs.plain (hcall hpc rfl) rfl rfl rfl hs.before
  | wait result t hpc h =>
      -- `waitpid`
      exact heard_waited hs hpc h
  | abandon hpc =>
      -- kill mode 3: no `waitpid`
      exact hs.plain (hcall hpc rfl) rfl rfl rfl hs.before
  | nozombie hpc =>
      -- `prc_nozombie`
      exact hs.plain (hcall hpc rfl) rfl rfl rfl hs.before
  | remove ok t hpc h =>
      -- `cnt_rm_cont_pid`
      have ht : Heard { s with pc := .out } := hs.plain (hcall hpc rfl) rfl rfl rfl hs.before
      exact heard_unlink ht h
  | out hpc =>
      -- the status, and the return
      exact hs.plain (hcall hpc rfl) rfl rfl rfl hs.before

theorem heard_step (hs : Heard s) (hg : StopHeard s e) (h : attendStep name s e = some t) :
    Heard t := by
  cases e with
  | trap sig =>
      cases h
      exact heard_trap hs sig
  | ends =>
      obtain rfl := attendStep_ends h
      exact ⟨hs.seen, hs.before, hs.check, hs.decide, hs.shutdown, fun _ _ _ ha => nomatch ha⟩
  | _ => exact heard_run hs hg h

theorem lost_of_unheard (hg : ¬ StopHeard s e) (h : attendStep name s e = some t) :
    ¬ NoLostStop t := by
  simp only [StopHeard, Classical.not_imp, not_and_or, not_not] at hg
  obtain ⟨hb, hk, ha, rfl | rfl⟩ := hg
  · simp only [attendStep, attendRun] at h
    split at h <;> try contradiction
    rename_i heq
    cases heq
    cases h
    exact fun ht => ht false rfl hb ha hk
  · simp only [attendStep, attendRun] at h
    split at h <;> try contradiction
    rename_i heq
    cases heq
    cases h
    exact fun ht => ht true rfl hb ha hk

end Step

theorem heard_init (signals : Signals Nat) (alive pidFile : Bool) :
    Heard (attendInit signals alive pidFile) := by
  refine ⟨fun h => ?_, id, by simp [attendInit], by simp [attendInit], by simp [attendInit],
    by simp [attendInit, NoLostStop]⟩
  have hm : marked signals = true := h
  simp only [marked, Bool.or_eq_true, decide_eq_true_eq] at hm
  rcases hm with ((((hterm | hint) | hhup) | hterm) | hint) | hhup
  · exact ⟨sigTerm, rfl, .inl hterm⟩
  · exact ⟨sigInt, rfl, .inl hint⟩
  · exact ⟨sigHup, rfl, .inl hhup⟩
  · exact ⟨sigTerm, rfl, .inr (.inr (Nat.ne_of_gt hterm))⟩
  · exact ⟨sigInt, rfl, .inr (.inr (Nat.ne_of_gt hint))⟩
  · exact ⟨sigHup, rfl, .inr (.inr (Nat.ne_of_gt hhup))⟩

/-- No stop request is lost in a run of `cont_attend` if and only if every iteration that begins
with one, in kill mode 0 and with the container alive, is interrupted, loses the
monitoring process, or sees the end of the container. -/
theorem attend_no_lost_stop {name : List Char} {signals : Signals Nat} {alive pidFile : Bool}
    {es : List Event} {t : State}
    (h : run (attendStep name) (attendInit signals alive pidFile) es = some t) :
    Always (attendStep name) NoLostStop (attendInit signals alive pidFile) es ↔
      Meets (attendStep name) StopHeard (attendInit signals alive pidFile) es :=
  always_iff_meets (fun _ hs => hs.bottom) (fun _ _ _ hs hg => heard_step hs hg)
    (fun _ _ _ => lost_of_unheard) (heard_init signals alive pidFile) h

/-- Before any signal. -/
def noSignals : Signals Nat := ⟨fun _ => 0, ⟨false, false, false, false, false, 0⟩⟩

/-- The way to the first poll, without signals. -/
def toPoll : List Event :=
  Event.run :: List.replicate 67 Event.run ++ [Event.monitor 7, .pidfd true] ++
    List.replicate 67 Event.run

/-- SIGTERM arrives during the duty tasks, and the poll of the next iteration is interrupted by
SIGUSR1. -/
def heardAtLast : List Event :=
  toPoll ++ [Event.poll .timeout, .trap sigTerm, .probe true, .run, .poll (.interrupted sigUsr1)] ++
    List.replicate 76 Event.run ++ [Event.shutdown (.config false), .run]

/-- `StopHeard`, as a test. -/
def heardTest (s : State) : Event → Bool
  | .poll .error | .probe true => !(s.before && s.killMode == 0 && s.alive)
  | _ => true

theorem stopHeard_of_test {s : State} {e : Event} (h : heardTest s e = true) : StopHeard s e := by
  intro hb hk ha
  constructor
  · rintro rfl
    simp [heardTest, hb, hk, ha] at h
  · rintro rfl
    simp [heardTest, hb, hk, ha] at h

/-- The iteration that began with SIGTERM delivered has ended, and the container is stopped. -/
theorem attend_no_lost_stop_interrupted : ∃ t,
    run (attendStep ['w', 'e', 'b']) (attendInit noSignals true true) heardAtLast = some t ∧
      t.pc = .bottom true ∧ t.before = true ∧ t.alive = true ∧ t.killMode = 1 ∧
      Always (attendStep ['w', 'e', 'b']) NoLostStop (attendInit noSignals true true)
        heardAtLast := by
  have hrun : ∃ t, run (attendStep ['w', 'e', 'b']) (attendInit noSignals true true) heardAtLast =
      some t ∧ ((match t.pc with | .bottom go => go | _ => false) = true ∧ t.before = true ∧
        t.alive = true ∧ t.killMode = 1) := exists_run (by decide +kernel)
  obtain ⟨t, h, hpc, hbefore, halive, hmode⟩ := hrun
  have htest : checkMeets (attendStep ['w', 'e', 'b']) heardTest (attendInit noSignals true true)
      heardAtLast = true := by decide +kernel
  have hheard : Meets (attendStep ['w', 'e', 'b']) StopHeard (attendInit noSignals true true)
      heardAtLast := (meets_of_check htest).mono fun _ _ => stopHeard_of_test
  refine ⟨t, h, ?_, hbefore, halive, hmode, (attend_no_lost_stop h).2 hheard⟩
  split at hpc
  · rename_i heq
    rw [heq, hpc]
  · cases hpc

/-- The container is at the end of an iteration that began with a stop signal delivered. -/
def State.missed (s : State) : Bool :=
  (match s.pc with | .bottom _ => true | _ => false) && s.before && s.alive && s.killMode == 0

theorem State.missed_lost {s : State} (h : s.missed = true) : ¬ NoLostStop s := by
  simp only [State.missed, Bool.and_eq_true, beq_iff_eq] at h
  obtain ⟨⟨⟨hpc, hb⟩, ha⟩, hk⟩ := h
  split at hpc
  · exact fun hs => hs _ ‹_› hb ha hk
  · cases hpc

/-- SIGTERM arrives during the duty tasks of one iteration, and the next one times out
like any other. -/
theorem attend_loses_stop : ∃ t,
    run (attendStep ['w', 'e', 'b']) (attendInit noSignals true true)
      (toPoll ++ [Event.poll .timeout, .trap sigTerm, .probe true, .run, .poll .timeout,
        .probe true]) = some t ∧
      ¬ NoLostStop t := by
  have hrun : ∃ t, run (attendStep ['w', 'e', 'b']) (attendInit noSignals true true)
      (toPoll ++ [Event.poll .timeout, .trap sigTerm, .probe true, .run, .poll .timeout,
        .probe true]) = some t ∧ t.missed = true := exists_run (by decide +kernel)
  obtain ⟨t, h, hm⟩ := hrun
  exact ⟨t, h, State.missed_lost hm⟩

end Vzgot.Attend

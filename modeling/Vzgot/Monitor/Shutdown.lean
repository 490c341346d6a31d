import Vzgot.Library.Stdio
import Vzgot.Monitor.Mounts

/-!
# `SIGTERM` and the monitor

`handle_shutdown` (`lib/unimon.c`) clears `keep_running`, and `mon_monitoring` also stores
the results of its checks in that flag. `watchStep` takes the monitor apart at the places
where the signal can fall; a delivery behind the last instruction of a check is one inside
it. The signal is heeded in a run exactly when no check that ends behind it returns true
(`monitor_stops_iff`). Apart from that the monitor is the one of `step`, where a pass is
one event (`watch_refines_step`).
-/

set_option autoImplicit false

open Vzgot.Transition

namespace Vzgot.Monitor

open Vzgot.Stdio

/-! ## The monitor, place by place -/

/-- Answers of the system in `do_check_pids`: what is read from `LASTPID`, if anything,
and whether `DEVPID` is opened and completely written. -/
structure PidCalls where
  lastpid : Option (List Char)
  opened : Bool
  written : Bool

/-- `do_check_pids`, with `prv_val`. -/
def doCheckPids (r : PidCalls) (prv : List Char) : Bool × List Char :=
  match r.lastpid with
  | none => (false, prv)
  | some bytes =>
      let cur := cstr (bytes.take 15)
      if bytes = [] then (false, prv)
      else if cur = prv then (true, prv)
      else if r.opened = false then (false, prv)
      else (true, if r.written then cur else prv)

/-- What `poll` returns: `-1`, `0`, or the number of events. -/
inductive PollResult where
  | error
  | timeout
  | event
  deriving DecidableEq

/-- Place of the monitor: up to the end of the first check, at the opening of `mountinfo`,
at the test of `keep_running`, behind the test, in `poll`, behind `poll` up to the end of
the check, in the `lseek` and the `sleep`, and behind the loop. -/
inductive Place where
  | starting
  | opening
  | testing
  | ready
  | waiting
  | polled (ret : PollResult)
  | settling
  | ended
  deriving DecidableEq

/-- One event: `SIGTERM` is delivered, a check ends with what the system answered it,
`mountinfo` is opened or not, the flag is tested, `poll` is called, `poll` returns, the
flag is cleared after an error of `poll`, or the `sleep` ends. -/
inductive WatchEvent where
  | sigterm
  | mounts (p : Pass)
  | pids (r : PidCalls)
  | opened (ok : Bool)
  | test
  | poll
  | ret (r : PollResult)
  | clear
  | settled

/-- Variables of the monitor, with the reports of its passes. `delivered` is the place
where the signal fell, and `polls` the number of calls of `poll` started since. -/
structure Watch where
  place : Place
  keepRunning : Bool
  static : Static
  reports : List Report
  prvVal : List Char
  delivered : Option Place
  polls : Nat

/-- `mon_monitoring` has installed `handle_shutdown`. -/
def Watch.init : Watch := ⟨.starting, true, Static.zero, [], [], none, 0⟩

/-- `keep_running=do_check_mounts(specdevs)` -/
def Watch.checkMounts (s : Watch) (p : Pass) (next : Place) : Watch :=
  let t := doCheckMounts p s.static
  { s with place := next, keepRunning := t.2.isok, static := t.1, reports := t.2 :: s.reports }

/-- `keep_running=do_check_pids()` -/
def Watch.checkPids (s : Watch) (r : PidCalls) : Watch :=
  let t := doCheckPids r s.prvVal
  { s with place := .testing, keepRunning := t.1, prvVal := t.2 }

/-- `handle_shutdown`; a `poll` that is interrupted returns `-1`. -/
def Watch.handleShutdown (s : Watch) : Watch :=
  { s with
    place := if s.place = .waiting then .polled .error else s.place
    keepRunning := false
    delivered := some s.place }

/-- One step of the monitor; the signal is delivered once. -/
def watchStep (s : Watch) : WatchEvent → Option Watch
  | .sigterm =>
      if s.place = .ended ∨ s.delivered ≠ none then none else some s.handleShutdown
  | .mounts p =>
      if s.place = .starting then some (s.checkMounts p .opening)
      else if s.place = .polled .event then some (s.checkMounts p .settling)
      else none
  | .opened ok =>
      if s.place = .opening then some { s with place := if ok then .testing else .ended } else none
  | .test =>
      if s.place = .testing then
        some { s with place := if s.keepRunning then .ready else .ended }
      else none
  | .poll =>
      if s.place = .ready then
        some { s with
          place := .waiting
          polls := if s.delivered = none then s.polls else s.polls + 1 }
      else none
  | .ret r => if s.place = .waiting then some { s with place := .polled r } else none
  | .pids r => if s.place = .polled .timeout then some (s.checkPids r) else none
  | .clear =>
      if s.place = .polled .error then some { s with place := .testing, keepRunning := false }
      else none
  | .settled => if s.place = .settling then some { s with place := .testing } else none

/-- What a check that ends with the event returns. -/
def Watch.checked (s : Watch) : WatchEvent → Option Bool
  | .mounts p => some (doCheckMounts p s.static).2.isok
  | .pids r => some (doCheckPids r s.prvVal).1
  | _ => none

/-- Number of calls of `poll` that may start behind a delivery at the place: the one that
is about to start. -/
def Place.allowance (c : Place) : Nat := if c = .ready then 1 else 0

/-- Behind a delivery `keep_running` is false, and no `poll` has been started except the
one that was about to start. -/
def Watch.Stops (s : Watch) : Prop :=
  ∀ c, s.delivered = some c → s.keepRunning = false ∧ s.polls ≤ c.allowance

/-- No check that returns true ends behind the delivery. -/
def Heeded (s : Watch) (e : WatchEvent) : Prop := s.checked e = some true → s.delivered = none

instance (s : Watch) (e : WatchEvent) : Decidable (Heeded s e) :=
  inferInstanceAs (Decidable (_ → _))

/-! ## One step -/

/-- What a step does, with its guard. -/
inductive WatchMove (s : Watch) : WatchEvent → Watch → Prop where
  | sigterm : s.place ≠ .ended → s.delivered = none → WatchMove s .sigterm s.handleShutdown
  | first (p : Pass) : s.place = .starting → WatchMove s (.mounts p) (s.checkMounts p .opening)
  | mounted (p : Pass) : s.place = .polled .event →
      WatchMove s (.mounts p) (s.checkMounts p .settling)
  | pids (r : PidCalls) : s.place = .polled .timeout → WatchMove s (.pids r) (s.checkPids r)
  | opened (ok : Bool) : s.place = .opening →
      WatchMove s (.opened ok) { s with place := if ok then .testing else .ended }
  | test : s.place = .testing →
      WatchMove s .test { s with place := if s.keepRunning then .ready else .ended }
  | poll : s.place = .ready →
      WatchMove s .poll { s with
        place := .waiting
        polls := if s.delivered = none then s.polls else s.polls + 1 }
  | ret (r : PollResult) : s.place = .waiting → WatchMove s (.ret r) { s with place := .polled r }
  | clear : s.place = .polled .error →
      WatchMove s .clear { s with place := .testing, keepRunning := false }
  | settled : s.place = .settling → WatchMove s .settled { s with place := .testing }

theorem watchStep_move {s t : Watch} {e : WatchEvent} (h : watchStep s e = some t) :
    WatchMove s e t := by
  cases e <;> simp only [watchStep] at h
  case sigterm =>
    simp only [Option.ite_none_left_eq_some, not_or, not_not, Option.some.injEq] at h
    obtain ⟨⟨hended, hnone⟩, rfl⟩ := h
    exact .sigterm hended hnone
  case mounts p =>
    split at h
    · rename_i hplace
      cases h
      exact .first p hplace
    · obtain ⟨hplace, heq⟩ := Option.ite_none_right_eq_some.mp h
      cases heq
      exact .mounted p hplace
  all_goals
    obtain ⟨hplace, heq⟩ := Option.ite_none_right_eq_some.mp h
    cases heq
    constructor
    exact hplace

/-- Behind a delivery the flag is false, and only the `poll` that was about to start at
the delivery is still to come or has been started. -/
structure Stopping (s : Watch) : Prop where
  none_polls : s.delivered = none → s.polls = 0
  stops : s.Stops
  ready : ∀ c, s.delivered = some c → s.place = .ready → c = .ready ∧ s.polls = 0

theorem stopping_init : Stopping .init where
  none_polls _ := rfl
  stops _ h := nomatch h
  ready _ h := nomatch h

/-- A step that keeps the delivery and the polls, and is not in front of a `poll`. -/
theorem Stopping.move {s t : Watch} (hs : Stopping s) (hdelivered : t.delivered = s.delivered)
    (hpolls : t.polls = s.polls) (hplace : t.delivered ≠ none → t.place ≠ .ready)
    (hkeep : t.delivered ≠ none → t.keepRunning = false) : Stopping t where
  none_polls h := by rw [hpolls, hs.none_polls (hdelivered ▸ h)]
  stops c h := by
    refine ⟨hkeep (by simp [h]), ?_⟩
    rw [hpolls]
    exact (hs.stops c (hdelivered ▸ h)).2
  ready c h hready := absurd hready (hplace (by simp [h]))

/-- Behind a delivery the flag is false. -/
theorem Stopping.keepRunning {s : Watch} (hs : Stopping s) (h : s.delivered ≠ none) :
    s.keepRunning = false := by
  obtain ⟨c, hc⟩ := Option.ne_none_iff_exists'.mp h
  exact (hs.stops c hc).1

theorem Stopping.step {s t : Watch} {e : WatchEvent} (hs : Stopping s) (he : Heeded s e)
    (h : watchStep s e = some t) : Stopping t := by
  -- a check that ends behind the delivery has returned false
  have hfalse : ∀ b, s.checked e = some b → s.delivered ≠ none → b = false := by
    intro b hb hd
    cases b with
    | false => rfl
    | true => exact absurd (he hb) hd
  cases watchStep_move h with
  | sigterm hended hnone =>
      refine ⟨fun hsome => absurd hsome (Option.some_ne_none _), ?_, ?_⟩
      · rintro c -
        exact ⟨rfl, (hs.none_polls hnone).trans_le (Nat.zero_le _)⟩
      · rintro c hc hready
        obtain rfl : s.place = c := Option.some.inj hc
        refine ⟨?_, hs.none_polls hnone⟩
        simp only [Watch.handleShutdown] at hready
        split at hready
        · cases hready
        · exact hready
  | first p hplace => exact hs.move rfl rfl (fun _ hready => nomatch hready) (hfalse _ rfl)
  | mounted p hplace => exact hs.move rfl rfl (fun _ hready => nomatch hready) (hfalse _ rfl)
  | pids r hplace => exact hs.move rfl rfl (fun _ hready => nomatch hready) (hfalse _ rfl)
  | opened ok hplace =>
      exact hs.move rfl rfl (fun _ hready => by cases ok <;> cases hready) hs.keepRunning
  | test hplace =>
      refine hs.move rfl rfl (fun hd hready => ?_) hs.keepRunning
      rw [hs.keepRunning hd] at hready
      cases hready
  | poll hready =>
      refine ⟨fun hnone => ?_, fun c hc => ?_, fun c _ hready => nomatch hready⟩
      · change s.delivered = none at hnone
        simp only [if_pos hnone, hs.none_polls hnone]
      · -- the place in front of `poll` is the one where the signal fell
        change s.delivered = some c at hc
        obtain ⟨rfl, hzero⟩ := hs.ready c hc hready
        simp [hc, hzero, Place.allowance, (hs.stops _ hc).1]
  | ret r hplace => exact hs.move rfl rfl (fun _ hready => nomatch hready) hs.keepRunning
  | clear hplace => exact hs.move rfl rfl (fun _ hready => nomatch hready) fun _ => rfl
  | settled hplace => exact hs.move rfl rfl (fun _ hready => nomatch hready) hs.keepRunning

/-- A check that returns true behind the delivery sets the flag again. -/
theorem not_stops_of_not_heeded {s t : Watch} {e : WatchEvent} (he : ¬ Heeded s e)
    (h : watchStep s e = some t) : ¬ t.Stops := by
  simp only [Heeded, not_forall] at he
  obtain ⟨htrue, hd⟩ := he
  obtain ⟨c, hc⟩ := Option.ne_none_iff_exists'.mp hd
  suffices hset : t.keepRunning = true ∧ t.delivered = s.delivered by
    intro hstops
    have hfalse := (hstops c (hset.2.trans hc)).1
    rw [hset.1] at hfalse
    cases hfalse
  cases watchStep_move h with
  | first p => exact ⟨Option.some.inj htrue, rfl⟩
  | mounted p => exact ⟨Option.some.inj htrue, rfl⟩
  | pids r => exact ⟨Option.some.inj htrue, rfl⟩
  | sigterm => cases htrue
  | opened ok => cases htrue
  | test => cases htrue
  | poll => cases htrue
  | ret r => cases htrue
  | clear => cases htrue
  | settled => cases htrue

/-! ## Runs -/

/-- Along a run the delivery of `SIGTERM` clears `keep_running` for good, and starts no
`poll` except the one that was about to start, if and only if no check that ends behind
the delivery returns true. -/
theorem monitor_stops_iff {es : List WatchEvent} {t : Watch}
    (hrun : run watchStep Watch.init es = some t) :
    Always watchStep Watch.Stops Watch.init es ↔ Meets watchStep Heeded Watch.init es :=
  always_iff_meets (fun _ hs => hs.stops) (fun _ _ _ hs he h => hs.step he h)
    (fun _ _ _ he h => not_stops_of_not_heeded he h) stopping_init hrun

/-- A run with a signal while the monitor waits in `poll`. -/
def waitingRun : List WatchEvent :=
  [.mounts ⟨fun _ => some ⟨1, 1, false⟩, fun _ => none, fun _ => 0⟩, .opened true, .test, .poll,
    .sigterm, .clear, .test]

/-- The monitor ends there, without another `poll`. -/
theorem monitor_stops_waiting :
    ∃ t, run watchStep Watch.init waitingRun = some t ∧ t.place = .ended ∧
      Always watchStep Watch.Stops Watch.init waitingRun := by
  have hexists : ∃ t, run watchStep Watch.init waitingRun = some t ∧ t.place = .ended :=
    exists_run (by decide +kernel)
  have hcheck : checkMeets watchStep (fun s e => decide (Heeded s e)) Watch.init waitingRun = true := by
    decide +kernel
  obtain ⟨t, hrun, hended⟩ := hexists
  refine ⟨t, hrun, hended, (monitor_stops_iff hrun).mpr ?_⟩
  exact (meets_of_check hcheck).mono fun _ _ h => of_decide_eq_true h

/-- A signal in `do_check_pids`: the check returns true, and `poll` is called again. -/
theorem monitor_misses_sigterm :
    ∃ t, run watchStep Watch.init [.mounts ⟨fun _ => some ⟨2, 1, false⟩, fun _ => none, fun _ => 0⟩,
        .opened true, .test, .poll, .ret .timeout, .sigterm,
        .pids ⟨some ['7', '\n'], true, true⟩, .test, .poll] = some t ∧
      t.delivered = some (.polled .timeout) ∧ t.keepRunning = true ∧ t.polls = 1 :=
  exists_run (by decide +kernel)

/-! ## The monitor with passes as single events -/

/-- The phase of a place. -/
def Place.phase : Place → Phase
  | .starting => .starting
  | .opening => .opening
  | .ended => .ended
  | _ => .polling

/-- What `step` sees of the monitor. -/
def Watch.state (s : Watch) : State := ⟨s.place.phase, s.keepRunning, s.static, s.reports⟩

/-- No check ends behind the delivery. -/
def Undisturbed (s : Watch) (e : WatchEvent) : Prop := s.checked e ≠ none → s.delivered = none

/-- Between the test of the flag and the end of a check the flag is set, unless the signal
has cleared it. -/
def Watch.Running (s : Watch) : Prop :=
  (s.place = .ready ∨ s.place = .waiting ∨ ∃ r, s.place = .polled r) →
    s.delivered = none → s.keepRunning = true

theorem running_step {s t : Watch} {e : WatchEvent} (hs : s.Running)
    (h : watchStep s e = some t) : t.Running := by
  intro hplace hnone
  cases watchStep_move h with
  | sigterm => exact absurd hnone (Option.some_ne_none _)
  | first p => simp [Watch.checkMounts] at hplace
  | mounted p => simp [Watch.checkMounts] at hplace
  | pids r => simp [Watch.checkPids] at hplace
  | opened ok => cases ok <;> simp at hplace
  | test =>
      change s.keepRunning = true
      cases hkeep : s.keepRunning with
      | true => rfl
      | false => simp [hkeep] at hplace
  | poll hready => exact hs (.inl hready) hnone
  | ret r hwaiting => exact hs (.inr (.inl hwaiting)) hnone
  | clear => simp at hplace
  | settled => simp at hplace

/-- A step is one of `step`, or one that `step` does not see. -/
theorem watchStep_state {s t : Watch} {e : WatchEvent} (hs : s.Running) (he : Undisturbed s e)
    (h : watchStep s e = some t) :
    t.state = s.state ∨ ∃ f, step s.state f = some t.state := by
  -- a check behind `poll` finds the flag set
  have hset : ∀ r, s.place = .polled r → s.checked e ≠ none → s.keepRunning = true :=
    fun r hplace hchecked => hs (.inr (.inr ⟨r, hplace⟩)) (he hchecked)
  have hmove := watchStep_move h
  obtain ⟨place, keepRunning, static, reports, prvVal, delivered, polls⟩ := s
  cases hmove with
  | sigterm hended =>
      refine .inr ⟨.sigterm, ?_⟩
      cases place <;> first | rfl | exact absurd rfl hended
  | first p hplace =>
      cases hplace
      exact .inr ⟨.first p, rfl⟩
  | mounted p hplace =>
      cases hplace
      obtain rfl : keepRunning = true := hset _ rfl (Option.some_ne_none _)
      exact .inr ⟨.mounted p, rfl⟩
  | pids r hplace =>
      cases hplace
      obtain rfl : keepRunning = true := hset _ rfl (Option.some_ne_none _)
      exact .inr ⟨.timeout (doCheckPids r prvVal).1, rfl⟩
  | opened ok hplace =>
      cases hplace
      refine .inr ⟨.opened ok, ?_⟩
      cases ok <;> rfl
  | test hplace =>
      cases hplace
      cases keepRunning with
      | true => exact .inl rfl
      | false => exact .inr ⟨.leave, rfl⟩
  | poll hplace =>
      cases hplace
      exact .inl rfl
  | ret r hplace =>
      cases hplace
      exact .inl rfl
  | clear hplace =>
      cases hplace
      cases keepRunning with
      | true => exact .inr ⟨.pollError, rfl⟩
      | false => exact .inl rfl
  | settled hplace =>
      cases hplace
      exact .inl rfl

/-- A run in which no check ends behind the delivery is a run of `step`. -/
theorem watch_refines_step {es : List WatchEvent} {t : Watch}
    (hmeets : Meets watchStep Undisturbed Watch.init es)
    (hrun : run watchStep Watch.init es = some t) :
    Relation.ReflTransGen (fun a b => ∃ f, step a f = some b) State.init t.state := by
  refine meets_refines Watch.Running Watch.state (fun s e u hs _ h => running_step hs h) ?_
    (fun _ _ => rfl) hmeets hrun
  intro s e u hs he h
  rcases watchStep_state hs he h with heq | hstep
  · rw [heq]
  · exact .single hstep

end Vzgot.Monitor

import Vzgot.Command.Exec
import Vzgot.Library.Transition
import Vzgot.Signal.Checksig

/-!
# `cont_attend`

`cont_attend` (`app/vzgot.c`) waits for the end of a container process: it looks for the
monitoring process, opens the process, and polls. A timeout of the poll is either the
time for the duty tasks or, once the container is to be stopped, the next step from
SIGINT to SIGKILL; an interrupted poll looks at the signals and shuts the container
down. `attendStep` is one step of it, among them one access of `apl_checksig` or one
turn of `cont_shutdown`; a signal may arrive, and the container process may end, between
any two steps.

The counters of the signals are numbers here: one that comes back to zero would need
`2^32` handlers within one iteration. The last fields of `State` are not variables of the
code: they record which signals have arrived, and what was done to the process and to
`first.pid`.
-/

set_option autoImplicit false

namespace Vzgot.Attend

open Signal Command

/-- Next step of `cont_attend`. -/
inductive Pc where
  | search (turn : Nat)
  | searchCheck (turn : Nat) (check : CheckPc)
  | monitor (turn : Nat)
  | pidfd
  | purge (check : CheckPc)
  | poll
  | check (check : CheckPc)
  | decide
  | shutdown (s : Shutdown)
  | duty
  | bottom (attend : Bool)
  | waitpid
  | nozombie
  | remove
  | out
  | returned

/-- Result of `ppoll`. -/
inductive Poll where
  | interrupted (sig : Nat)
  | error
  | timeout
  | exited
  deriving DecidableEq

/-- Result of `waitpid`, with the exit code or the signal. -/
inductive Wait where
  | failed
  | exited (code : Nat)
  | signaled (sig : Nat)
  deriving DecidableEq

/-- A step of the code with the result of the operation it calls, a handler, or the end
of the container process. -/
inductive Event where
  | run
  | monitor (mpid : Nat)
  | pidfd (opened : Bool)
  | poll (result : Poll)
  | probe (alive : Bool)
  | shutdown (a : Answer)
  | wait (result : Wait)
  | removed (ok : Bool)
  | trap (sig : Nat)
  | ends

/-- `cont_attend` in progress. -/
structure State where
  pc : Pc
  status : Int
  sleepMs : Nat
  killMode : Nat
  mpid : Nat
  signals : Signals Nat
  alive : Bool
  pidFile : Bool
  seen : Bool
  before : Bool
  timeouts : Nat
  sigkilled : Bool
  removedAlive : Bool

/-- Signals that ask for the end of the container. -/
def stopSignal (sig : Nat) : Bool := sig = sigTerm ∨ sig = sigInt ∨ sig = sigHup

/-- A handler runs. -/
def State.trap (s : State) (sig : Nat) : State :=
  { s with signals := s.signals.trap sig, seen := s.seen || stopSignal sig }

/-- One access of `apl_checksig`, with the way on when it returns. -/
def State.checksig (s : State) (check : CheckPc) (again : CheckPc → Pc) (next : Pc) : State :=
  if check = .done then { s with pc := next }
  else
    let c := Check.step (⟨s.signals, check, 0⟩ : Check Nat)
    { s with signals := c.signals, pc := again c.pc }

/-- `cnt_rm_cont_pid`: a file is removed only where there is one. -/
def State.unlink (s : State) (ok : Bool) : Option State :=
  if ok then
    if s.pidFile then
      some { s with pidFile := false, removedAlive := s.removedAlive || s.alive }
    else none
  else some s

/-- A poll of the container process, in the mode of the loop. -/
def State.polled (s : State) : Poll → Option State
  | .interrupted sig => some { s.trap sig with pc := .check (.test 0) }
  | .error => some { s with pc := .bottom false }
  | .exited => if s.alive then none else some { s with pc := .bottom false }
  | .timeout =>
      let s := { s with timeouts := if s.killMode = 0 then 0 else s.timeouts + 1 }
      some <| match s.killMode with
        | 0 => { s with pc := .duty }
        -- SIGINT, and then SIGKILL
        | 1 => { s with killMode := 2, pc := .bottom true }
        | 2 => { s with killMode := 3, sigkilled := true, pc := .bottom false }
        | _ => { s with pc := .bottom false }

/-- A request for termination is one for a halt. -/
def halting (f : Flags) : Flags := if f.sigterm then { f with sigint := true } else f

/-- The tests of the EINTR branch. -/
def State.decides (s : State) : State :=
  let s := { s with signals.flags := halting s.signals.flags }
  -- whatever the kill mode was
  if s.signals.flags.sigint ∨ s.signals.flags.sighup then
    { s with killMode := 1, pc := .shutdown shutdownInit }
  else { s with pc := .bottom true }

/-- One turn of `cont_shutdown`. -/
def State.shuts (name : List Char) (s : State) (sd : Shutdown) (a : Answer) : Option State :=
  (shutdownStep name sd a).bind fun r =>
    match a with
    | .removed ok => { s with pc := .shutdown r.1 }.unlink ok
    | _ => some { s with pc := .shutdown r.1 }

/-- Status behind `waitpid`. -/
def State.waited (s : State) : Wait → Option State
  | .failed => some { s with pc := .nozombie }
  | .exited code => if s.alive then none else some { s with status := 256 * code, pc := .nozombie }
  | .signaled sig => if s.alive then none else some { s with status := sig, pc := .nozombie }

/-- A step of the code. -/
def attendRun (name : List Char) (s : State) (e : Event) : Option State :=
  match s.pc, e with
  | .search turn, .run => some { s with pc := .searchCheck turn (.test 0) }
  | .searchCheck turn check, .run => some (s.checksig check (.searchCheck turn) (.monitor turn))
  | .monitor turn, .monitor mpid =>
      some { s with
        mpid := mpid
        pc := if mpid ≠ 0 then .pidfd else if turn + 1 < 5 then .search (turn + 1) else .out }
  | .pidfd, .pidfd opened => some { s with pc := if opened then .purge (.test 0) else .out }
  | .purge check, .run => some { s.checksig check .purge .poll with before := s.seen }
  | .poll, .poll result => s.polled result
  | .check check, .run => some (s.checksig check .check .decide)
  | .decide, .run => some s.decides
  | .shutdown sd, .shutdown a => s.shuts name sd a
  | .shutdown sd, .run =>
      if sd.proceed then none else some { s with sleepMs := 10000, pc := .bottom true }
  | .duty, .probe alive =>
      -- without its monitoring process the container is to be stopped
      some (if alive then { s with pc := .bottom true }
        else { s with sleepMs := 1000, killMode := s.killMode + 1, pc := .bottom true })
  | .bottom true, .run => some { s with pc := .poll, before := s.seen }
  | .bottom false, .run => some { s with pc := .waitpid }
  | .waitpid, .wait result => if s.killMode < 3 then s.waited result else none
  | .waitpid, .run => if s.killMode < 3 then none else some { s with pc := .nozombie }
  | .nozombie, .run => some { s with pc := .remove }
  | .remove, .removed ok => { s with pc := .out }.unlink ok
  | .out, .run =>
      -- a request for a reboot is the status 1
      some { s with status := if s.signals.flags.sighup then 1 else s.status, pc := .returned }
  | _, _ => none

/-- One step of the code, of a handler, or of the container process. -/
def attendStep (name : List Char) (s : State) : Event → Option State
  | .trap sig => some (s.trap sig)
  | .ends => if s.alive then some { s with alive := false } else none
  | e => attendRun name s e

/-- A stop signal is counted or has raised its flag. -/
def marked (s : Signals Nat) : Bool :=
  s.flags.sigterm || s.flags.sigint || s.flags.sighup ||
    0 < s.counts sigTerm || 0 < s.counts sigInt || 0 < s.counts sigHup

/-- `cont_attend` is called. -/
def attendInit (signals : Signals Nat) (alive pidFile : Bool) : State where
  pc := .search 0
  status := 0
  sleepMs := 5000
  killMode := 0
  mpid := 0
  signals := signals
  alive := alive
  pidFile := pidFile
  seen := marked signals
  before := marked signals
  timeouts := 0
  sigkilled := false
  removedAlive := false

section Operations

variable {name : List Char} {s t : State}

/-- An access of `apl_checksig` changes the signals and goes on with the call, or behind
it. -/
theorem State.checksig_eq (s : State) (check : CheckPc) (again : CheckPc → Pc) (next : Pc) :
    ∃ signals pc, (pc = next ∨ ∃ c, pc = again c) ∧
      s.checksig check again next = { s with signals := signals, pc := pc } := by
  unfold State.checksig
  split
  · exact ⟨s.signals, next, .inl rfl, rfl⟩
  · exact ⟨_, _, .inr ⟨_, rfl⟩, rfl⟩

theorem checksig_pc (s : State) (check : CheckPc) (again : CheckPc → Pc) (next : Pc) :
    (s.checksig check again next).pc = next ∨ ∃ c, (s.checksig check again next).pc = again c := by
  obtain ⟨_, _, hpc, heq⟩ := s.checksig_eq check again next
  rw [heq]
  exact hpc

theorem checksig_before {check : CheckPc} {again : CheckPc → Pc} {next : Pc} :
    { s.checksig check again next with before := s.before } = s.checksig check again next := by
  obtain ⟨_, _, -, heq⟩ := s.checksig_eq check again next
  rw [heq]

/-- `cnt_rm_cont_pid` fails and does nothing, or removes a file that is there. -/
theorem State.unlink_eq {ok : Bool} (h : s.unlink ok = some t) :
    (ok = false ∧ t = s) ∨
      (ok = true ∧ t = { s with
        pidFile := false
        removedAlive := s.removedAlive || s.alive }) := by
  cases ok with
  | false => exact .inl ⟨rfl, (Option.some.inj h).symm⟩
  | true =>
      simp only [State.unlink, if_true, Option.ite_none_right_eq_some, Option.some.injEq] at h
      exact .inr ⟨rfl, h.2.symm⟩

/-- `waitpid` fails, or gives the status of a container that has ended. -/
theorem State.waited_eq {r : Wait} (h : s.waited r = some t) :
    (r = .failed ∨ s.alive = false) ∧
      ∃ status, t = { s with status := status, pc := .nozombie } := by
  cases r with
  | failed =>
      cases h
      exact ⟨.inl rfl, s.status, rfl⟩
  | exited code =>
      simp only [State.waited, Option.ite_none_left_eq_some, Option.some.injEq] at h
      obtain ⟨hdead, rfl⟩ := h
      exact ⟨.inr (Bool.eq_false_iff.2 hdead), _, rfl⟩
  | signaled sig =>
      simp only [State.waited, Option.ite_none_left_eq_some, Option.some.injEq] at h
      obtain ⟨hdead, rfl⟩ := h
      exact ⟨.inr (Bool.eq_false_iff.2 hdead), _, rfl⟩

theorem attendStep_ends (h : attendStep name s .ends = some t) : t = { s with alive := false } := by
  simp only [attendStep, Option.ite_none_right_eq_some, Option.some.injEq] at h
  exact h.2.symm

/-- The branches of `attendRun`, by the place where the code stands. -/
inductive Move (name : List Char) (s : State) : Event → State → Prop where
  | search (turn : Nat) (hpc : s.pc = .search turn) :
      Move name s .run { s with pc := .searchCheck turn (.test 0) }
  | searchCheck (turn : Nat) (check : CheckPc) (hpc : s.pc = .searchCheck turn check) :
      Move name s .run (s.checksig check (.searchCheck turn) (.monitor turn))
  | monitor (turn mpid : Nat) (hpc : s.pc = .monitor turn) :
      Move name s (.monitor mpid) { s with
        mpid := mpid
        pc := if mpid ≠ 0 then .pidfd else if turn + 1 < 5 then .search (turn + 1) else .out }
  | pidfd (opened : Bool) (hpc : s.pc = .pidfd) :
      Move name s (.pidfd opened) { s with pc := if opened then .purge (.test 0) else .out }
  | purge (check : CheckPc) (hpc : s.pc = .purge check) :
      Move name s .run { s.checksig check .purge .poll with before := s.seen }
  | poll (result : Poll) (t : State) (hpc : s.pc = .poll) (h : s.polled result = some t) :
      Move name s (.poll result) t
  | check (check : CheckPc) (hpc : s.pc = .check check) :
      Move name s .run (s.checksig check .check .decide)
  | decide (hpc : s.pc = .decide) : Move name s .run s.decides
  | shutdown (sd : Shutdown) (a : Answer) (t : State) (hpc : s.pc = .shutdown sd)
      (h : s.shuts name sd a = some t) : Move name s (.shutdown a) t
  | stopped (sd : Shutdown) (hpc : s.pc = .shutdown sd) :
      Move name s .run { s with sleepMs := 10000, pc := .bottom true }
  | probe (alive : Bool) (hpc : s.pc = .duty) :
      Move name s (.probe alive) (if alive then { s with pc := .bottom true }
        else { s with sleepMs := 1000, killMode := s.killMode + 1, pc := .bottom true })
  | again (hpc : s.pc = .bottom true) :
      Move name s .run { s with pc := .poll, before := s.seen }
  | leave (hpc : s.pc = .bottom false) : Move name s .run { s with pc := .waitpid }
  | wait (result : Wait) (t : State) (hpc : s.pc = .waitpid) (h : s.waited result = some t) :
      Move name s (.wait result) t
  | abandon (hpc : s.pc = .waitpid) : Move name s .run { s with pc := .nozombie }
  | nozombie (hpc : s.pc = .nozombie) : Move name s .run { s with pc := .remove }
  | remove (ok : Bool) (t : State) (hpc : s.pc = .remove)
      (h : { s with pc := .out }.unlink ok = some t) : Move name s (.removed ok) t
  | out (hpc : s.pc = .out) :
      Move name s .run { s with
        status := if s.signals.flags.sighup then 1 else s.status
        pc := .returned }

theorem attendRun_move {e : Event} (h : attendRun name s e = some t) : Move name s e t := by
  unfold attendRun at h
  -- the branches are the phases in the order of the source
  split at h <;> rename_i hpc
  case h_1 =>
    cases h
    exact .search _ hpc
  case h_2 =>
    cases h
    exact .searchCheck _ _ hpc
  case h_3 =>
    cases h
    exact .monitor _ _ hpc
  case h_4 =>
    cases h
    exact .pidfd _ hpc
  case h_5 =>
    cases h
    exact .purge _ hpc
  case h_6 => exact .poll _ _ hpc h
  case h_7 =>
    cases h
    exact .check _ hpc
  case h_8 =>
    cases h
    exact .decide hpc
  case h_9 => exact .shutdown _ _ _ hpc h
  case h_10 =>
    obtain ⟨-, rfl⟩ := by simpa only [Option.ite_none_left_eq_some, Option.some.injEq] using h
    exact .stopped _ hpc
  case h_11 =>
    cases h
    exact .probe _ hpc
  case h_12 =>
    cases h
    exact .again hpc
  case h_13 =>
    cases h
    exact .leave hpc
  case h_14 =>
    obtain ⟨-, h⟩ := by simpa only [Option.ite_none_right_eq_some] using h
    exact .wait _ _ hpc h
  case h_15 =>
    obtain ⟨-, rfl⟩ := by simpa only [Option.ite_none_left_eq_some, Option.some.injEq] using h
    exact .abandon hpc
  case h_16 =>
    cases h
    exact .nozombie hpc
  case h_17 => exact .remove _ _ hpc h
  case h_18 =>
    cases h
    exact .out hpc
  case h_19 => cases h

end Operations

end Vzgot.Attend

/-!
# `vzexec` and `cont_shutdown`

Both functions of `app/vzgot.c` are loops over a phase number. `execStep` and
`shutdownStep` are one turn of each, given the result of the operation that the turn
calls. Phase 2 of `cont_shutdown` calls `vzexec`, whose turns are then its turns; phase
4 is a loop of its own, with one turn for each count of the remaining processes.
-/

set_option autoImplicit false

namespace Vzgot.Command

/-- Result of the operation called in one turn. `inject` is the status of `system`, or
nothing when there is no memory for the command; `remaining` is the number that `ps`
prints, or nothing when it prints none. -/
inductive Answer where
  | config (loaded : Bool)
  | pid (pid : Int)
  | inject (status : Option Int)
  | removed (ok : Bool)
  | noPipe
  | remaining (n : Option Int)
  | none

/-- What a turn does to processes and to `first.pid`. -/
inductive Op where
  | inject (pid : Int)
  | removePid (ok : Bool)
  | kill (pid : Int)
  deriving DecidableEq

/-- Variables of `vzexec`. -/
structure Exec where
  phase : Nat
  proceed : Bool
  status : Int
  cntpid : Int

/-- `vzexec` is called. -/
def execInit : Exec := ⟨0, true, 0, -1⟩

/-- `cnt_injectcmd`: without memory for the command nothing is run and the status is 0. -/
def cntInjectcmd : Option Int → Int
  | some status => status
  | .none => 0

/-- One turn of `vzexec` for the container `name`. -/
def execStep (name : List Char) (s : Exec) (a : Answer) : Option (Exec × List Op) :=
  if s.proceed then
    match s.phase, a with
    | 0, .none =>
        -- only a missing name gives a status here
        some (if name = [] then { s with status := 1, proceed := false, phase := 1 }
          else { s with phase := 1 }, [])
    -- the status stays 0 without a configuration or a number
    | 1, .config loaded => some ({ s with proceed := loaded, phase := 2 }, [])
    | 2, .pid pid => some ({ s with cntpid := pid, phase := if pid = 0 then 1000 else 3 }, [])
    | 3, .inject status =>
        some (if cntInjectcmd status = 0 then { s with status := 0, phase := 4 }
            else { s with status := 2, phase := 1000 },
          if status = .none then [] else [.inject s.cntpid])
    | _ + 4, .none => some ({ s with proceed := false, phase := s.phase + 1 }, [])
    | _, _ => .none
  else .none

/-- Variables of `cont_shutdown`, with its call of `vzexec` and the turn of phase 4. -/
structure Shutdown where
  phase : Nat
  proceed : Bool
  status : Int
  cntpid : Int
  exec : Exec
  turn : Nat

/-- `cont_shutdown` is called. -/
def shutdownInit : Shutdown := ⟨0, true, 1, 0, execInit, 0⟩

/-- Number that `cont_shutdown` compares with 2. -/
def remaining : Option Int → Int
  | some n => n
  | .none => 0

/-- Phase 2 behind `vzexec`. -/
def afterExec (s : Shutdown) (a : Answer) : Option (Shutdown × List Op) :=
  match a with
  | .none =>
      if s.exec.status = 0 then some ({ s with status := 0, phase := 3 }, []) else .none
  | .removed ok =>
      if s.exec.status = 0 then .none
      else some ({ s with status := s.exec.status, phase := 1000 }, [.removePid ok])
  | _ => .none

/-- One turn of `cont_shutdown` for the container `name`. -/
def shutdownStep (name : List Char) (s : Shutdown) (a : Answer) : Option (Shutdown × List Op) :=
  if s.proceed then
    match s.phase, a with
    | 0, .config loaded => some ({ s with proceed := loaded, phase := 1 }, [])
    | 1, .pid pid =>
        some ({ s with cntpid := pid, phase := if pid = 0 then 1000 else 2, exec := execInit }, [])
    | 2, a =>
        if s.exec.proceed then
          (execStep name s.exec a).map fun r => ({ s with exec := r.1 }, r.2)
        else afterExec s a
    | 3, .none =>
        -- phase 4 does nothing for process 1
        some ({ s with phase := if s.cntpid = 1 then 5 else 4, turn := 0 }, [])
    | 4, .noPipe => if s.turn < 15 then some ({ s with turn := 15 }, []) else .none
    | 4, .remaining n =>
        if s.turn < 15 then
          -- the heading alone is one line
          some (if remaining n < 2 then { s with status := 0, turn := 15 }
            else { s with turn := s.turn + 1 }, [])
        else .none
    | 4, .none =>
        -- the process read in phase 1 is killed, whatever was counted
        if 15 ≤ s.turn then some ({ s with phase := 5 }, [.kill s.cntpid]) else .none
    | _ + 5, .none => some ({ s with proceed := false, phase := s.phase + 1 }, [])
    | _, _ => .none
  else .none

end Vzgot.Command

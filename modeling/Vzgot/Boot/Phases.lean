import Vzgot.Library.Transition

/-!
# The phases of `boot`

`boot` (`app/vzgot.c`) is the supervisor of a container: a loop over a phase number
with an error exit `TOOBAD` before phase 16 and an entry `REBOOT` before phase 2.
`bootPhase` is the body of one phase. It takes the results of the operations that
the phase calls (`BootAnswer`) and gives the new values of the variables, the
operations executed, and the jump taken. `bootStep` is one turn of the loop, and
`ops` is the history of the run, newest operation first, each with the number of
the boot attempt it belongs to.
-/

set_option autoImplicit false

namespace Vzgot.Boot

/-- `CGRENU`, the directories below the cgroup root. -/
inductive Cgroup where
  | top
  | vzgot
  | supervisors
  | containers
  deriving DecidableEq

/-- `sys_get_sysfs`. -/
def sysGetSysfs : Cgroup → List Char
  | .top => "/sys/fs/cgroup/".toList
  | .vzgot => "/sys/fs/cgroup/vzgot".toList
  | .supervisors => "/sys/fs/cgroup/vzgot/supervisors".toList
  | .containers => "/sys/fs/cgroup/vzgot/containers".toList

/-- Path that `sys_clean_all_cgroup` hands to `cgroup_clean_recursive`. -/
def cleanPath (ext : Cgroup) (contname : List Char) : List Char :=
  sysGetSysfs ext ++ '/' :: contname

/-- `cont->contname`, an array of 120 bytes filled by `snprintf`. -/
def contname (name : List Char) : List Char := name.take 119

/-! ## Operations and their results -/

/-- The scripts that `boot` runs. -/
inductive Script where
  | vzboot
  | vzethup
  | vzethdown
  deriving DecidableEq

/-- Fate of a script started by `cnt_initscript`: no memory for the command, no pipe,
no status from `pclose`, or the status that `pclose` gives. -/
inductive ScriptRun where
  | noMemory
  | noPipe
  | noStatus
  | exited (status : Nat)
  deriving DecidableEq

/-- `cnt_initscript`: the status that `pclose` gives is not looked at. -/
def cntInitscript : ScriptRun → Bool
  | .exited _ => true
  | _ => false

/-- Writing a process number into a `cgroup.procs` file. -/
inductive CgroupMove where
  | noFile
  | notClosed
  | moved
  deriving DecidableEq

/-- `sys_move_to_cgroup`. -/
def sysMoveToCgroup : CgroupMove → Bool
  | .moved => true
  | _ => false

/-- Writing one of the files `uid_map`, `setgroups` and `gid_map`. -/
inductive MapWrite where
  | noFile
  | notWritten
  | written
  deriving DecidableEq

/-- Loop of phase 2 of `cnt_mapcontids`: is `phase` still 2 behind it? -/
def mapcontids : List MapWrite → Bool
  | [] => true
  | .noFile :: _ => false
  | .notWritten :: _ => false
  | .written :: rest => mapcontids rest

/-- `cnt_mapcontids`. -/
def cntMapcontids (uidMap setgroups gidMap : MapWrite) : Bool :=
  mapcontids [uidMap, setgroups, gidMap]

/-- Writing `first.pid`. -/
inductive PidWrite where
  | noFile
  | notWritten
  | written
  deriving DecidableEq

/-- `cnt_set_cont_pid`. -/
def cntSetContPid : PidWrite → Bool
  | .written => true
  | _ => false

/-- Phase 4: `posix_openpt`, `grantpt` and `unlockpt`, with the master descriptor. -/
inductive PtyOpen where
  | noPty
  | notGranted (fd : Nat)
  | notUnlocked (fd : Nat)
  | ready (fd : Nat)

/-- `track_console`: opening the console log, mounting the slave over the console,
opening the slave, and forking the logger. -/
inductive Console where
  | noLog
  | notMounted
  | noSlave
  | noLogger (slave : Nat)
  | tracked (slave logger : Nat)

/-- Results of the operations called in one phase. -/
inductive BootAnswer where
  | config (loaded : Bool)
  | lock (granted : Bool)
  | script (fate : ScriptRun)
  | pipe (fds : Option (Nat × Nat))
  | pty (fate : PtyOpen)
  | setCgroup (ok : Bool)
  | setSupDevices (ok : Bool)
  | console (fate : Console)
  | clone (pid : Option Nat)
  | record (pidfile : PidWrite) (start : Bool)
  | confine (move : CgroupMove) (uidMap setgroups gidMap : MapWrite)
  | clearance (sent : Bool)
  | attend (status : Int)
  | unsetRootfs (ok : Bool)
  | cleaned (top : CgroupMove) (containers supervisors : Bool)
  | unsetSupDevices (ok : Bool)
  | unlock (mkdir unlink : Bool)
  | none

/-- An operation executed by `boot`, with its result where it has one, or a jump
taken. -/
inductive BootOp where
  | lock (granted : Bool)
  | script (name : Script) (fate : ScriptRun)
  | opened (fd : Int)
  | close (fd : Int)
  | setCgroup (ok : Bool)
  | setSupDevices (ok : Bool)
  | trackConsole (ok : Bool)
  | clone (pid : Option Nat)
  | setContPid (ok : Bool)
  | setStart (ok : Bool)
  | moveToCgroup (ext : Cgroup) (ok : Bool)
  | mapcontids (ok : Bool)
  | clearance (sent : Bool)
  | attend (status : Int)
  | unsetRootfs (ok : Bool)
  | cleanCgroup (path : List Char)
  | unsetSupDevices (ok : Bool)
  | unlock (removed : Bool)
  | tooBad (phase : Nat)
  | reboot
  deriving DecidableEq

/-! ## The loop -/

/-- Variables of `boot` and fields of its `CONTYP`. -/
structure BootVars where
  status : Int
  slaveFd : Int
  ptyMasterFd : Int
  syncPipe0 : Int
  syncPipe1 : Int
  loggerPid : Int
  childPid : Int
  deriving DecidableEq

/-- How a turn of the loop ends: `phase++`, `goto TOOBAD`, `goto REBOOT`, `phase=999`,
or `proceed=false`. -/
inductive Jump where
  | next
  | tooBad
  | reboot
  | skip
  | stop
  deriving DecidableEq

/-- Phase executed after the jump. -/
def Jump.target (phase : Nat) : Jump → Nat
  | .next | .stop => phase + 1
  | .tooBad => 16
  | .reboot => 2
  | .skip => 1000

/-- Effect of one phase. -/
structure Work where
  vars : BootVars
  ops : List BootOp
  jump : Jump

/-- The phase did its work. -/
def Work.done (v : BootVars) (ops : List BootOp) : Work := ⟨v, ops, .next⟩

/-- The phase failed after the operations `ops` and jumps to `TOOBAD`. -/
def Work.bad (phase : Nat) (v : BootVars) (ops : List BootOp) : Work :=
  ⟨v, .tooBad phase :: ops, .tooBad⟩

/-- A phase whose operation `op` either succeeds or leads to `TOOBAD`. -/
def Work.check (phase : Nat) (v : BootVars) (op : BootOp) (ok : Bool) : Work :=
  if ok then .done v [op] else .bad phase v [op]

/-- Closing of `sync_pipe` in phase 16: both turns of the loop test their own
descriptor and close `sync_pipe[1]`. -/
def closeSyncPipe (v : BootVars) : BootVars × List BootOp :=
  let turn (cond : Int) (v : BootVars) (ops : List BootOp) : BootVars × List BootOp :=
    if 0 ≤ cond then ({ v with syncPipe1 := -1 }, .close v.syncPipe1 :: ops) else (v, ops)
  let first := turn v.syncPipe0 v []
  turn first.1.syncPipe1 first.1 first.2

/-- Body of one phase of `boot` for the container `name`. -/
def bootPhase (name : List Char) (phase : Nat) (v : BootVars) (a : BootAnswer) : Option Work :=
  match phase, a with
  | 0, .config loaded => some (if loaded then .done v [] else .bad 0 v [])
  | 1, .lock granted =>
      -- `status=phase`, and nothing is cleaned up
      some (if granted then .done v [.lock true] else ⟨{ v with status := 1 }, [.lock false], .stop⟩)
  | 2, .script fate => some (.check 2 v (.script .vzboot fate) (cntInitscript fate))
  -- a `pipe` that fails leaves the descriptors alone
  | 3, .pipe none => some (.bad 3 v [])
  | 3, .pipe (some (r, w)) =>
      some (.done { v with syncPipe0 := r, syncPipe1 := w } [.opened w, .opened r])
  | 4, .pty .noPty => some (.bad 4 { v with ptyMasterFd := -1 } [])
  | 4, .pty (.notGranted fd) => some (.bad 4 { v with ptyMasterFd := fd } [.opened fd])
  | 4, .pty (.notUnlocked fd) => some (.bad 4 { v with ptyMasterFd := fd } [.opened fd])
  | 4, .pty (.ready fd) => some (.done { v with ptyMasterFd := fd } [.opened fd])
  | 5, .setCgroup ok => some (.check 5 v (.setCgroup ok) ok)
  | 6, .setSupDevices ok => some (.check 6 v (.setSupDevices ok) ok)
  | 7, .console .noLog => some (.bad 7 v [.trackConsole false])
  | 7, .console .notMounted => some (.bad 7 v [.trackConsole false])
  | 7, .console .noSlave => some (.bad 7 { v with slaveFd := -1 } [.trackConsole false])
  | 7, .console (.noLogger slave) =>
      some (.bad 7 { v with slaveFd := slave, loggerPid := -1 }
        [.trackConsole false, .opened slave])
  | 7, .console (.tracked slave logger) =>
      some (.done { v with slaveFd := slave, loggerPid := logger }
        [.trackConsole true, .opened slave])
  | 8, .clone none => some (.bad 8 { v with childPid := -1 } [.clone none])
  | 8, .clone (some pid) =>
      -- the supervisor keeps the end of the pipe for writing only
      some (.done { v with childPid := pid } [.close v.syncPipe0, .clone (some pid)])
  | 9, .record pidfile start =>
      if cntSetContPid pidfile then
        some (if start then .done v [.setStart true, .setContPid true]
          else .bad 9 v [.setStart false, .setContPid true])
      else some (.bad 9 v [.setContPid false])
  | 10, .confine move uidMap setgroups gidMap =>
      -- both results are dropped
      some (.done v [.mapcontids (cntMapcontids uidMap setgroups gidMap),
        .moveToCgroup .containers (sysMoveToCgroup move)])
  | 11, .script fate => some (.check 11 v (.script .vzethup fate) (cntInitscript fate))
  | 12, .clearance sent => some (.done v [.close v.syncPipe1, .clearance sent])
  | 13, .attend status => some (.done { v with status := status } [.attend status])
  | 14, .script fate => some (.check 14 v (.script .vzethdown fate) (cntInitscript fate))
  | 15, .unsetRootfs ok => some (.done v [.unsetRootfs ok])
  | 16, .none =>
      let closed := closeSyncPipe v
      some (.done closed.1 (closed.2 ++ [BootOp.close v.ptyMasterFd, .close v.slaveFd]))
  | 17, .cleaned top _ _ =>
      -- the three results are dropped
      some (.done v [.cleanCgroup (cleanPath .supervisors (contname name)),
        .cleanCgroup (cleanPath .containers (contname name)),
        .moveToCgroup .top (sysMoveToCgroup top)])
  | 18, .unsetSupDevices ok =>
      -- `phase=999`, from which no later phase is reached
      some ⟨v, [.unsetSupDevices ok], if ok then .next else .skip⟩
  | 19, .none =>
      -- 1 asks for a reboot, 2 is a poweroff
      some (if v.status = 1 then ⟨v, [.reboot], .reboot⟩
        else if v.status = 2 then .done { v with status := 0 } []
        else .done v [])
  | 20, .unlock mkdir unlink => some (.done v [.unlock (mkdir && unlink)])
  | 21, .none => some (.done v [])
  -- the safe guard
  | _ + 22, .none => some ⟨v, [], .stop⟩
  | _, _ => none

/-- State of the loop, with the number of the boot attempt and the history. -/
structure BootState where
  vars : BootVars
  phase : Nat
  proceed : Bool
  attempt : Nat
  ops : List (Nat × BootOp)

/-- State behind a phase. -/
def BootState.after (s : BootState) (w : Work) : BootState where
  vars := w.vars
  phase := w.jump.target s.phase
  proceed := w.jump ≠ .stop
  attempt := if w.jump = .reboot then s.attempt + 1 else s.attempt
  ops := w.ops.map (fun op => (s.attempt, op)) ++ s.ops

/-- One turn of the loop of `boot`. -/
def bootStep (name : List Char) (s : BootState) (a : BootAnswer) : Option BootState :=
  if s.proceed then (bootPhase name s.phase s.vars a).map s.after else none

/-- State before the loop. The descriptors of `CONTYP` are zero as `calloc` leaves
them. -/
def bootInit : BootState where
  vars := {
    status := 0
    slaveFd := 0
    ptyMasterFd := -1
    syncPipe0 := 0
    syncPipe1 := 0
    loggerPid := 0
    childPid := 0 }
  phase := 0
  proceed := true
  attempt := 0
  ops := []

/-- `boot` has returned. -/
def BootState.returned (s : BootState) : Prop := s.proceed = false

instance (s : BootState) : Decidable s.returned := inferInstanceAs (Decidable (_ = _))

theorem bootStep_eq_some {name : List Char} {s t : BootState} {a : BootAnswer} :
    bootStep name s a = some t ↔
      s.proceed = true ∧ ∃ w, bootPhase name s.phase s.vars a = some w ∧ s.after w = t := by
  simp only [bootStep, Option.ite_none_right_eq_some, Option.map_eq_some_iff]

@[simp] theorem after_phase (s : BootState) (w : Work) :
    (s.after w).phase = w.jump.target s.phase := rfl
@[simp] theorem after_vars (s : BootState) (w : Work) : (s.after w).vars = w.vars := rfl
@[simp] theorem after_ops (s : BootState) (w : Work) :
    (s.after w).ops = w.ops.map (fun op => (s.attempt, op)) ++ s.ops := rfl
@[simp] theorem after_attempt (s : BootState) (w : Work) :
    (s.after w).attempt = if w.jump = .reboot then s.attempt + 1 else s.attempt := rfl
@[simp] theorem after_returned (s : BootState) (w : Work) :
    (s.after w).returned ↔ w.jump = .stop := by
  simp [BootState.returned, BootState.after]

end Vzgot.Boot

import Mathlib.Logic.Function.Basic
import Vzgot.Library.Transition

/-!
# The monitor of a container

`mon_monitoring` (`lib/unimon.c`) runs in the container and checks after every mount
event that the special files of `/proc` are bound (`do_check_mounts`). Every check that
says that a file had to be bound asks `check_binding` for a credit; without one the
monitor stops. `Pass` is what the system answers during one pass over the files, and
`Report` what the pass did.
-/

set_option autoImplicit false

namespace Vzgot.Monitor

/-! ## The special files -/

/-- `DEVENUM` -/
inductive DevEnum where
  | cpuinfo
  | lastpid
  | loadavg
  | meminfo
  | swaps
  | acpi
  | bus
  | interrupts
  | ioports
  | kcore
  | mdstat
  | modules
  | partitions
  | trigger
  | unknown
  deriving DecidableEq

/-- Number of the constant. -/
def DevEnum.ndx : DevEnum → Nat
  | .cpuinfo => 0
  | .lastpid => 1
  | .loadavg => 2
  | .meminfo => 3
  | .swaps => 4
  | .acpi => 5
  | .bus => 6
  | .interrupts => 7
  | .ioports => 8
  | .kcore => 9
  | .mdstat => 10
  | .modules => 11
  | .partitions => 12
  | .trigger => 13
  | .unknown => 14

/-- `apl_get_specdevs`, up to the closing entry. -/
def specdevs : List (List Char × DevEnum) :=
  [("cpuinfo".toList, DevEnum.cpuinfo),
    ("lastpid".toList, .lastpid),
    ("loadavg".toList, .loadavg),
    ("meminfo".toList, .meminfo),
    ("swaps".toList, .swaps),
    ("acpi".toList, .acpi),
    ("bus".toList, .bus),
    ("interrupts".toList, .interrupts),
    ("ioports".toList, .ioports),
    ("kcore".toList, .kcore),
    ("mdstat".toList, .mdstat),
    ("modules".toList, .modules),
    ("partitions".toList, .partitions),
    ("sysrq-trigger".toList, .trigger)]

/-- `specdevs[ndx].str` -/
def devName (ndx : Nat) : List Char := (specdevs[ndx]?.map Prod.fst).getD []

/-! ## Checking one file -/

/-- Fields of `stat` that are compared. -/
structure Stat where
  dev : Nat
  ino : Nat
  dir : Bool

/-- Answers of the system during one pass: `stat`, whether `statfs` finds a tmpfs, and the
time at which the credit for each file is asked. Whether a mount succeeds does not matter. -/
structure Pass where
  stat : List Char → Option Stat
  tmpfs : List Char → Option Bool
  time : Nat → Int

/-- Result of `sys_check_remount`: whether it reports that a mount was needed, and whether
it tried one. -/
structure Remount where
  needbind : Bool
  tried : Bool
  deriving DecidableEq

/-- `sys_check_remount`: a file that is not there also counts as one to be bound. -/
def sysCheckRemount (p : Pass) (src tgt : List Char) : Remount :=
  match p.stat src, p.stat tgt with
  | none, _ => ⟨true, false⟩
  | some _, none => ⟨true, false⟩
  | some source, some target =>
      if target.dir then
        match p.tmpfs tgt with
        | none => ⟨true, false⟩
        | some true => ⟨false, false⟩
        | some false => ⟨true, true⟩
      else if source.dev = target.dev ∧ source.ino = target.ino then ⟨false, false⟩
      else ⟨true, true⟩

/-- `TRYGAP` -/
def tryGap : Int := 60 * 30

/-- `MXTRY` -/
def mxTry : Nat := 50

/-- `check_binding`: `last` holds the times of the credits given, oldest first. -/
def checkBinding (curtime : Int) (last : List Int) : Bool × List Int :=
  let last := last.dropWhile fun t => t ≤ curtime - tryGap
  if last.length < mxTry - 1 then (true, last ++ [curtime])
  else if curtime - tryGap < last.headD 0 then (false, last)
  else (true, last ++ [curtime])

/-! ## One pass -/

/-- Static variables: the paths of the files and of their sources, and the credits. -/
structure Static where
  src : Nat → List Char
  dst : Nat → List Char
  last : List Int

/-- Static variables of a new process. -/
def Static.zero : Static := ⟨fun _ => [], fun _ => [], []⟩

/-- What a pass did: its result, the number of credits it asked, and of mounts it tried. -/
structure Report where
  isok : Bool
  credits : Nat
  mounts : Nat
  deriving DecidableEq

/-- A pass that has done nothing yet. -/
def Report.zero : Report := ⟨true, 0, 0⟩

/-- The paths for the number `ndx`, stored at the place `i` unless they are there already. -/
def fill (s : Static) (i ndx : Nat) (source : List Char) : Static :=
  if s.src ndx = [] then
    { s with
      src := Function.update s.src i ("/dev/".toList ++ source)
      dst := Function.update s.dst i ("/proc/".toList ++ devName ndx) }
  else s

/-- The check of the file with the number `ndx` and what follows from it. -/
def checkFile (p : Pass) (i ndx : Nat) (s : Static) (r : Report) : Static × Report :=
  let remount := sysCheckRemount p (s.src ndx) (s.dst ndx)
  let r := { r with mounts := r.mounts + if remount.tried then 1 else 0 }
  if remount.needbind then
    let c := checkBinding (p.time i) s.last
    ({ s with last := c.2 }, { r with isok := r.isok && c.1, credits := r.credits + 1 })
  else (s, r)

/-- The body of the loop for the entry `dev` at the place `i`. -/
def checkDevice (p : Pass) (i : Nat) (dev : DevEnum) (s : Static) (r : Report) : Static × Report :=
  match dev with
  | .cpuinfo | .loadavg | .meminfo | .swaps =>
      checkFile p i dev.ndx (fill s i dev.ndx (devName dev.ndx)) r
  | .unknown => (s, { r with isok := false })
  | _ => checkFile p i dev.ndx (fill s i dev.ndx "null".toList) r

/-- The loop over the rest of the table. -/
def checkDevices (p : Pass) : List (DevEnum × Nat) → Static → Report → Static × Report
  | [], s, r => (s, r)
  | d :: ds, s, r =>
      let t := checkDevice p d.2 d.1 s r
      checkDevices p ds t.1 t.2

/-- `do_check_mounts` -/
def doCheckMounts (p : Pass) (s : Static) : Static × Report :=
  checkDevices p (specdevs.map Prod.snd).zipIdx s Report.zero

/-! ## The monitor -/

/-- What happens to the monitor: a pass when it starts, the opening of `mountinfo`, an
error of `poll`, a time-out with the result of `do_check_pids`, a mount event with its
pass, `SIGTERM`, and the end of the loop. -/
inductive Event where
  | first (p : Pass)
  | opened (ok : Bool)
  | pollError
  | timeout (pids : Bool)
  | mounted (p : Pass)
  | sigterm
  | leave

/-- Place of the monitor in its phases. -/
inductive Phase where
  | starting
  | opening
  | polling
  | ended
  deriving DecidableEq

/-- Variables of the monitor, and the reports of its passes, newest first. -/
structure State where
  phase : Phase
  keepRunning : Bool
  static : Static
  reports : List Report

/-- `mon_monitoring` is called. -/
def State.init : State := ⟨.starting, true, Static.zero, []⟩

/-- `keep_running=do_check_mounts(specdevs)` -/
def State.check (s : State) (p : Pass) : State :=
  let t := doCheckMounts p s.static
  { s with keepRunning := t.2.isok, static := t.1, reports := t.2 :: s.reports }

/-- One step of the monitor. -/
def step (s : State) (e : Event) : Option State :=
  match s.phase, e with
  | .ended, _ => none
  | _, .sigterm => some { s with keepRunning := false }
  | .starting, .first p => some { s.check p with phase := .opening }
  | .opening, .opened ok => some { s with phase := if ok then .polling else .ended }
  | .polling, e =>
      match s.keepRunning, e with
      | true, .pollError => some { s with keepRunning := false }
      | true, .timeout pids => some { s with keepRunning := pids }
      | true, .mounted p => some (s.check p)
      | false, .leave => some { s with phase := .ended }
      | _, _ => none
  | _, _ => none

/-- The pass of an event. -/
def Event.pass : Event → Option Pass
  | .first p | .mounted p => some p
  | _ => none

end Vzgot.Monitor

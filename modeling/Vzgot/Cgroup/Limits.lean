import Vzgot.Cpu.Select
import Vzgot.Library.Scanf

/-!
# The limits of a container

`cnt_set_cgroup` (`lib/unicnt.c`) makes the cgroups of a container, enables their
controllers and stores the limits found in the environment. `Done` is the result of a
step: whether it reports success, and its tries to store a text, oldest first. A step
that reports a failure ends the sequence (`andThen`). The answers of the system are a
`Machine`, with the fate of the text for every register.
-/

set_option autoImplicit false

namespace Vzgot.Cgroup

open Vzgot.Stdio Vzgot.Cpu

/-- Limit variables, in the order of the table `lims` of `cgroup_limits`. -/
inductive Limit where
  | pidmax
  | memmax
  | swapmax
  | numcpu
  | pwrcpu
  | maxcpu
  deriving DecidableEq

/-- `lims` -/
def lims : List Limit := [Limit.pidmax, .memmax, .swapmax, .numcpu, .pwrcpu, .maxcpu]

/-- `getenv` of the limit variables, and of `CPUWEIGHT`. -/
structure Env where
  limit : Limit → Option (List Char)
  cpuweight : Option (List Char)

/-- Fate of `mkdir` in `do_mkdir`, and of `chmod` on a directory that exists. -/
inductive MkdirRun where
  | made
  | modeSet
  | modeKept
  | failed

/-- `do_mkdir` -/
def doMkdir : MkdirRun → Int
  | .made | .modeSet => 0
  | .modeKept | .failed => -1

/-- Directories that `cnt_set_cgroup` makes, in order. -/
inductive Directory where
  | vzgot
  | supervisors
  | containers
  | supervisor
  | container

/-- Fields of `sysinfo` that `prc_setmemmax` reads. -/
structure SysInfo where
  totalram : Nat
  totalswap : Nat
  memUnit : Nat

/-- Answers of the system: the directories, the registers, `sys_read_sys_long` of
`pid_max`, `sysinfo` in the call for the memory and in the call for the swap, the CPUs
and `rand()`, `sys_read_sys_long` of the weight of the containers directory, `access`
of its `cpu.max`, and `sys_get_numcpu`. -/
structure Machine where
  mkdir : Directory → MkdirRun
  store : Register → WriteRun
  pidMax : Option Nat
  sysinfo : Bool → Option SysInfo
  cpus : Host
  rand : Rand
  parentWeight : Option Nat
  cpuMaxReadable : Bool
  numcpu : Nat
  supervisorPid : Nat

/-- Result of a step, with its tries to store a text. -/
structure Done where
  isok : Bool
  stores : List Store

/-- The second step, unless the first one reports a failure. -/
def andThen (first second : Option Done) : Option Done :=
  first.bind fun d =>
    if d.isok then second.map fun e => ⟨e.isok, d.stores ++ e.stores⟩ else some d

/-- A try to store the text. -/
def Machine.put (m : Machine) (register : Register) (path text : List Char) : Store :=
  ⟨register, path, text, m.store register⟩

/-- `apl_getdouble` -/
def aplGetdouble (valeur : List Char) : Rat :=
  match strtod valeur with
  | (convert, err :: _) => if isSpace err then convert else 0
  | (convert, []) => convert

/-- Conversion of a `double` to `u_vlong`. -/
def toUvlong (q : Rat) : Nat := (toLong q).toNat

section Limits

variable (m : Machine) (contname : List Char)

/-- Path of a register, as most procedures print it. -/
def slashRegister (register : String) : List Char :=
  '/' :: contRegister contname register.toList

/-- `prc_setpidsmax` -/
def prcSetpidsmax (valeur : List Char) : Done :=
  match m.pidMax with
  | none => ⟨false, []⟩
  | some sysPidMax =>
      let maxpid := max 100 (toLong (sysPidMax * aplGetdouble valeur / 100))
      ⟨sysWriteSysLong (m.store .pidsMax),
        [m.put .pidsMax (slashRegister contname "pids.max") (decimal maxpid.toNat)]⟩

/-- `prc_setmemmax`: the limit of the memory also sets the swap to zero. -/
def prcSetmemmax (valeur : List Char) (swap : Bool) : Done :=
  match m.sysinfo swap with
  | none => ⟨false, []⟩
  | some info =>
      let memmax : Nat := info.totalram * info.memUnit % 2 ^ 64
      let swapmax : Nat := info.totalswap * info.memUnit % 2 ^ 64
      let ratio := aplGetdouble valeur
      let totalmax := max (32 * 1024 * 1024) (toUvlong (memmax * ratio / 100))
      let totalswap := toUvlong (swapmax * ratio / 100)
      let swapPath := slashRegister contname "memory.swap.max"
      if swap then
        ⟨sysWriteSysLong (m.store .swapMax), [m.put .swapMax swapPath (decimal totalswap)]⟩
      else
        ⟨sysWriteSysLong (m.store .memoryMax),
          [m.put .swapPreset swapPath (decimal 0),
            m.put .memoryMax (slashRegister contname "memory.max") (decimal totalmax)]⟩

/-- `sys_set_cont_weight`: a weight of the directory that is not stored is only noted, and
`isok` stays true when the register of the container cannot be opened. -/
def sysSetContWeight (cpuweight : Option (List Char)) (ratio : Rat) : Done :=
  let parent := match cpuweight with
    | none => []
    | some value =>
        let result := ((strtoll value).1 % 2 ^ 64).toNat
        [m.put .parentWeight (Boot.sysGetSysfs .containers ++ "/cpu.weight".toList)
          (decimal result)]
  match m.parentWeight with
  | none => ⟨false, parent⟩
  | some total =>
      let weight := min 10000 (max 1 (toUvlong (total * ratio / 100)))
      ⟨true, parent ++ [m.put .cpuWeight (slashRegister contname "cpu.weight")
        (decimal weight ++ ['\n'])]⟩

/-- `sys_set_cont_usage`, with 100000 for `SAMPLE`. -/
def sysSetContUsage (ratio : Rat) : Done :=
  if m.cpuMaxReadable = false then ⟨false, []⟩
  else if m.numcpu = 0 then ⟨false, []⟩
  else
    let computed := toUvlong (ratio * m.numcpu * 100000 / 100)
    let usage := if computed = 0 then 25000 else computed
    let consigne := if m.numcpu * 100000 ≤ usage then "max".toList else decimal usage
    let store := m.put .cpuMax (slashRegister contname "cpu.max")
      (consigne ++ ' ' :: decimal 100000 ++ ['\n'])
    if m.store .cpuMax = .notOpened then ⟨false, [store]⟩ else ⟨true, [store]⟩

/-- The `switch` of `cgroup_limits`. -/
def setLimit (env : Env) (value : List Char) : Limit → Option Done
  | .pidmax => some (prcSetpidsmax m contname value)
  | .memmax => some (prcSetmemmax m contname value false)
  | .swapmax => some (prcSetmemmax m contname value true)
  | .numcpu =>
      (sysSetcpuset m.cpus contname (aplGetdouble value) m.rand (m.store .cpusetCpus)).map
        fun sel => ⟨sel.isok, sel.stores⟩
  | .pwrcpu => some (sysSetContWeight m contname env.cpuweight (aplGetdouble value))
  | .maxcpu => some (sysSetContUsage m contname (aplGetdouble value))

/-- `cgroup_limits` on the rest of the table. -/
def cgroupLimits (env : Env) : List Limit → Option Done
  | [] => some ⟨true, []⟩
  | lim :: rest =>
      match env.limit lim with
      | none => cgroupLimits env rest
      | some value => andThen (setLimit m contname env value lim) (cgroupLimits env rest)

/-- `do_mkdir` as a step. -/
def makeDirectory (d : Directory) : Option Done := some ⟨decide (0 ≤ doMkdir (m.mkdir d)), []⟩

/-- Storing `PRIVS` in the file `SUBTREE` of the directory. -/
def enableControllers (register : Register) (ext : Boot.Cgroup) : Option Done :=
  some ⟨sysWriteStr (m.store register),
    [m.put register (Boot.sysGetSysfs ext ++ "/cgroup.subtree_control".toList)
      "+memory +pids +cpu +cpuset".toList]⟩

/-- Phase 8: the result of `sys_move_to_cgroup` is not looked at. -/
def moveSupervisor : Option Done :=
  some ⟨true, [m.put .supervisorProcs
    (Boot.sysGetSysfs .supervisors ++ '/' :: contname ++ "/cgroup.procs".toList)
    (decimal m.supervisorPid ++ ['\n'])]⟩

/-- `cnt_set_cgroup`; nothing when the process stops in it. -/
def cntSetCgroup (env : Env) : Option Done :=
  andThen (makeDirectory m .vzgot) <|
  andThen (enableControllers m .subtreeVzgot .vzgot) <|
  andThen (makeDirectory m .supervisors) <|
  andThen (makeDirectory m .containers) <|
  andThen (enableControllers m .subtreeContainers .containers) <|
  andThen (makeDirectory m .supervisor) <|
  andThen (makeDirectory m .container) <|
  andThen (cgroupLimits m contname env lims) <|
  moveSupervisor m contname

end Limits

end Vzgot.Cgroup

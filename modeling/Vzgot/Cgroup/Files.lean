import Mathlib.Data.Rat.Floor
import Vzgot.Boot.Phases

/-!
# Files of the cgroup file system

A register of a cgroup is a file that takes one text at a time. `Store` is one try to
store a text, with what became of it. `sysWriteStr` and `sysWriteSysLong`
(`lib/utlsys.c`) store a text and a number; both give the same result whatever became
of the text, which is what `sysWriteStr_eq_true` and `sysWriteSysLong_eq_true` say.
-/

set_option autoImplicit false

namespace Vzgot.Cgroup

/-- Fate of a text written into a file: the file cannot be opened, the write fails, a
part of the text is taken, or the whole text. -/
inductive WriteRun where
  | notOpened
  | notWritten
  | short
  | whole
  deriving DecidableEq

/-- Registers that `cnt_set_cgroup` and the procedures it calls write. -/
inductive Register where
  | subtreeVzgot
  | subtreeContainers
  | pidsMax
  | swapPreset
  | memoryMax
  | swapMax
  | cpusetCpus
  | parentWeight
  | cpuWeight
  | cpuMax
  | supervisorProcs
  deriving DecidableEq

/-- One try to store a text in a register. -/
structure Store where
  register : Register
  path : List Char
  text : List Char
  run : WriteRun
  deriving DecidableEq

/-- `sys_write_str`: the status is -1 from the start and nothing changes it, so the
`_Bool` result is true. -/
def sysWriteStr (run : WriteRun) : Bool :=
  let status : Int := -1
  match run with
  | .notOpened | .notWritten => decide (status ≠ 0)
  | .short | .whole => decide (status ≠ 0)

/-- `sys_write_sys_long`: `isok` is true from the start and the failing phases leave the
loop without changing it. -/
def sysWriteSysLong (run : WriteRun) : Bool :=
  let isok := true
  match run with
  | .notOpened | .notWritten | .short => isok
  | .whole => true

@[simp] theorem sysWriteStr_eq_true (run : WriteRun) : sysWriteStr run = true := by
  cases run with
  | notOpened => rfl
  | notWritten => rfl
  | short => rfl
  | whole => rfl

@[simp] theorem sysWriteSysLong_eq_true (run : WriteRun) : sysWriteSysLong run = true := by
  cases run with
  | notOpened => rfl
  | notWritten => rfl
  | short => rfl
  | whole => rfl

/-- The conversion `%llu` or `%ld` of a nonnegative number. -/
def decimal (n : Nat) : List Char := Nat.toDigits 10 n

/-- Conversion of a `double` to `long`. -/
def toLong (q : Rat) : Int := q.num.tdiv q.den

/-- A number that is not negative is rounded down. -/
theorem toLong_eq_floor {q : Rat} (h : 0 ≤ q) : toLong q = ⌊q⌋ := by
  have hfloor : ⌊q⌋ = q.num / q.den := Rat.floor_def q
  rw [hfloor, toLong, Int.tdiv_eq_ediv_of_nonneg (Rat.num_nonneg.mpr h)]

/-- Path of a register of the container in the containers directory. -/
def contRegister (contname register : List Char) : List Char :=
  Boot.sysGetSysfs .containers ++ '/' :: contname ++ '/' :: register

end Vzgot.Cgroup

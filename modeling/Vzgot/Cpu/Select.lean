import Mathlib.Algebra.Order.Monoid.WithTop
import Vzgot.Cgroup.Files
import Vzgot.Library.Double
import Vzgot.Library.Draw

/-!
# The CPUs of a container

`cpuselector` (`lib/utlsys.c`) draws the CPUs of a container: every available CPU gets
a weight from its work so far, and as many draws as CPUs are wanted are made with
`rand()`. `sys_get_cpu_host_list` tells how many CPUs are installed and online, and
which ones the process may run on. The number of draws is computed in doubles. Weights,
their sum and the compared fractions are exact rationals; the numbers of `/proc/stat` are
added as `u_vlong`, and where one more than their sum is zero the weight is infinite.
-/

set_option autoImplicit false

namespace Vzgot.Cpu

open Vzgot.Cgroup

/-- `RAND_MAX` -/
def randMax : Nat := 2147483647

/-- Results of the calls of `rand()`, in order. -/
abbrev Rand := Nat → Fin (randMax + 1)

/-- `cpu_set_t`: a set of numbers below `CPU_SETSIZE`. -/
structure CpuSet where
  ids : Finset Nat
  small : ∀ i ∈ ids, i < 1024

namespace CpuSet

/-- The set after `memset` to zero. -/
def zero : CpuSet := ⟨∅, by simp⟩

/-- `CPU_ISSET` -/
def isSet (s : CpuSet) (i : Nat) : Bool := decide (i ∈ s.ids)

/-- `CPU_SET`: a number that is too large is ignored. -/
def set (s : CpuSet) (i : Nat) : CpuSet :=
  if h : i < 1024 then
    ⟨insert i s.ids, by
      intro j hj
      rcases Finset.mem_insert.mp hj with rfl | hj
      · exact h
      · exact s.small j hj⟩
  else s

end CpuSet

/-- `PHYCPU` -/
structure PhyCpu where
  maxcpu : Int
  maxavail : Int
  selected : Int
  allocated : CpuSet

/-- A line of `/proc/stat` as `cpuselector` reads it: not a line of a CPU, a line of a
CPU that `sscanf` cannot scan, or the number of the CPU with its three first counters. -/
inductive StatLine where
  | other
  | unscanned
  | cpu (id u n s : Nat)

/-- What the host answers: `sysconf` for the installed and for the online CPUs,
`sched_getaffinity`, and the lines of `/proc/stat`. -/
structure Host where
  conf : Option Nat
  onln : Option Nat
  affinity : Option CpuSet
  stat : Option (List StatLine)

/-- `sys_get_cpu_host_list`: `isok` is true from the start, so a failed call leaves it
true with the fields that were not reached at zero. -/
def sysGetCpuHostList (h : Host) : Bool × PhyCpu :=
  match h.conf, h.onln, h.affinity with
  | none, _, _ => (true, ⟨-1, 0, 0, CpuSet.zero⟩)
  | some conf, none, _ => (true, ⟨conf, -1, 0, CpuSet.zero⟩)
  | some conf, some onln, none => (true, ⟨conf, onln, 0, CpuSet.zero⟩)
  | some conf, some onln, some set =>
      let selected := ((List.range conf).filter set.isSet).length
      (decide (onln = selected), ⟨conf, onln, selected, set⟩)

/-- Phase 1: number of CPUs to draw. The product and the quotient are both rounded. -/
def toDraw (maxavail : Int) (ratio : Rat) : Int :=
  let ratio := if 100 < ratio then 100 else ratio
  let selected := toLong (Double.round (Double.round (maxavail * ratio) / 100))
  if selected ≤ 0 then 1 else selected

/-- Weight of a CPU with so much work; `work+1` is a `u_vlong`, and `1.0/0` is infinite. -/
def weight (u n s : Nat) : WithTop Rat :=
  match (u + n + s + 1) % 2 ^ 64 with
  | 0 => ⊤
  | k + 1 => ((1 / ((k : Rat) + 1) : Rat) : WithTop Rat)

/-- Phase 4, one available CPU: its weight from the next line, and the lines behind it. -/
def readLine (i : Nat) : List StatLine → Option (WithTop Rat × List StatLine)
  | .cpu id u n s :: lines => if id = i then some (weight u n s, lines) else none
  | _ => none

/-- Phase 4: the weights of the available CPUs among the numbers, and their sum. -/
def readStat (set : CpuSet) : List Nat → List StatLine → (Nat → WithTop Rat) → WithTop Rat →
    Option ((Nat → WithTop Rat) × WithTop Rat)
  | [], _, weights, sum => some (weights, sum)
  | i :: is, lines, weights, sum =>
      if set.isSet i then
        (readLine i lines).bind fun r =>
          readStat set is r.2 (Function.update weights i r.1) (sum + r.1)
      else readStat set is lines weights sum

/-- Phase 5, the inner loop: the CPU found by the scan from `start`. -/
def scan (weights : Nat → WithTop Rat) (n start : Nat) (aleas : WithTop Rat) :
    List Nat → WithTop Rat → Option Nat
  | [], _ => none
  | j :: js, load =>
      let cpu := (start + j) % n
      if weights cpu < 0 then scan weights n start aleas js load
      else if aleas < load + weights cpu then some cpu
      else scan weights n start aleas js (load + weights cpu)

/-- Variables of phase 5. -/
structure Drawing where
  weights : Nat → WithTop Rat
  sum : WithTop Rat
  allocated : CpuSet

/-- `aleas`. A part of an infinite sum is infinite, or no number, and no load passes it. -/
def aleasOf (r : Fin (randMax + 1)) (sum : WithTop Rat) : WithTop Rat :=
  sum.map fun s => (r.val : Rat) / randMax * s

/-- Phase 5, one turn of the outer loop with its two results of `rand()`. -/
def drawOne (n : Nat) (r₁ r₂ : Fin (randMax + 1)) (d : Drawing) : Drawing :=
  match scan d.weights n (r₂.val % n) (aleasOf r₁ d.sum) (List.range n) 0 with
  | none => d
  | some cpu =>
      { weights := Function.update d.weights cpu ((-1 : Rat) : WithTop Rat)
        sum := WithTop.map₂ (· - ·) d.sum (d.weights cpu)
        allocated := d.allocated.set cpu }

/-- Phase 5: so many turns, the first one with the number `i`. -/
def drawAll (n : Nat) (rand : Rand) : Nat → Nat → Drawing → Drawing
  | 0, _, d => d
  | k + 1, i, d => drawAll n rand k (i + 1) (drawOne n (rand (2 * i)) (rand (2 * i + 1)) d)

/-- Numbers written into `cpuset.cpus`, in order. -/
def writtenCpus (maxcpu : Int) (set : CpuSet) : List Nat :=
  (List.range maxcpu.toNat).filter set.isSet

/-- The numbers with commas between them. -/
def cpuList (cpus : List Nat) : List Char := List.intercalate [','] (cpus.map decimal)

/-- Result of `cpuselector`: its value, the new `cont_cpus_list`, and what it stored. -/
structure Selection where
  isok : Bool
  cont : Option PhyCpu
  stores : List Store

/-- Path of `cpuset.cpus`. -/
def cpusetPath (contname : List Char) : List Char := contRegister contname "cpuset.cpus".toList

/-- Phases 6 to 8: an error behind the opening of the file is not looked at, and
`report` holds 2048 bytes; more of them overwrite the stack. -/
def storeSelection (contname : List Char) (run : WriteRun) (todraw : PhyCpu) :
    Option Selection :=
  let cpus := cpuList (writtenCpus todraw.maxcpu todraw.allocated)
  let store : Store := ⟨.cpusetCpus, cpusetPath contname, cpus ++ ['\n'], run⟩
  if run = .notOpened then some ⟨false, some todraw, [store]⟩
  else if 2048 ≤ cpus.length then none
  else some ⟨true, some todraw, [store]⟩

/-- Phases 2 to 4: the weights and their sum, behind the first line of the file. -/
def readWeights (host : PhyCpu) :
    Option (List StatLine) → Option ((Nat → WithTop Rat) × WithTop Rat)
  | none | some [] => none
  | some (_ :: lines) =>
      readStat host.allocated (List.range host.maxavail.toNat) lines (fun _ => 0) 0

/-- Phases 5 to 8; `rand()%0` stops the process. -/
def drawSelection (contname : List Char) (rand : Rand) (run : WriteRun) (todraw : PhyCpu)
    (weights : Nat → WithTop Rat) (sum : WithTop Rat) : Option Selection :=
  if todraw.maxavail = 0 then none
  else
    let d := drawAll todraw.maxavail.toNat rand todraw.selected.toNat 0 ⟨weights, sum, CpuSet.zero⟩
    storeSelection contname run { todraw with allocated := d.allocated }

/-- `cpuselector`; nothing when it does not return. Its parameter `maxcpu`, the length
of its arrays, is the number of online CPUs again. -/
def cpuselector (h : Host) (contname : List Char) (ratio : Rat) (rand : Rand) (run : WriteRun) :
    Option Selection :=
  match sysGetCpuHostList h with
  | (false, _) => some ⟨false, none, []⟩
  | (true, host) =>
      match readWeights host h.stat with
      | none => some ⟨false, none, []⟩
      | some (weights, sum) =>
          drawSelection contname rand run { host with selected := toDraw host.maxavail ratio }
            weights sum

/-- `sys_setcpuset` -/
def sysSetcpuset (h : Host) (contname : List Char) (ratio : Rat) (rand : Rand) (run : WriteRun) :
    Option Selection :=
  match h.onln with
  | none => some ⟨false, none, []⟩
  | some _ => cpuselector h contname ratio rand run

end Vzgot.Cpu

import Mathlib.Data.Fin.VecNotation
import Vzgot.Library.Stdio

/-!
# Live status of a container

`sys_update_cont_status` (`lib/utlsys.c`) refreshes a status record: the time since the
last update, the number of users, the CPU counters, the load average and the traffic of
two network interfaces. Counters are 64 bits wide, `double` is exact, and what the system
answers enters as an argument. The memory figures are left out: nothing here reads them.
-/

set_option autoImplicit false

namespace Vzgot.Status

open Vzgot.Stdio

/-! ## The record -/

/-- `u_vlong` -/
abbrev UVlong := BitVec 64

/-- `CPUENU` -/
inductive CpuEnu where
  | host
  | cont
  deriving DecidableEq

/-- `CPUINF` -/
structure CpuInf where
  usage : UVlong
  pressure : UVlong

/-- `BANTYP` -/
structure BanTyp where
  cumulated : UVlong
  speed : Rat

/-- Files `rx_bytes` and `tx_bytes`. -/
inductive Band where
  | rx
  | tx
  deriving DecidableEq

/-- `TIMETIC` -/
structure TimeTic where
  sec : Int
  nsec : Int

/-- The time in seconds. -/
def TimeTic.seconds (t : TimeTic) : Rat := t.sec + t.nsec / 10 ^ 9

/-- `STATYP` -/
structure StaTyp where
  lastTime : TimeTic
  deltaT : Rat
  nbruser : Nat
  lastPid : Nat
  pidsCurrent : Nat
  cpuinf : CpuEnu → CpuInf
  traffic : CpuEnu → Band → BanTyp

/-! ## The load average -/

/-- What the static string `loadavg` shows. -/
inductive Shown where
  | zeroavg
  | load (avg : Fin 3 → Rat) (pids lastPid : Nat)

/-- Static variables of `sys_cal_loadavg`. -/
structure LoadStatic where
  lastLoad : CpuEnu → UVlong
  loadavg : Shown

/-- Static variables of a new process. -/
def LoadStatic.zero : LoadStatic := ⟨fun _ => 0, .zeroavg⟩

/-- Answers of the system: the text of `/proc/loadavg`, the last process number and the
number of processes of the container. -/
structure LoadCalls where
  hostLoadavg : Option (List Char)
  lastPid : Option Nat
  pidsCurrent : Option Nat

/-- The conversion `%lf` of `sscanf`. -/
def scanDouble (s : List Char) : Option (Rat × List Char) :=
  if (strtod s).2.length < s.length then some (strtod s) else none

/-- `sys_get_host_loadavg` -/
def sysGetHostLoadavg (text : Option (List Char)) : Option (Fin 3 → Rat) :=
  (text.bind (fgets 200)).bind fun data =>
    (scanDouble data).bind fun avg₁ =>
      (scanDouble avg₁.2).bind fun avg₂ =>
        (scanDouble avg₂.2).map fun avg₃ => ![avg₁.1, avg₂.1, avg₃.1]

/-- `MINPACE` -/
def minpace : Rat := 1 / 100

/-- `cur_load` -/
def StaTyp.curLoad (s : StaTyp) (c : CpuEnu) : UVlong := (s.cpuinf c).usage + (s.cpuinf c).pressure

/-- `delta_cpu`, for the loads `last` and `cur`. -/
def deltaCpu (last cur : CpuEnu → UVlong) (c : CpuEnu) : Rat := (cur c - last c).toNat

/-- `ratio` of phase 2. The branch for a negative ratio is never taken. -/
def loadRatio (last cur : CpuEnu → UVlong) : Rat :=
  if 0 < deltaCpu last cur .host then
    let ratio := deltaCpu last cur .cont / deltaCpu last cur .host
    if 1 < ratio then 1 else ratio
  else 0

/-- `sys_cal_loadavg` -/
def sysCalLoadavg (st : LoadStatic) (s : StaTyp) (r : LoadCalls) : Bool × LoadStatic × StaTyp :=
  let cur := s.curLoad
  if st.lastLoad .host = 0 then (false, { st with lastLoad := cur }, s)
  else if s.deltaT < minpace then (false, { st with lastLoad := cur }, s)
  else
    match sysGetHostLoadavg r.hostLoadavg with
    | none => (false, ⟨cur, .zeroavg⟩, s)
    | some hostAvg =>
        let s := { s with lastPid := r.lastPid.getD s.lastPid }
        match r.pidsCurrent with
        | none => (false, ⟨cur, .zeroavg⟩, s)
        | some pids =>
            let s := { s with pidsCurrent := pids }
            let avg := fun i => hostAvg i * loadRatio st.lastLoad cur
            (true, ⟨cur, .load avg s.pidsCurrent s.lastPid⟩, s)

/-! ## The traffic -/

/-- `collect_count`, with the number read from the file, if any. -/
def collectCount (b : BanTyp) (counter : Option UVlong) (deltaT : Rat) : Bool × BanTyp :=
  match counter with
  | none => (false, b)
  | some counter =>
      -- a count of zero stands for no measure
      if b.cumulated = 0 then (true, { b with cumulated := counter })
      else (true, ⟨counter, (counter - b.cumulated).toNat / deltaT⟩)

/-- `get_bandwidth_info` -/
def getBandwidthInfo (traffic : Band → BanTyp) (counters : Band → Option UVlong) (deltaT : Rat) :
    Bool × (Band → BanTyp) :=
  let r := fun band => collectCount (traffic band) (counters band) deltaT
  ((r .rx).1 && (r .tx).1, fun band => (r band).2)

/-! ## The update -/

/-- Answers of the system during one update; `cpuinf` is what `sys_get_cpustat` leaves. -/
structure UpdateCalls where
  clock : Option TimeTic
  users : Option Nat
  cpuinf : CpuEnu → CpuInf
  load : LoadCalls
  counters : CpuEnu → Band → Option UVlong

/-- Phase 2: `delta_t`. -/
def StaTyp.tick (s : StaTyp) (cur : TimeTic) : StaTyp :=
  { s with
    deltaT := ((cur.sec - s.lastTime.sec : Int) : Rat) +
      ((cur.nsec - s.lastTime.nsec : Int) : Rat) / 10 ^ 9
    lastTime := cur }

/-- `sys_update_cont_status` -/
def sysUpdateContStatus (st : LoadStatic) (s : StaTyp) (u : UpdateCalls) :
    Bool × LoadStatic × StaTyp :=
  match u.clock with
  | none => (false, st, { s with deltaT := 0 })
  | some cur =>
      let s := s.tick cur
      match u.users with
      | none => (false, st, s)
      | some n =>
          let s := { s with nbruser := n, cpuinf := u.cpuinf }
          let load := sysCalLoadavg st s u.load
          let s := load.2.2
          (true, load.2.1, { s with
            traffic := fun c => (getBandwidthInfo (s.traffic c) (u.counters c) s.deltaT).2 })

end Vzgot.Status

import Vzgot.Cgroup.Limits
import Vzgot.Library.Buffer
import Vzgot.Library.Fixed
import Vzgot.Online.Template
import Vzgot.Status.Update

/-!
# Values of the keys

`cfg_update_online` (`lib/unicfg.c`) copies each line of the template to the array `work`
and replaces its keys there: `adjusting` finds the variable of a key, and `do_resolv`
prints its value into `replace` and moves it over the key. Every access of `do_resolv` is
checked: `Execution.run` gives no array when it leaves the array `work`, the key's line, or
the characters that `snprintf` has stored. `printf` stands for what `snprintf` would print
into an array that is large enough, and nothing when it fails.
-/

set_option autoImplicit false

namespace Vzgot.Online

open Vzgot.Stdio Vzgot.Buffer Vzgot.Cgroup Vzgot.Status

/-! ## Data -/

/-- `MEMENU` -/
inductive MemEnu where
  | mem
  | swap
  deriving DecidableEq

/-- What `do_resolv` reads of `STATYP`, with the texts that `sys_meminf_printf` and
`sys_bandwidth_printf` make of it, the number of `sys_get_cpu_idle` if it is finite, the
time in seconds, the name of the host and the environment. A text that is only pointed to
may be missing. The CPU figures are those of the container. -/
structure Content where
  start : Nat
  contpid : Int
  nbruser : Nat
  cpuonl : Nat
  contname : Option (List Char)
  cpumodel : Option (List Char)
  cpuassigned : Option (List Char)
  ceiling : Option (List Char)
  weight : Option (List Char)
  loadavg : Option (List Char)
  avg10 : CpuEnu → Rat
  oomKill : CpuEnu → Nat
  usage : Nat
  throttled : Nat
  nrThrottled : Nat
  intname : CpuEnu → List Char
  ipNum : CpuEnu → List Char
  meminf : CpuEnu → MemEnu → List Char
  bandwidth : CpuEnu → Bool → List Char
  cpuidle : Option Rat
  now : Nat
  hostname : List Char
  getenv : List Char → Option (List Char)

/-- A status without any figure, and a system without answers. -/
def Content.zero : Content where
  start := 0
  contpid := 0
  nbruser := 0
  cpuonl := 0
  contname := none
  cpumodel := none
  cpuassigned := none
  ceiling := none
  weight := none
  loadavg := none
  avg10 _ := 0
  oomKill _ := 0
  usage := 0
  throttled := 0
  nrThrottled := 0
  intname _ := []
  ipNum _ := []
  meminf _ _ := []
  bandwidth _ _ := []
  cpuidle := none
  now := 0
  hostname := []
  getenv _ := none

/-- The argument behind the format. -/
inductive Argument where
  | text (s : Option (List Char))
  | integer (n : Int)
  | double (q : Option Rat)

/-- `snprintf` of a format with one conversion `%s`, with or without the flag for the left
side and a width. -/
def printText (format : List Char) : Argument → List Char
  | .text (some s) =>
      let spec := (format.dropWhile (· ≠ '%')).tail
      let left := spec.head? = some '-'
      let digits := if left then spec.tail else spec
      let width := (scanNat digits).getD 0
      let body :=
        if left then padRight width s else List.replicate (width - s.length) ' ' ++ s
      format.takeWhile (· ≠ '%') ++ body ++ (digits.dropWhile Char.isDigit).tail
  | _ => []

/-- Days, hours, minutes and seconds, as both procedures print them. -/
def chrono (sec : Nat) : List Char :=
  printNat true 3 (sec / 86400) ++ " days ".toList ++ fraction 2 (sec % 86400 / 3600) ++ ':' ::
    fraction 2 (sec % 86400 % 3600 / 60) ++ ':' :: fraction 2 (sec % 86400 % 3600 % 60)

/-- `apl_uptime`, into an array of `size` characters. -/
def aplUptime (size start now : Nat) : List Char :=
  let start := start / 1000000
  if start ≤ now then (chrono (now - start)).take (size - 1) else []

/-- `apl_chrono_ms`, into an array of `size` characters. -/
def aplChronoMs (size ms : Nat) : List Char :=
  (chrono (ms / 1000) ++ '.' :: fraction 3 (ms % 1000)).take (size - 1)

/-- `mapping`; the other entries are null pointers. -/
def mapping : TplEnum → List Char
  | .maxcpu => "MAXCPU".toList
  | .memmax => "MEMMAX".toList
  | .numcpu => "NUMCPU".toList
  | .pidmax => "PIDMAX".toList
  | .pwrcpu => "PWRCPU".toList
  | .swapmax => "SWAPMAX".toList
  | _ => []

/-- The argument that `do_resolv` prints; a code without a branch is not implemented. -/
def argument (st : Content) (code : TplEnum) : Option Argument :=
  match code with
  | .ceiling => some (.text st.ceiling)
  | .chwratio => some (.text st.weight)
  | .cint => some (.text (st.intname .cont))
  | .cip => some (.text (st.ipNum .cont))
  | .cmpress => some (.double (st.avg10 .cont))
  | .coomkill => some (.integer (st.oomKill .cont))
  | .cpuidle => some (.double st.cpuidle)
  | .cpuused => some (.text (aplChronoMs 40 (st.usage / 1000)))
  | .cpuwait => some (.text (aplChronoMs 40 (st.throttled / 1000)))
  | .hint => some (.text (st.intname .host))
  | .hip => some (.text (st.ipNum .host))
  | .lavg => some (.text st.loadavg)
  | .lstass => some (.text st.cpuassigned)
  | .cname => some (.text st.contname)
  | .onl => some (.integer st.cpuonl)
  | .hoomkill => some (.integer (st.oomKill .host))
  | .pid => some (.integer st.contpid)
  | .cmem => some (.text (st.meminf .cont .mem))
  | .csrxtx => some (.text (st.bandwidth .cont true))
  | .ctrxtx => some (.text (st.bandwidth .cont false))
  | .cswap => some (.text (st.meminf .cont .swap))
  | .hmem => some (.text (st.meminf .host .mem))
  | .hmpress => some (.double (st.avg10 .host))
  | .hname => some (.text st.hostname)
  | .hmodel => some (.text st.cpumodel)
  | .hsrxtx => some (.text (st.bandwidth .host true))
  | .htrxtx => some (.text (st.bandwidth .host false))
  | .hswap => some (.text (st.meminf .host .swap))
  -- variables of the configuration, as the environment has them
  | .maxcpu | .memmax | .numcpu | .pidmax | .pwrcpu | .swapmax =>
      some (.double (aplGetdouble ((st.getenv (mapping code)).getD "100.0".toList)))
  | .throttle => some (.integer st.nrThrottled)
  | .uptime => some (.text (aplUptime 40 st.start st.now))
  | .users => some (.integer st.nbruser)
  | .model | .unknown => none

/-! ## One key -/

/-- `sizeof(work)` -/
def workSize : Nat := 400

/-- `work` -/
abbrev Work := CharArray workSize

/-- One execution of `do_resolv`: the array, the place of the key in it, the length `using`
of the key, and what `snprintf` prints. -/
structure Execution where
  work : Work
  marker : Nat
  keyLen : Nat
  printed : List Char

/-- `remain` -/
def Execution.remain (e : Execution) : Nat := workSize - e.marker

/-- What `snprintf` stores in `replace`. -/
def Execution.replace (e : Execution) : List Char := e.printed.take 59 ++ ['\x00']

/-- The end of the key removed, when the key is longer than the result. -/
def Execution.shortened (e : Execution) : Option Work :=
  if e.printed.length < e.keyLen then
    (e.work.behind e.marker e.keyLen).bind fun rest =>
      e.work.store (e.marker + e.printed.length) (rest ++ ['\x00'])
  else some e.work

/-- What an execution does to the array. -/
def Execution.run (e : Execution) : Option Work :=
  if e.printed = [] then some e.work
  else
    e.shortened.bind fun work =>
      (work.strlen e.marker).bind fun max =>
        -- cut to the room in `work`, not to the characters in `replace`
        let num := min e.printed.length e.remain
        if num ≤ e.replace.length then
          (work.store e.marker (e.replace.take num)).bind fun work =>
            -- the value covers the old end of the line
            if max ≤ num then work.store (e.marker + num) ['\x00'] else some work
        else none

section Lines

variable (printf : List Char → Argument → List Char) (st : Content) (tpl : Tpl)

/-- `do_resolv`: its result and its execution. -/
def doResolv (keyLen : Nat) (var : VarTyp) (work : Work) (marker : Nat) : Bool × Execution :=
  match argument st var.code with
  | some arg => (true, ⟨work, marker, keyLen, printf var.format arg⟩)
  | none => (false, ⟨work, marker, keyLen, []⟩)

/-- `var_name` of `adjusting`; it stays empty when the conversion fails. -/
def varName : List Char → List Char
  | '$' :: rest => ((scanUntil taille ':' rest).map Prod.fst).getD []
  | _ => []

/-- The variable of a code. -/
def Tpl.variable (code : TplEnum) : Option VarTyp := tpl.vars.find? fun var => code = var.code

/-- `memset` of `n` characters, when a key is not replaced. -/
def spoil (work : Work) (marker : Nat) (c : Char) (n : Nat) : Option (Bool × Work) :=
  (work.store marker (List.replicate n c)).map fun work => (false, work)

/-- `adjusting`: the executions of `do_resolv`, the result and the array. -/
def adjusting (marker : Nat) (work : Work) : List Execution × Option (Bool × Work) :=
  let name := varName (work.text marker)
  match lookup name with
  -- an unknown name, then a known one without a variable
  | none => ([], spoil work marker 'X' name.length)
  | some found =>
      match tpl.variable found with
      | none => ([], spoil work marker 'Y' name.length)
      | some var =>
          let r := doResolv printf st (name.length + 2) var work marker
          ([r.2], r.2.run.bind fun work =>
            if r.1 then some (true, work) else spoil work marker 'Z' name.length)

/-- The loop over the keys of a line, with `numvar` of them left: the executions of
`do_resolv`, and the array at the end. -/
def adjustKeys : Nat → Nat → Work → List Execution × Option Work
  | 0, _, work => ([], some work)
  | numvar + 1, scan, work =>
      if '$' ∈ work.text scan then
        let ptr := scan + ((work.text scan).takeWhile (· ≠ '$')).length
        let r := adjusting printf st tpl ptr work
        match r.2 with
        | none => (r.1, none)
        -- the rest of the line stays as it is
        | some (false, work) => (r.1, some work)
        | some (true, work) =>
            -- the next search begins at the value, which may contain a key
            let next := adjustKeys numvar ptr work
            (r.1 ++ next.1, next.2)
      else ([], some work)

/-- One line of the template: the executions of `do_resolv`, and the line that is stored.
`stack` is what `work` contains before. -/
def convertLine (stack : Work) (line : List Char) : List Execution × Option (List Char) :=
  match stack.store 0 ((cstr line).take (workSize - 1) ++ ['\x00']) with
  | none => ([], none)
  | some work =>
      let r := adjustKeys printf st tpl 10 0 work
      (r.1, r.2.map fun work => work.text 0)

/-- The lines that are stored, from line `n` on. -/
def convertLines (stack : Nat → Work) : Nat → List (List Char) → Option (List (List Char))
  | _, [] => some []
  | n, line :: lines =>
      (convertLine printf st tpl (stack n) line).2.bind fun updated =>
        (convertLines stack (n + 1) lines).map (updated :: ·)

end Lines

/-- `cfg_update_online`: its result, which nothing sets, and the structure. `status` is what
`sys_update_cont_status` leaves, if it does not fail. -/
def cfgUpdateOnline (printf : List Char → Argument → List Char) (status : Option Content)
    (stack : Nat → Work) (tpl : Tpl) : Option (Bool × Tpl) :=
  if tpl.lines = [] then some (false, tpl)
  else
    match status with
    | none => some (false, tpl)
    | some st =>
        (convertLines printf st tpl stack 0 tpl.lines).map fun updated =>
          (false, { tpl with updated := updated })

end Vzgot.Online

import Vzgot.Boot.Phases
import Vzgot.Storage.Tools

/-!
# `dotransfer` of `vzgot.movefrom`, and `vzgot.standby`

`dotransfer` moves a container from a remote host to the local one. It calls
`vzgot standby`, which the program runs with `cnt_initscript`. The state is the list of
the containers that run on each host. The other commands enter with what the scripts
read of them: `StandbyTurn` holds the results in one turn of the loop of
`vzgot.standby`, `TransferRun` those of one `dotransfer`. A command whose result is not
read has no field; of `vzgot shutdown` on the remote host only the deed is kept.
-/

set_option autoImplicit false

namespace Vzgot.Migration

open Vzgot.Boot Vzgot.Sed

/-- A container that runs. `listed` says that its name file leads to its `first.pid`,
`uptime` is what `vzgot online` prints behind the name. -/
structure Running where
  name : List Char
  listed : Bool
  uptime : List Char
  deriving DecidableEq

/-- The containers that run on the local and on the remote host. -/
structure Hosts where
  here : List Running
  there : List Running
  deriving DecidableEq

/-- The container runs on the remote host. -/
def Hosts.RunsThere (s : Hosts) (cont : List Char) : Prop := ∃ r ∈ s.there, r.name = cont

instance (s : Hosts) (cont : List Char) : Decidable (s.RunsThere cont) :=
  inferInstanceAs (Decidable (∃ r ∈ s.there, r.name = cont))

/-- The container is down on the remote host. -/
def Hosts.stopThere (s : Hosts) (cont : List Char) : Hosts :=
  { s with there := s.there.filter (·.name ≠ cont) }

/-- `vzgot online`: the name with a colon, a blank, and the uptime. -/
def vzgotOnline (running : List Running) : List (List Char) :=
  (running.filter (·.listed)).map fun r => r.name ++ ':' :: ' ' :: r.uptime

/-- `grep "^re"`. -/
def grepStart (re : List Char) (lines : List (List Char)) : List (List Char) :=
  lines.filter (matchesHead (basic re))

/-- `grep re`. -/
def grep (re : List Char) (lines : List (List Char)) : List (List Char) :=
  lines.filter (occurs (basic re))

/-- Results in one turn of the loop of `vzgot.standby`: the lines of `vzgot list` on the
local host, those that `ssh` brings from the remote host, the sizes that `df` gives, the
output of `loc_create`, whether the container is down on the remote host after
`vzgot shutdown` and the `sleep` behind it, and the `ONBOOT` of the names file at the end of
the turn, if it has one. -/
structure StandbyTurn where
  list : List (List Char)
  remoteList : List (List Char)
  remPool : List Char
  locPool : List Char
  locCreate : List Char
  down : Bool
  sourced : Option (List Char)

/-- Results in one run of `vzgot.standby`: whether `vzgot.tools` finds its configuration,
and the turns of the loop. -/
structure StandbyScript where
  tools : Bool
  turn : Nat → StandbyTurn

/-- `LOCSTAT`. -/
def StandbyTurn.locstat (r : StandbyTurn) (cont : List Char) : List (List Char) :=
  grep "Up".toList (grepStart (cont ++ [' ']) r.list)

/-- `NAME`, one word for each line. -/
def StandbyTurn.name (r : StandbyTurn) (cont : List Char) : List (List Char) :=
  (grepStart (cont ++ [' ']) r.remoteList).map (List.takeWhile (· ≠ ' '))

/-- The local file system is missing or has another size. -/
def StandbyTurn.poolDiffers (r : StandbyTurn) : Bool :=
  r.locPool = [] || r.locPool ≠ r.remPool

/-- What a turn comes to: an `exit` with a status, or the next turn with this `ONBOOT`. -/
inductive TurnEnd where
  | exited (status : Nat)
  | next (onboot : List Char)

/-- Body of the loop. A turn that comes to its end has sourced the names file, which sets the
`ONBOOT` of the script as well. -/
def standbyBody (r : StandbyTurn) (onboot cont : List Char) (s : Hosts) : TurnEnd × Hosts :=
  if r.locstat cont ≠ [] then (.next onboot, s)
  else if (r.name cont).all (· = []) then (.exited 1, s)
  else if r.poolDiffers ∧ r.locCreate = "0".toList then (.next onboot, s)
  else if onboot = [] ∨ onboot ≠ "yes".toList then (.next (r.sourced.getD onboot), s)
  else (.next (r.sourced.getD onboot), if r.down then s.stopThere cont else s)

/-- The loop over the containers. -/
def standbyLoop (turn : Nat → StandbyTurn) :
    Nat → List Char → List (List Char) → Hosts → Nat × Hosts
  | _, _, [], s => (0, s)
  | i, onboot, tocheck :: rest, s =>
      match standbyBody (turn i) onboot (tocheck.takeWhile (· ≠ ':')) s with
      | (.exited status, s') => (status, s')
      | (.next onboot, s') => standbyLoop turn (i + 1) onboot rest s'

/-- `vzgot.standby`, called with a container. -/
def standby (v : StandbyScript) (binome container onboot : List Char) (s : Hosts) : Nat × Hosts :=
  if v.tools = false then (1, s)
  else if binome = [] then (1, s)
  else standbyLoop v.turn 0 onboot ((container.splitOn ',').filter (· ≠ [])) s

/-- What the program sees of a script: no memory for the command, no pipe, no status from
`pclose`, or a status. -/
inductive Pipe where
  | noMemory
  | noPipe
  | noStatus
  | closed
  deriving DecidableEq

/-- The fate of a script that exits with `status` once it is started. -/
def Pipe.fate (status : Nat) : Pipe → ScriptRun
  | .noMemory => .noMemory
  | .noPipe => .noPipe
  | .noStatus => .noStatus
  | .closed => .exited status

/-- The script is started. -/
def Pipe.started : Pipe → Bool
  | .noMemory | .noPipe => false
  | .noStatus | .closed => true

/-- `vzscript`: the status of the program. -/
def vzscript (fate : ScriptRun) : Nat := if cntInitscript fate then 0 else 1

/-- A call of `vzgot standby`. -/
structure StandbyCall where
  pipe : Pipe
  script : StandbyScript

/-- `vzgot standby`: its status and the hosts behind it. -/
def vzgotStandby (v : StandbyCall) (binome container onboot : List Char) (s : Hosts) :
    Nat × Hosts :=
  let r := standby v.script binome container onboot s
  (vzscript (v.pipe.fate r.1), if v.pipe.started then r.2 else s)

/-- Results in one `dotransfer`: whether `vzgot online` works on the local host, the first
`vzgot standby`, whether `ssh` with `vzgot online` works, and the second `vzgot standby`. -/
structure TransferRun where
  online : Bool
  first : StandbyCall
  sshOnline : Bool
  second : StandbyCall

/-- `ONLINE` of the local check. -/
def TransferRun.onlineHere (t : TransferRun) (cont : List Char) (s : Hosts) : List (List Char) :=
  if t.online then grepStart (cont ++ [' ']) (vzgotOnline s.here) else []

/-- `ONLINE` of the remote check. -/
def TransferRun.onlineThere (t : TransferRun) (cont : List Char) (s : Hosts) : List (List Char) :=
  if t.sshOnline then grepStart cont (vzgotOnline s.there) else []

/-- End of `dotransfer`: the status of an `exit`, or `none` where it returns, and the
hosts in front of `vzgot boot` if it is executed. -/
structure Transfer where
  exit : Option Nat
  booted : Option Hosts

/-- `dotransfer`. -/
def dotransfer (t : TransferRun) (binome cont : List Char) (s : Hosts) : Transfer :=
  if t.onlineHere cont s ≠ [] then ⟨some 3, none⟩
  else
    let s₁ := (vzgotStandby t.first binome cont "no".toList s).2
    if t.onlineThere cont s₁ = [] then ⟨none, none⟩
    else
      let r := vzgotStandby t.second binome cont "yes".toList s₁
      if r.1 ≠ 0 then ⟨some 4, none⟩
      else ⟨none, some r.2⟩

end Vzgot.Migration

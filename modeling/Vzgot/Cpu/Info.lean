import Mathlib.Data.List.DropRight
import Vzgot.Cpu.Select
import Vzgot.Library.Pieces

/-!
# The `cpuinfo` of a container

`setcpuinfo` (`lib/unicnt.c`) goes through the CPUs of the host and through
`/proc/cpuinfo` at the same time: `duplicate` copies the description of a CPU of the
container, `skipcpuinfo` passes over the one of another CPU. Both read with `fgets`,
into buffers of different sizes. A line of the new file is noted with the place of the
piece of `/proc/cpuinfo` that it was made from (`InfoLine`).
-/

set_option autoImplicit false

namespace Vzgot.Cpu

open Vzgot.Cgroup Vzgot.Pieces Vzgot.Stdio

/-- `action_t` -/
inductive Action where
  | cores
  | model
  | processor
  | sibling
  | keep
  | discard
  deriving DecidableEq

/-- `markers`, up to the closing entry. -/
def markers : List (List Char × Action) :=
  [("power management".toList, Action.discard),
    ("cache_alignment".toList, .keep),
    ("initial apicid".toList, .discard),
    ("addresses sizes".toList, .keep),
    ("fpu_exception".toList, .keep),
    ("physical id".toList, .keep),
    ("model name".toList, .model),
    ("cache size".toList, .keep),
    ("cpu family".toList, .keep),
    ("cpu cores".toList, .cores),
    ("processor".toList, .processor),
    ("vendor_id".toList, .keep),
    ("bogomips".toList, .keep),
    ("siblings".toList, .sibling),
    ("core id".toList, .keep),
    ("cpu MHz".toList, .keep),
    ("clflush".toList, .keep),
    ("apicid".toList, .discard),
    ("model".toList, .keep),
    ("flags".toList, .keep),
    ("fpu".toList, .keep),
    ("wp".toList, .keep)]

/-- Action of the first marker that the line starts with. -/
def actionOf (line : List Char) : Action :=
  match markers.find? fun m => m.1.isPrefixOf line with
  | some m => m.2
  | none => .discard

/-- `apl_cleanstring`: newlines, carriage returns and blanks at the end, then blanks and
tabs at the front. -/
def aplCleanstring (str : List Char) : List Char :=
  (str.rdropWhile fun c => c = '\n' || c = '\r' || c = ' ').dropWhile fun c => c = ' ' || c = '\t'

/-- A line of the new file: where its piece was read, what was done with it, and the text
without the newline. -/
structure InfoLine where
  place : Nat
  action : Action
  text : List Char

/-- What `duplicate` prints for a line with a colon, in front of a newline. -/
def printLine (selected : Int) (numcpu : Nat) (line : List Char) : Option (List Char) :=
  let key := line.takeWhile (· ≠ ':')
  let sep := (line.dropWhile (· ≠ ':')).tail
  match actionOf line with
  | .keep => some (key ++ ':' :: sep)
  | .processor => some (key ++ ": ".toList ++ decimal numcpu)
  | .model => some (key ++ ':' :: sep ++ " [VZGOT Provisioned Core]".toList)
  | .sibling | .cores => some (key ++ ": ".toList ++ printInt selected)
  | .discard => none

/-- `duplicate` goes on behind the piece: something is left of it, and it has a colon. -/
def goesOn (piece : List Char) : Bool :=
  aplCleanstring piece ≠ [] && ':' ∈ aplCleanstring piece

/-- Lines that `duplicate` prints, and what it leaves of the file. The empty line that it
prints at the end is added when the file is put together. -/
def duplicate (selected : Int) (numcpu : Nat) (fin : List Char) : List InfoLine × List Char :=
  let r := read goesOn 898 fin
  (r.pieces.filterMap fun p =>
    let line := aplCleanstring p.2
    (printLine selected numcpu line).map fun text => ⟨p.1, actionOf line, text⟩, r.rest)

/-- `skipcpuinfo` goes on behind the piece. -/
def skipsOn (piece : List Char) : Bool := decide (piece.head? ≠ some '\n')

/-- What `skipcpuinfo` leaves of the file. -/
def skipcpuinfo (fin : List Char) : List Char := (read skipsOn 198 fin).rest

/-- The loop of phase 4 over the rest of the numbers: the lines printed for every CPU of
the container. -/
def copyCpus (hostcpus contcpus : PhyCpu) : List Nat → Nat → List Char → List (List InfoLine)
  | [], _, _ => []
  | i :: is, numcpu, fin =>
      if hostcpus.allocated.isSet i = false then copyCpus hostcpus contcpus is numcpu fin
      else if contcpus.allocated.isSet i = false then
        copyCpus hostcpus contcpus is numcpu (skipcpuinfo fin)
      else
        let r := duplicate contcpus.selected numcpu fin
        r.1 :: copyCpus hostcpus contcpus is (numcpu + 1) r.2

/-- The new file: every CPU with an empty line behind it. -/
def infoText (blocks : List (List InfoLine)) : List Char :=
  blocks.flatMap fun lines => (lines.flatMap fun l => l.text ++ ['\n']) ++ ['\n']

/-- `setcpuinfo`: its result and the blocks written into the file, if it was opened. The
list of the container is always found; the files may not be opened, and the mode of the
new one not set. -/
def setcpuinfo (h : Host) (contcpus : PhyCpu) (fout fchmod : Bool) (fin : Option (List Char)) :
    Bool × Option (List (List InfoLine)) :=
  match sysGetCpuHostList h with
  | (false, _) => (false, none)
  | (true, hostcpus) =>
      match fout, fin with
      | false, _ => (false, none)
      | true, none => (false, some [])
      | true, some text =>
          (fchmod, some (copyCpus hostcpus contcpus (List.range hostcpus.maxcpu.toNat) 0 text))

end Vzgot.Cpu

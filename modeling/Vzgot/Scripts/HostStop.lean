import Mathlib.Data.List.DropRight
import Mathlib.Data.List.Nodup
import Vzgot.Library.While

/-!
# The stop of all containers with the host

`vzgotstop` (`init/sysv/ok_init.sh`) and `stop` of `init/openrc/vzgotrc` source the names
files one after the other in one shell, start `vzgot shutdown` for the containers whose
`first.pid` names a process, and wait until there is none. The host changes while they look
at it: each look at a container is an instant.

The second script empties `HOMEFS` in front of each names file and counts its rounds. The
first one does neither: a file that does not set `HOMEFS` gets the one of a file before
it, and the counter stays at zero (`vzgotstop_right_iff`).
-/

set_option autoImplicit false

namespace Vzgot.HostStop

open While

/-- A names file, as far as the scripts read it: the value that it gives to `HOMEFS`. -/
structure NamesFile where
  name : List Char
  homefs : Option (List Char)

/-- `$CONFDIR/names` in the order of `tostop`. -/
structure Names where
  files : List NamesFile
  nodup : (files.map NamesFile.name).Nodup

/-- The host at an instant: the file `first.pid` of a directory, and the processes. -/
structure Host where
  firstPid : List Char → Option (List Char)
  proc : List Char → Bool

/-- `CONTPID` is set and names an existing process. -/
def Host.running (h : Host) (contdir : List Char) : Bool :=
  let contpid := ((h.firstPid contdir).getD []).rdropWhile (· = '\n')
  contpid ≠ [] && h.proc contpid

/-- `MAXT` -/
def maxt : Nat := 30

/-- What differs between the scripts: whether `HOMEFS` is emptied in front of each names
file, the first value of `t`, what a round adds to it, and the directory that stands for an
empty `VZDIR`. -/
structure Script where
  resets : Bool
  first : Nat
  step : Nat
  dfltDir : List Char

/-- `vzgotstop`. -/
def vzgotstop : Script := ⟨false, 0, 0, []⟩

/-- `stop` of `vzgotrc`. -/
def stop : Script := ⟨true, 1, 1, "/var/lib/vzgot".toList⟩

section Code

variable (sc : Script) (vzdir : List Char) (host : Nat → Host)

/-- `HOMEFS` when the names file has been sourced. -/
def Script.sourced (homefs : List Char) (f : NamesFile) : List Char :=
  f.homefs.getD (if sc.resets then [] else homefs)

/-- `CONTDIR` -/
def Script.contdir (homefs : List Char) (f : NamesFile) : List Char :=
  if homefs = [] then (if vzdir = [] then sc.dfltDir else vzdir) ++ '/' :: f.name else homefs

/-- A loop over the names files from the instant `t` on: the containers that are found
running, and `HOMEFS` behind it. -/
def Script.pass : Nat → List Char → List NamesFile → List (List Char) × List Char
  | _, homefs, [] => ([], homefs)
  | t, homefs, f :: files =>
      let homefs := sc.sourced homefs f
      let r := Script.pass (t + 1) homefs files
      if (host t).running (sc.contdir vzdir homefs f) then (f.name :: r.1, r.2) else r

/-- Variables of the waiting loop, the instant and the rounds. -/
structure Waiting where
  t : Nat
  homefs : List Char
  remain : Nat
  time : Nat
  rounds : Nat

/-- A round of the waiting loop. -/
def Script.round (files : List NamesFile) (s : Waiting) : Waiting :=
  let r := sc.pass vzdir host s.time s.homefs files
  ⟨s.t, r.2, r.1.length, s.time + files.length, s.rounds + 1⟩

/-- A turn of the waiting loop. -/
def Script.turn (files : List NamesFile) (s : Waiting) : Turn Waiting :=
  if s.t < maxt then
    let s := sc.round vzdir host files s
    if s.remain = 0 then .leave s else .again { s with t := s.t + sc.step }
  else .leave s

/-- What a script has done: the containers `vzgot shutdown` is started for, the rounds of
waiting, and the result. -/
structure Outcome where
  started : List (List Char)
  rounds : Nat
  ret : Nat

/-- The script, with `HOMEFS` as the shell has it at the start. -/
def Script.run (fuel : Nat) (homefs : List Char) (names : Names) : Option Outcome :=
  let r := sc.pass vzdir host 0 homefs names.files
  (whileLoop (sc.turn vzdir host names.files) fuel
      ⟨sc.first, r.2, 0, names.files.length, 0⟩).map fun s =>
    ⟨r.1, s.rounds, if s.remain = 0 then 0 else 1⟩

/-- The directory of a container: the one of its own names file, else the one of its name. -/
def Script.ownDir (f : NamesFile) : List Char := sc.contdir vzdir (f.homefs.getD []) f

/-- `vzgot shutdown` is started for exactly the containers whose own `first.pid` names a
process, and the waiting is over after at most `MAXT` rounds. -/
structure Outcome.Right (names : Names) (o : Outcome) : Prop where
  started : ∀ name, name ∈ o.started ↔ ∃ i f, names.files[i]? = some f ∧ f.name = name ∧
    (host i).running (sc.ownDir vzdir f) = true
  rounds : o.rounds ≤ maxt

/-- The script comes to an end and does what it is for. -/
def Script.Stops (homefs : List Char) (names : Names) : Prop :=
  ∃ turns o, (∀ fuel, turns ≤ fuel → sc.run vzdir host fuel homefs names = some o) ∧
    o.Right sc vzdir host names

end Code

/-! ## A loop over the names files -/

section Loops

variable {sc : Script} {vzdir homefs : List Char} {host : Nat → Host} {files : List NamesFile}

/-- `HOMEFS` behind the first `n` files. -/
def Script.homefsAt (sc : Script) (homefs : List Char) (files : List NamesFile) (n : Nat) : List Char :=
  (files.take n).foldl sc.sourced homefs

/-- The container is looked for in the directory that `HOMEFS` is then. -/
def Script.seen (sc : Script) (vzdir homefs : List Char) (host : Nat → Host) (t : Nat)
    (files : List NamesFile) (i : Nat) (f : NamesFile) : Bool :=
  (host (t + i)).running (sc.contdir vzdir (sc.homefsAt homefs files (i + 1)) f)

end Loops

/-! ## The waiting loop -/

section Wait

variable {sc : Script} {vzdir homefs : List Char} {host : Nat → Host} {files : List NamesFile}
variable {s t : Waiting}

/-- A turn that goes on is a round that has found a container running. -/
theorem turn_again (h : sc.turn vzdir host files s = .again t) :
    s.t < maxt ∧ (sc.round vzdir host files s).remain ≠ 0 ∧
      t = { sc.round vzdir host files s with t := s.t + sc.step } := by
  unfold Script.turn at h
  split at h
  · rename_i hless
    dsimp only at h
    split at h
    · cases h
    · rename_i hremain
      cases h
      exact ⟨hless, hremain, rfl⟩
  · cases h

/-- The loop is left behind a round that has found none, or when the counter is over. -/
theorem turn_leave (h : sc.turn vzdir host files s = .leave t) :
    (s.t < maxt ∧ (sc.round vzdir host files s).remain = 0 ∧ t = sc.round vzdir host files s) ∨
      (¬ s.t < maxt ∧ t = s) := by
  unfold Script.turn at h
  split at h
  · rename_i hless
    dsimp only at h
    split at h
    · rename_i hremain
      cases h
      exact .inl ⟨hless, hremain, rfl⟩
    · cases h
  · rename_i hless
    cases h
    exact .inr ⟨hless, rfl⟩

/-- `HOMEFS` behind all names files. -/
def lastHomefs (homefs : List Char) (files : List NamesFile) : List Char :=
  files.foldl vzgotstop.sourced homefs

/-- In the round `k` of waiting no container is found running. -/
def Quiet (vzdir homefs : List Char) (host : Nat → Host) (files : List NamesFile) (k : Nat) : Prop :=
  ∀ i f, files[i]? = some f →
    vzgotstop.seen vzdir (lastHomefs homefs files) host (files.length + k * files.length) files i f = false

end Wait

end Vzgot.HostStop

import Mathlib.Logic.Function.Basic
import Vzgot.Library.Stdio

/-!
# The phases of `lck_locking`

`lck_locking` (`lib/unilck.c`) runs through numbered phases and makes its calls to
the system one after the other. `LckPc` names the call that a running
`lck_locking` makes next, with the local variables still in use, and one function
for each call says where the code goes with its result. `rm_lock` and
`prc_checkprocess` are run in place. An open file is identified with its inode.
-/

set_option autoImplicit false

namespace Vzgot.Lock

open Vzgot.Stdio

/-- Next call of a process in `lck_locking`. The pcs from `mkdir` to `close` belong
to `LCK_LOCK`; `granted` and `refused` are its two results; `unlockMkdir` and
`unlockUnlink` belong to `LCK_UNLOCK`. -/
inductive LckPc where
  | outside
  | mkdir (tentative : Nat)
  | stat (tentative : Nat)
  | openOld (tentative : Nat)
  | check (tentative fd : Nat) (strloc : List Char) (pid : Int)
  | compare (tentative fd : Nat) (strloc : List Char)
  | unlinkOld (tentative fd : Nat) (strloc : List Char)
  | creat
  | flock (handle : Nat)
  | write (handle : Nat)
  | close (handle : Nat)
  | granted
  | refused
  | unlockMkdir
  | unlockUnlink
  deriving DecidableEq

/-- `sizeof(strloc)-1`, the size given to `fgets` in phase 5. -/
def strlocSize : Nat := 79

/-- Contents of `strloc` after the `fgets` of phase 5; it was cleared before. -/
def strlocOf (bytes : List Char) : List Char :=
  cstr ((fgets strlocSize bytes).getD [])

/-- `numid`, the line that phase 8 writes. -/
def numid (pid : Nat) : List Char := printNat true 6 pid ++ ['\n']

/-- `prc_checkprocess`, with the result of its `kill(pid,SIGCHECK)`. -/
def prcCheckprocess (pid : Int) (kill : Bool) : Bool :=
  if pid = 0 then false else if pid = 1 then true else kill

/-- Phase 1: an existing directory is no error. -/
def afterMkdir (tentative : Nat) (ok : Bool) : LckPc :=
  if ok then .stat tentative else .refused

/-- Head of the loop of phase 5. -/
def oldLock (tentative : Nat) : LckPc :=
  if tentative = 0 then .creat else .openOld tentative

/-- End of a round of phase 5 that removed nothing. -/
def nextTry (tentative : Nat) : LckPc :=
  if tentative - 1 = 0 then .refused else .openOld (tentative - 1)

/-- Phases 3 and 4: with no file the code goes to phase 6, with something that is
no regular file it gives up. -/
def afterStat (tentative : Nat) : Option Bool → LckPc
  | none => .creat
  | some false => .refused
  | some true => oldLock tentative

/-- Phase 5 once the old lock is open and its first line read. A line that names a
process has it checked, an empty line goes to `rm_lock`, another line is left
alone. -/
def afterRead (tentative fd : Nat) (strloc : List Char) : LckPc :=
  match scanInt strloc with
  | some pid => .check tentative fd strloc pid
  | none => if strloc = [] then .compare tentative fd strloc else nextTry tentative

/-- Phase 5 after `prc_checkprocess`: only an inactive lock goes to `rm_lock`. -/
def afterCheck (tentative fd : Nat) (strloc : List Char) (active : Bool) : LckPc :=
  if active then nextTry tentative else .compare tentative fd strloc

/-- `rm_lock`, phases 1 to 3: same inode behind the descriptor and the name. -/
def afterCompare (tentative fd : Nat) (strloc : List Char) (same : Bool) : LckPc :=
  if same then .unlinkOld tentative fd strloc else nextTry tentative

/-- `rm_lock`, phase 4: with the lock removed the loop of phase 5 is left. -/
def afterUnlinkOld (tentative : Nat) (ok : Bool) : LckPc :=
  if ok then .creat else nextTry tentative

/-- Phase 6. -/
def afterCreat : Option Nat → LckPc
  | some handle => .flock handle
  | none => .refused

/-- Phase 7. -/
def afterFlock (handle : Nat) (ok : Bool) : LckPc :=
  if ok then .write handle else .refused

/-- Phase 1 of `LCK_UNLOCK`: a process that could not unlock still has its lock. -/
def afterUnlockMkdir (ok : Bool) : LckPc :=
  if ok then .unlockUnlink else .granted

/-- The process has executed its `creat` and not yet the `unlink` of
`LCK_UNLOCK`. -/
def LckPc.owning : LckPc → Bool
  | .flock _ | .write _ | .close _ | .granted | .unlockMkdir | .unlockUnlink => true
  | _ => false

/-- `LCK_LOCK` has returned true and the process has not unlocked since. -/
def LckPc.holding : LckPc → Bool
  | .granted | .unlockMkdir | .unlockUnlink => true
  | _ => false

/-- The lock file is created and the process number not yet written into it. -/
def LckPc.announcing : LckPc → Option Nat
  | .flock i | .write i => some i
  | _ => none

/-- The old lock under examination, with the line read from it. -/
def LckPc.examining : LckPc → Option (Nat × List Char)
  | .check _ fd s _ | .compare _ fd s | .unlinkOld _ fd s => some (fd, s)
  | _ => none

/-- The old lock `rm_lock` is called on, with the line read from it. -/
def LckPc.removing : LckPc → Option (Nat × List Char)
  | .compare _ fd s | .unlinkOld _ fd s => some (fd, s)
  | _ => none

theorem LckPc.owning_of_holding {c : LckPc} (h : c.holding = true) : c.owning = true := by
  cases c <;> simp_all [LckPc.holding, LckPc.owning]

theorem LckPc.examining_of_removing {c : LckPc} {x : Nat × List Char}
    (h : c.removing = some x) : c.examining = some x := by
  cases c <;> simp_all [LckPc.removing, LckPc.examining]

/-- Places of `LCK_LOCK` between two calls on the lock file: nothing created, no
old lock open. -/
def LckPc.idle (c : LckPc) : Prop :=
  c.owning = false ∧ c.examining = none

theorem nextTry_idle (t : Nat) : (nextTry t).idle := by
  unfold nextTry
  split <;> exact ⟨rfl, rfl⟩

theorem oldLock_idle (t : Nat) : (oldLock t).idle := by
  unfold oldLock
  split <;> exact ⟨rfl, rfl⟩

theorem afterMkdir_idle (t : Nat) (ok : Bool) : (afterMkdir t ok).idle := by
  cases ok <;> exact ⟨rfl, rfl⟩

theorem afterStat_idle (t : Nat) (r : Option Bool) : (afterStat t r).idle := by
  match r with
  | none => exact ⟨rfl, rfl⟩
  | some false => exact ⟨rfl, rfl⟩
  | some true => exact oldLock_idle t

/-! ## The line that names the owner -/

/-- A process number, as the system hands them out. -/
def PidRange (p : Nat) : Prop := 0 < p ∧ p < 2 ^ 31

instance (p : Nat) : Decidable (PidRange p) := inferInstanceAs (Decidable (_ ∧ _))

theorem numid_ne_nil (p : Nat) : numid p ≠ [] := by
  simp [numid]

theorem scanInt_numid (p : Nat) : scanInt (numid p) = some (p : Int) :=
  scanInt_printNat true 6 p (by decide) []

/-- What phase 8 writes is what phase 5 of another process reads. -/
theorem strlocOf_numid {p : Nat} (hp : PidRange p) : strlocOf (numid p) = numid p := by
  have hlen : (printNat true 6 p).length ≤ max 6 (10 + 1) :=
    printNat_length_le true 6 (by decide) (lt_of_lt_of_le hp.2 (by decide))
  have hsize : (printNat true 6 p).length + 1 < strlocSize := by
    simp only [strlocSize]
    omega
  obtain ⟨hread, -⟩ := scanInt_fgets_printNat true 6 p hsize []
  rw [strlocOf, numid, hread, Option.getD_some, cstr_printNat]

theorem strlocOf_nil : strlocOf [] = [] := rfl

end Vzgot.Lock

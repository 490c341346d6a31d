import Vzgot.Library.Transition
import Vzgot.Lock.Locking

/-!
# Processes sharing one lock file

Any number of processes call `lck_locking` on the same `ident`. One event of
`lockStep` is one call to the system of one process, taken as atomic, or a process
that starts a call, exits or appears. `LockDir` is the file system as far as the
lock path can see it: a directory entry and inodes that outlive it.
-/

set_option autoImplicit false

namespace Vzgot.Lock

open Vzgot.Transition

/-- An inode. -/
structure File where
  regular : Bool
  bytes : List Char

/-- The lock path with the inodes it can name: `path` is the inode behind the name,
and inodes are handed out in order from `next`. -/
structure LockDir where
  path : Option Nat
  next : Nat
  node : Nat → File
  path_lt : ∀ i, path = some i → i < next

/-- Makes the lock path name a new empty regular file. -/
def LockDir.bindNew (d : LockDir) : LockDir where
  path := some d.next
  next := d.next + 1
  node := Function.update d.node d.next ⟨true, []⟩
  path_lt := by
    intro i hi
    rw [← Option.some.inj hi]
    exact Nat.lt_succ_self _

/-- Replaces the contents of the inode `i`. -/
def LockDir.setBytes (d : LockDir) (i : Nat) (bytes : List Char) : LockDir :=
  { d with node := Function.update d.node i { d.node i with bytes := bytes } }

/-- `unlink` of the lock path. -/
def LockDir.unlink (d : LockDir) : LockDir :=
  { d with path := none, path_lt := fun _ h => nomatch h }

/-- `stat` of the lock path: `S_ISREG`, or `none` without a file. -/
def LockDir.stat (d : LockDir) : Option Bool := d.path.map fun i => (d.node i).regular

/-- `creat` of the lock path: a new file, or an old regular file truncated. -/
def LockDir.creat (d : LockDir) : Option (Nat × LockDir) :=
  match d.path with
  | none => some (d.next, d.bindNew)
  | some i => if (d.node i).regular then some (i, d.setBytes i []) else none

@[simp] theorem LockDir.bindNew_path (d : LockDir) : d.bindNew.path = some d.next := rfl
@[simp] theorem LockDir.bindNew_next (d : LockDir) : d.bindNew.next = d.next + 1 := rfl
@[simp] theorem LockDir.bindNew_node (d : LockDir) :
    d.bindNew.node = Function.update d.node d.next ⟨true, []⟩ := rfl
@[simp] theorem LockDir.setBytes_path (d : LockDir) (i : Nat) (b : List Char) :
    (d.setBytes i b).path = d.path := rfl
@[simp] theorem LockDir.setBytes_next (d : LockDir) (i : Nat) (b : List Char) :
    (d.setBytes i b).next = d.next := rfl
@[simp] theorem LockDir.setBytes_bytes (d : LockDir) (i : Nat) (b : List Char) :
    ((d.setBytes i b).node i).bytes = b := by
  simp [LockDir.setBytes]
@[simp] theorem LockDir.unlink_path (d : LockDir) : d.unlink.path = none := rfl
@[simp] theorem LockDir.unlink_next (d : LockDir) : d.unlink.next = d.next := rfl
@[simp] theorem LockDir.unlink_node (d : LockDir) : d.unlink.node = d.node := rfl

/-- The host: the lock path, the holder of the `flock` on each inode, the live
processes, and the place of each process in `lck_locking`. -/
structure World where
  dir : LockDir
  flocker : Nat → Option Nat
  alive : Nat → Bool
  pc : Nat → LckPc

/-- Answer of the system to a call: the call does its work, it fails, or (for
`write`) only the first bytes are written. -/
inductive Reply where
  | done
  | fault
  | short (n : Nat)
  deriving DecidableEq

/-- One event: a process calls `lck_locking` with `LCK_LOCK` or with `LCK_UNLOCK`,
makes its next call to the system, exits, or appears. -/
inductive LockEvent where
  | lock (pid tentative : Nat)
  | unlock (pid : Nat)
  | call (pid : Nat) (reply : Reply)
  | exit (pid : Nat)
  | fork (pid : Nat)

/-- Moves the process `p` to the place `c`. -/
def World.goto (w : World) (p : Nat) (c : LckPc) : World :=
  { w with pc := Function.update w.pc p c }

/-- `kill(pid,0)==0`. A number below 1 stands for a process group, whose answer is
left open. -/
def World.kill0 (w : World) (pid : Int) (reply : Reply) : Bool :=
  if 0 < pid then w.alive pid.toNat else reply = .done

/-- Bytes of a file after `write` at its start. -/
def overwrite (old new : List Char) : List Char := new ++ old.drop new.length

/-- The pending call of the process `p`. `flock` waits while another process holds
the inode. -/
def World.perform (w : World) (p : Nat) (r : Reply) : Option World :=
  match w.pc p with
  | .mkdir t => some (w.goto p (afterMkdir t (r ≠ .fault)))
  | .stat t => some (w.goto p (afterStat t (if r = .fault then none else w.dir.stat)))
  | .openOld t =>
      match (if r = .fault then none else w.dir.path) with
      | none => some (w.goto p .creat)
      | some fd => some (w.goto p (afterRead t fd (strlocOf (w.dir.node fd).bytes)))
  | .check t fd s pid =>
      some (w.goto p (afterCheck t fd s (prcCheckprocess pid (w.kill0 pid r))))
  | .compare t fd s =>
      some (w.goto p (afterCompare t fd s (r ≠ .fault ∧ w.dir.path = some fd)))
  | .unlinkOld t _ _ =>
      if r = .fault ∨ w.dir.path = none then some (w.goto p (afterUnlinkOld t false))
      else some ({ w with dir := w.dir.unlink }.goto p (afterUnlinkOld t true))
  | .creat =>
      match (if r = .fault then none else w.dir.creat) with
      | none => some (w.goto p (afterCreat none))
      | some (i, d) => some ({ w with dir := d }.goto p (afterCreat (some i)))
  | .flock i =>
      if r = .fault then some (w.goto p (afterFlock i false))
      else if w.flocker i = none then
        some ({ w with flocker := Function.update w.flocker i (some p) }.goto p (afterFlock i true))
      else none
  | .write i =>
      let new := match r with
        | .done => numid p
        | .fault => []
        | .short n => (numid p).take n
      some ({ w with dir := w.dir.setBytes i (overwrite (w.dir.node i).bytes new) }.goto p (.close i))
  | .close i =>
      some ({ w with flocker := Function.update w.flocker i none }.goto p .granted)
  | .unlockMkdir => some (w.goto p (afterUnlockMkdir (r ≠ .fault)))
  | .unlockUnlink =>
      if r = .fault then some (w.goto p .outside)
      else some ({ w with dir := w.dir.unlink }.goto p .outside)
  | .outside | .granted | .refused => none

/-- One event. `LCK_UNLOCK` is called only by a process whose `LCK_LOCK` returned
true; an exiting process drops its locks; a number is given again only once it is
free. -/
def lockStep (w : World) : LockEvent → Option World
  | .lock p t =>
      if w.alive p ∧ PidRange p ∧ 0 < t ∧ (w.pc p = .outside ∨ w.pc p = .refused) then
        some (w.goto p (.mkdir t))
      else none
  | .unlock p =>
      if w.alive p ∧ w.pc p = .granted then some (w.goto p .unlockMkdir) else none
  | .call p r => if w.alive p then w.perform p r else none
  | .exit p =>
      if w.alive p then
        some ({ w with
          alive := Function.update w.alive p false
          flocker := fun i => if w.flocker i = some p then none else w.flocker i }.goto p .outside)
      else none
  | .fork p =>
      if w.alive p then none
      else some ({ w with alive := Function.update w.alive p true }.goto p .outside)

/-- No process is in `lck_locking` and none holds the lock; the lock file may be
absent, empty or have any contents. -/
def Quiet (w : World) : Prop := ∀ p, w.pc p = .outside

/-- The live process `p` has been given the lock and has not unlocked since. -/
def World.Holding (w : World) (p : Nat) : Prop := w.alive p = true ∧ (w.pc p).holding = true

/-- The live process `p` has created the lock file and has not unlocked since. -/
def World.Owning (w : World) (p : Nat) : Prop := w.alive p = true ∧ (w.pc p).owning = true

/-! ## What one event can do -/

@[simp] theorem World.goto_dir (w : World) (p : Nat) (c : LckPc) : (w.goto p c).dir = w.dir := rfl
@[simp] theorem World.goto_alive (w : World) (p : Nat) (c : LckPc) :
    (w.goto p c).alive = w.alive := rfl
@[simp] theorem World.goto_pc_self (w : World) (p : Nat) (c : LckPc) : (w.goto p c).pc p = c :=
  Function.update_self ..
@[simp] theorem World.goto_pc_of_ne (w : World) {p q : Nat} (c : LckPc) (h : q ≠ p) :
    (w.goto p c).pc q = w.pc q :=
  Function.update_of_ne h ..

/-- A call to the system moves its own process, and may change the lock path, the
inodes and the `flock` holders; nothing else. -/
theorem World.perform_eq {w w' : World} {p : Nat} {r : Reply} (h : w.perform p r = some w') :
    ∃ d f c, w' = ({ w with dir := d, flocker := f } : World).goto p c := by
  unfold World.perform at h
  cases hpc : w.pc p <;> simp only [hpc] at h
  all_goals first
    | cases h
    | (split at h <;> first
        | (cases h; exact ⟨_, _, _, rfl⟩)
        | (split at h
           · cases h; exact ⟨_, _, _, rfl⟩
           · cases h))
  all_goals exact ⟨_, _, _, rfl⟩

/-- The process an event is about. -/
def LockEvent.actor : LockEvent → Nat
  | .lock p _ | .unlock p | .call p _ | .exit p | .fork p => p

theorem owning_goto_of_ne {w : World} {p q : Nat} (c : LckPc) (hqp : q ≠ p) :
    (w.goto p c).Owning q ↔ w.Owning q := by
  simp [World.Owning, hqp]

theorem owning_goto_self {w : World} {p : Nat} {c : LckPc} :
    (w.goto p c).Owning p ↔ w.alive p = true ∧ c.owning = true := by
  simp [World.Owning]

/-- An event leaves every other process where it is. -/
theorem lockStep_frame {w w' : World} {e : LockEvent} (h : lockStep w e = some w') {q : Nat}
    (hq : q ≠ e.actor) : w'.Owning q ↔ w.Owning q := by
  cases e with
  | lock p t =>
      simp only [lockStep, Option.ite_none_right_eq_some, Option.some.injEq] at h
      exact h.2 ▸ owning_goto_of_ne _ hq
  | unlock p =>
      simp only [lockStep, Option.ite_none_right_eq_some, Option.some.injEq] at h
      exact h.2 ▸ owning_goto_of_ne _ hq
  | call p r =>
      simp only [lockStep, Option.ite_none_right_eq_some] at h
      obtain ⟨d, f, c, rfl⟩ := World.perform_eq h.2
      exact owning_goto_of_ne (w := { w with dir := d, flocker := f }) c hq
  | exit p =>
      change q ≠ p at hq
      simp only [lockStep, Option.ite_none_right_eq_some, Option.some.injEq] at h
      rw [← h.2, owning_goto_of_ne _ hq]
      simp [World.Owning, hq]
  | fork p =>
      change q ≠ p at hq
      simp only [lockStep, Option.ite_none_left_eq_some, Option.some.injEq] at h
      rw [← h.2, owning_goto_of_ne _ hq]
      simp [World.Owning, hq]

end Vzgot.Lock

import Vzgot.Library.Pieces
import Vzgot.Library.Retry
import Vzgot.Lock.Locking

/-!
# `lck_locking` alone on the lock path

One call of `lck_locking` (`lib/unilck.c`) with `LCK_LOCK`, while no other process touches
the lock path: a function of what stands there and of the results of the system calls
(`Calls`). It always comes to an end. It is honest (`Honest`) if a lock that is granted
can be read back, and if the lock file of a live process is refused and left as it is.

Three failures are not looked at. A `write` that stores too little is logged, and the lock
is granted all the same. A `stat` or an `open` that fails is taken for a missing file, so
that `creat` truncates the lock of a live process; a line that cannot be read is taken
for an empty one, and the lock of a live process is removed. And a failed `fdopen` gives a
null pointer to `fgets`. `lckLocking_honest_iff` says that there is nothing else.
-/

set_option autoImplicit false

namespace Vzgot.Lock

open Vzgot.Pieces Vzgot.Retry Vzgot.Stdio

/-! ## The lock path -/

/-- What the lock path leads to. -/
inductive LockNode where
  | absent
  | regular (bytes : List Char)
  | special
  deriving DecidableEq

/-- The lock path, with a symbolic link on it or not. -/
structure LockPath where
  linked : Bool
  node : LockNode
  deriving DecidableEq

namespace LockPath

/-- The path behind `unlink`. -/
def removed : LockPath := ⟨false, .absent⟩

/-- `stat`: `S_ISREG`, or nothing without a file. -/
def stat (p : LockPath) : Option Bool :=
  match p.node with
  | .absent => none
  | .regular _ => some true
  | .special => some false

/-- `open` with `O_NOFOLLOW`: a link is not opened. -/
def openOld (p : LockPath) : Option (List Char) :=
  match p.linked, p.node with
  | false, .regular bytes => some bytes
  | _, _ => none

/-- `creat`: a new file, or an old one truncated; another kind of file stays what it is. -/
def creat (p : LockPath) : LockPath :=
  match p.node with
  | .special => p
  | _ => { p with node := .regular [] }

/-- `write` of these bytes behind `creat`. -/
def write (p : LockPath) (bytes : List Char) : LockPath :=
  match p.node with
  | .regular _ => { p with node := .regular bytes }
  | _ => p

/-- The process that the first line names, as phase 5 reads it. -/
def owner (p : LockPath) : Option Int :=
  match p.node with
  | .regular bytes => scanInt (strlocOf bytes)
  | _ => none

/-- A regular lock file that names a live process. -/
def NamesLive (alive : Int → Prop) (p : LockPath) : Prop :=
  p.linked = false ∧ ∃ pid, p.owner = some pid ∧ 0 < pid ∧ alive pid

end LockPath

/-! ## The phases -/

/-- Results of the calls in one round of phase 5; `kill` says that the process answers. -/
structure Round where
  openOld : Bool
  fdopen : Bool
  fgets : Bool
  kill : Bool
  fileno : Bool
  fstat : Bool
  lstat : Bool
  unlink : Bool

/-- Results of all calls: `mkdir` also succeeds on an existing directory, `round` is the
round with so many tentatives left, and `written` is what `write` stores, nothing when it
fails. -/
structure Calls where
  appdir : Bool
  mkdir : Bool
  stat : Bool
  round : Nat → Round
  creat : Bool
  flock : Bool
  written : Nat

/-- `rm_lock`: with no other process around, the descriptor and the name are the same
inode. -/
def rmLock (r : Round) : Bool := r.fileno && r.fstat && r.lstat && r.unlink

/-- How a round ends the loop of phase 5. -/
inductive RoundEnd where
  | crashed
  | missing
  | removed
  deriving DecidableEq

/-- The line in `strloc` sends the lock to `rm_lock`: it names an inactive process, or it
is empty. -/
def stale (r : Round) (strloc : List Char) : Bool :=
  match scanInt strloc with
  | some pid => !prcCheckprocess pid r.kill
  | none => strloc = []

/-- One round of phase 5, if it ends the loop. `strloc` stays cleared when `fgets` fails. -/
def oldLockRound (r : Round) (p : LockPath) : Option RoundEnd :=
  match (if r.openOld then p.openOld else none) with
  | none => some .missing
  | some bytes =>
      if r.fdopen = false then some .crashed
      else if stale r (if r.fgets then strlocOf bytes else []) && rmLock r then some .removed
      else none

/-- Phases 6 to 8: the result is true even where `write` failed. -/
def phase6 (c : Calls) (pid : Nat) (p : LockPath) : Bool × LockPath :=
  if c.creat = false then (false, p)
  else if c.flock = false then (false, p.creat)
  else (true, p.creat.write ((numid pid).take c.written))

/-- Phase 5, with so many tentatives left. -/
def phase5 (c : Calls) (pid : Nat) (p : LockPath) : Nat → Option (Bool × LockPath)
  | 0 => some (phase6 c pid p)
  | n + 1 =>
      match oldLockRound (c.round (n + 1)) p with
      | some .crashed => none
      | some .missing => some (phase6 c pid p)
      | some .removed => some (phase6 c pid .removed)
      | none => if n = 0 then some (false, p) else phase5 c pid p n

/-- `lck_locking` with `LCK_LOCK`: its result, and what stands on the lock path then;
nothing if the process crashes. -/
def lckLocking (c : Calls) (pid tentative : Nat) (p : LockPath) : Option (Bool × LockPath) :=
  if c.appdir = false then some (false, p)
  else if c.mkdir = false then some (false, p)
  else
    match (if c.stat then p.stat else none) with
    | none => some (phase6 c pid p)
    | some false => some (false, p)
    | some true => phase5 c pid p tentative

/-! ## Honest results -/

/-- It returns; a granted lock reads back as the caller's; the lock of a live process is
refused and left alone. -/
def Honest (alive : Int → Prop) (pid : Nat) (p : LockPath) : Option (Bool × LockPath) → Prop
  | none => False
  | some (done, p') =>
      (done = true → p'.owner = some (pid : Int)) ∧ (p.NamesLive alive → done = false ∧ p' = p)

/-- Phase 3 is reached. -/
def Calls.Starts (c : Calls) : Prop := c.appdir = true ∧ c.mkdir = true

/-- The rounds of phase 5 end like this. -/
def Calls.Ends (c : Calls) (p : LockPath) (tentative : Nat) (e : RoundEnd) : Prop :=
  c.stat = true ∧ p.stat = some true ∧
    Settles (fun t => oldLockRound (c.round t) p) tentative e

/-- No file is found, or the file cannot be looked at. -/
def Calls.Misses (c : Calls) (p : LockPath) (tentative : Nat) : Prop :=
  c.stat = false ∨ p.stat = none ∨ c.Ends p tentative .missing

/-- The results of the calls that keep `lck_locking` honest. -/
structure Sound (alive : Int → Prop) (c : Calls) (pid tentative : Nat) (p : LockPath) : Prop where
  /-- Every file that is opened gets its stream. -/
  streams : c.Starts → ¬c.Ends p tentative .crashed
  /-- The lock of a live process is not removed, and not created where it was missed. -/
  spares : c.Starts → p.NamesLive alive →
    ¬c.Ends p tentative .removed ∧ (c.Misses p tentative → c.creat = false)
  /-- A lock that is made is a file, and the number is written up to its last digit. -/
  writes : c.Starts → c.Misses p tentative ∨ c.Ends p tentative .removed → c.creat = true →
    c.flock = true → p.node ≠ .special ∧ (printNat true 6 pid).length ≤ c.written

/-! ## The number that is written -/

theorem printNat_length_lt {pid : Nat} (hpid : PidRange pid) :
    (printNat true 6 pid).length < 12 := by
  have hlen : (printNat true 6 pid).length ≤ max 6 (10 + 1) :=
    printNat_length_le true 6 (by decide) (lt_of_lt_of_le hpid.2 (by decide))
  omega

/-- The beginning of the number, without the newline, is read as it is. -/
theorem strlocOf_take {pid n : Nat} (hpid : PidRange pid)
    (hn : n ≤ (printNat true 6 pid).length) :
    strlocOf ((numid pid).take n) = (printNat true 6 pid).take n := by
  have htake : (numid pid).take n = (printNat true 6 pid).take n :=
    List.take_append_of_le_length hn
  have hmem {c : Char} (hblank : c ≠ ' ') (hdigit : c.isDigit = false) :
      c ∉ (printNat true 6 pid).take n :=
    fun h => not_mem_printNat hblank hdigit true 6 pid (List.mem_of_mem_take h)
  have hlen := printNat_length_lt hpid
  rw [strlocOf, htake]
  generalize hs : (printNat true 6 pid).take n = s at hmem ⊢
  have hshort : s.length ≤ 78 := by
    rw [← hs, List.length_take]
    omega
  have hcstr : cstr s = s := cstr_of_not_mem (hmem (by decide) (by decide))
  by_cases hnil : s = []
  · subst hnil
    rfl
  · rw [fgets, if_neg hnil, takeLine_last (hmem (by decide) (by decide)), strlocSize,
      List.take_of_length_le hshort, Option.getD_some, hcstr]

/-- The number is read back just when all its digits were stored. -/
theorem scanInt_take_iff {pid : Nat} (hpid : PidRange pid) (n : Nat) :
    scanInt (strlocOf ((numid pid).take n)) = some (pid : Int) ↔
      (printNat true 6 pid).length ≤ n := by
  -- cut behind the newline, in the blanks, or in the digits
  by_cases hall : (numid pid).length ≤ n
  · rw [List.take_of_length_le hall, strlocOf_numid hpid, scanInt_numid]
    have hlen : (numid pid).length = (printNat true 6 pid).length + 1 := by simp [numid]
    exact iff_of_true rfl (by omega)
  have hn : n ≤ (printNat true 6 pid).length := by
    simp only [numid, List.length_append, List.length_singleton] at hall
    omega
  rw [strlocOf_take hpid hn]
  obtain ⟨k, hk⟩ := printNat_eq true 6 pid
  have hlen : (printNat true 6 pid).length = k + (Nat.toDigits 10 pid).length := by
    rw [hk, List.length_append, List.length_replicate]
  rw [hlen] at hn ⊢
  by_cases hblank : n ≤ k
  · -- blanks only
    have hnone : scanInt ((printNat true 6 pid).take n) = none := by
      have hspace : ∀ c ∈ List.replicate (min n k) ' ', isSpace c = true := by
        intro c hc
        rw [(List.mem_replicate.mp hc).2]
        rfl
      rw [hk, List.take_append_of_le_length (by simpa using hblank), List.take_replicate, scanInt,
        List.dropWhile_eq_nil_iff.mpr hspace]
      rfl
    have hpos := List.length_pos_iff.mpr (Nat.toDigits_ne_nil (n := pid) (b := 10))
    rw [hnone]
    exact iff_of_false (Option.some_ne_none _ ∘ Eq.symm) (by omega)
  obtain ⟨j, rfl⟩ : ∃ j, n = k + j := ⟨n - k, by omega⟩
  have hdigits : (Nat.toDigits 10 pid).take j ≠ [] := by
    rw [Ne, List.take_eq_nil_iff]
    rintro (h | h)
    · omega
    · exact Nat.toDigits_ne_nil h
  have hsome : scanInt ((printNat true 6 pid).take (k + j)) =
      some (Nat.ofDigitChars 10 ((Nat.toDigits 10 pid).take j) 0 : Int) := by
    have hnothing : ∀ c ∈ ([] : List Char).head?, c.isDigit = false := by simp
    have hscan := scanInt_digits k hdigits
      (fun c hc => isDigit_of_mem_toDigits (List.mem_of_mem_take hc)) hnothing
    rw [List.append_nil] at hscan
    rw [hk, List.take_append, List.length_replicate, Nat.add_sub_cancel_left,
      List.take_of_length_le (by simp), hscan]
  rw [hsome, Option.some_inj, Int.ofNat_inj]
  -- without its last digits the number is smaller
  by_cases hj : j < (Nat.toDigits 10 pid).length
  · exact iff_of_false (ofDigitChars_take_lt hpid.1 hj).ne (by omega)
  · rw [List.take_of_length_le (by omega), Nat.ofDigitChars_ten_toDigits]
    exact iff_of_true rfl (by omega)

/-! ## Making the lock -/

section Making

variable {alive : Int → Prop} {c : Calls} {pid tentative : Nat} {p q : LockPath}

theorem phase6_granted : (phase6 c pid q).1 = true ↔ c.creat = true ∧ c.flock = true := by
  cases hcreat : c.creat <;> cases hflock : c.flock <;> simp [phase6, hcreat, hflock]

theorem write_owner (hpid : PidRange pid) (n : Nat) :
    (q.creat.write ((numid pid).take n)).owner = some (pid : Int) ↔
      q.node ≠ .special ∧ (printNat true 6 pid).length ≤ n := by
  obtain ⟨linked, node⟩ := q
  cases node with
  | absent => simp [LockPath.creat, LockPath.write, LockPath.owner, scanInt_take_iff hpid]
  | regular bytes => simp [LockPath.creat, LockPath.write, LockPath.owner, scanInt_take_iff hpid]
  | special => simp [LockPath.creat, LockPath.write, LockPath.owner]

/-- A granted lock reads back just when it is a file with the whole number. -/
theorem phase6_owner_iff (hpid : PidRange pid) :
    ((phase6 c pid q).1 = true → (phase6 c pid q).2.owner = some (pid : Int)) ↔
      (c.creat = true → c.flock = true →
        q.node ≠ .special ∧ (printNat true 6 pid).length ≤ c.written) := by
  rw [phase6_granted, and_imp]
  refine imp_congr_right fun hcreat => imp_congr_right fun hflock => ?_
  rw [phase6, if_neg (by simp [hcreat]), if_neg (by simp [hflock]), write_owner hpid]

/-- Nothing that phase 6 leaves behind `creat` names a process before `write`. -/
theorem creat_owner : q.creat.owner = none := by
  obtain ⟨linked, node⟩ := q
  cases node <;> rfl

/-- The lock of a live process is left alone just where `creat` fails on it. -/
theorem phase6_kept_iff (hlive : p.NamesLive alive) :
    ((phase6 c pid q).1 = false ∧ (phase6 c pid q).2 = p) ↔ c.creat = false ∧ q = p := by
  cases hcreat : c.creat with
  | false => simp [phase6, hcreat]
  | true =>
      cases hflock : c.flock with
      | false =>
          -- refused, but `creat` has emptied the file
          obtain ⟨-, pid, howner, -⟩ := hlive
          have hne : q.creat ≠ p := by
            rintro rfl
            exact Option.some_ne_none pid (howner.symm.trans creat_owner)
          simp [phase6, hcreat, hflock, hne]
      | true => simp [phase6, hcreat, hflock]

theorem LockPath.NamesLive.ne_removed (hlive : p.NamesLive alive) : LockPath.removed ≠ p := by
  obtain ⟨-, pid, howner, -⟩ := hlive
  rintro rfl
  exact Option.some_ne_none pid howner.symm

theorem LockPath.NamesLive.regular (hlive : p.NamesLive alive) : p.stat = some true := by
  obtain ⟨linked, node⟩ := p
  obtain ⟨-, pid, howner, -⟩ := hlive
  cases node with
  | absent => exact absurd howner (Option.some_ne_none pid ∘ Eq.symm)
  | regular bytes => rfl
  | special => exact absurd howner (Option.some_ne_none pid ∘ Eq.symm)

end Making

theorem LockPath.NamesLive.openOld_ne_none {alive : Int → Prop} {p : LockPath}
    (hlive : p.NamesLive alive) : p.openOld ≠ none := by
  obtain ⟨linked, node⟩ := p
  obtain ⟨hlinked, pid, howner, -⟩ := hlive
  cases hlinked
  cases node with
  | absent => exact absurd howner (Option.some_ne_none pid ∘ Eq.symm)
  | regular bytes => exact Option.some_ne_none bytes
  | special => exact absurd howner (Option.some_ne_none pid ∘ Eq.symm)

/-! ## The old lock -/

section Rounds

variable {r : Round} {p : LockPath}

/-- What ends a round, and how. -/
theorem oldLockRound_eq_some {e : RoundEnd} (h : oldLockRound r p = some e) :
    (e = .missing ∧ (r.openOld = false ∨ p.openOld = none)) ∨
      (e = .crashed ∧ r.fdopen = false) ∨
        (e = .removed ∧ rmLock r = true ∧ ∃ bytes, p.openOld = some bytes ∧
          stale r (if r.fgets then strlocOf bytes else []) = true) := by
  rw [oldLockRound] at h
  cases hopen : (if r.openOld then p.openOld else none) with
  | none =>
      rw [hopen] at h
      refine Or.inl ⟨(Option.some.inj h).symm, ?_⟩
      cases hcall : r.openOld with
      | false => exact Or.inl rfl
      | true => exact Or.inr (by simpa [hcall] using hopen)
  | some bytes =>
      have hbytes : p.openOld = some bytes := by
        cases hcall : r.openOld with
        | false => simp [hcall] at hopen
        | true => simpa [hcall] using hopen
      rw [hopen] at h
      simp only at h
      by_cases hfdopen : r.fdopen = false
      · rw [if_pos hfdopen] at h
        exact Or.inr (Or.inl ⟨(Option.some.inj h).symm, hfdopen⟩)
      · rw [if_neg hfdopen] at h
        obtain ⟨hend, he⟩ := Option.ite_none_right_eq_some.mp h
        obtain ⟨hstale, hrm⟩ := Bool.and_eq_true_iff.mp hend
        exact Or.inr (Or.inr ⟨(Option.some.inj he).symm, hrm, bytes, hbytes, hstale⟩)

theorem round_crashed (h : oldLockRound r p = some .crashed) : r.fdopen = false := by
  rcases oldLockRound_eq_some h with ⟨h, -⟩ | ⟨-, h⟩ | ⟨h, -⟩
  · cases h
  · exact h
  · cases h

theorem round_missing (h : oldLockRound r p = some .missing) :
    r.openOld = false ∨ p.openOld = none := by
  rcases oldLockRound_eq_some h with ⟨-, h⟩ | ⟨h, -⟩ | ⟨h, -⟩
  · exact h
  · cases h
  · cases h

/-- A lock whose line was read is removed only if the process does not answer. -/
theorem round_removed (h : oldLockRound r p = some .removed) (hread : r.fgets = true) {pid : Int}
    (howner : p.owner = some pid) : prcCheckprocess pid r.kill = false := by
  rcases oldLockRound_eq_some h with ⟨h, -⟩ | ⟨h, -⟩ | ⟨-, -, bytes, hopen, hstale⟩
  · cases h
  · cases h
  · have hscan : scanInt (strlocOf bytes) = some pid := by
      obtain ⟨linked, node⟩ := p
      cases linked <;> cases node <;> cases hopen
      exact howner
    simpa [stale, hread, hscan] using hstale

end Rounds

/-- Phase 5 is a countdown of the rounds. -/
theorem phase5_eq (c : Calls) (pid : Nat) (p : LockPath) {n : Nat} (hn : 0 < n) :
    phase5 c pid p n =
      match countdown (fun t => oldLockRound (c.round t) p) n with
      | some .crashed => none
      | some .missing => some (phase6 c pid p)
      | some .removed => some (phase6 c pid .removed)
      | none => some (false, p) := by
  induction n with
  | zero => omega
  | succ n ih =>
      rw [phase5, countdown]
      cases hround : oldLockRound (c.round (n + 1)) p with
      | some e => cases e <;> simp
      | none =>
          by_cases hzero : n = 0
          · subst hzero
            rfl
          · simp only [if_neg hzero]
            exact ih (Nat.pos_of_ne_zero hzero)

/-- What the rounds come to. -/
theorem phase5_cases (c : Calls) (pid : Nat) (p : LockPath) {n : Nat} (hn : 0 < n) :
    (∃ e, Settles (fun t => oldLockRound (c.round t) p) n e ∧
        phase5 c pid p n = match e with
          | .crashed => none
          | .missing => some (phase6 c pid p)
          | .removed => some (phase6 c pid .removed)) ∨
      ((∀ e, ¬Settles (fun t => oldLockRound (c.round t) p) n e) ∧
        phase5 c pid p n = some (false, p)) := by
  rw [phase5_eq c pid p hn]
  cases hend : countdown (fun t => oldLockRound (c.round t) p) n with
  | some e =>
      refine Or.inl ⟨e, countdown_eq_some.mp hend, ?_⟩
      cases e <;> rfl
  | none =>
      refine Or.inr ⟨fun e he => ?_, rfl⟩
      exact Option.some_ne_none e ((countdown_eq_some.mpr he).symm.trans hend)

/-! ## Honest just under these results -/

section Result

variable {alive : Int → Prop} {c : Calls} {pid tentative : Nat} {p : LockPath}

theorem Calls.Ends.unique {e e' : RoundEnd} (h : c.Ends p tentative e)
    (h' : c.Ends p tentative e') : e = e' :=
  h.2.2.unique h'.2.2

/-- A phase 6 that works on `q` behind a lock path `p`. -/
theorem honest_phase6_iff (hpid : PidRange pid) {q : LockPath} :
    Honest alive pid p (some (phase6 c pid q)) ↔
      (c.creat = true → c.flock = true →
          q.node ≠ .special ∧ (printNat true 6 pid).length ≤ c.written) ∧
        (p.NamesLive alive → c.creat = false ∧ q = p) :=
  and_congr (phase6_owner_iff hpid) (forall_congr' fun hlive => phase6_kept_iff hlive)

theorem honest_refused : Honest alive pid p (some (false, p)) :=
  ⟨fun h => absurd h Bool.false_ne_true, fun _ => ⟨rfl, rfl⟩⟩

theorem sound_of_not_starts (h : ¬c.Starts) : Sound alive c pid tentative p :=
  ⟨fun hs => absurd hs h, fun hs => absurd hs h, fun hs => absurd hs h⟩

/-- A file that is missed, or not there: `creat` works on the lock path as it stands. -/
theorem sound_missed_iff (hstart : c.Starts) (hmiss : c.Misses p tentative)
    (hother : ∀ e, c.Ends p tentative e → e = .missing) :
    Sound alive c pid tentative p ↔
      (c.creat = true → c.flock = true →
          p.node ≠ .special ∧ (printNat true 6 pid).length ≤ c.written) ∧
        (p.NamesLive alive → c.creat = false ∧ p = p) := by
  have hcrashed : ¬c.Ends p tentative .crashed := fun h => RoundEnd.noConfusion (hother _ h)
  have hremoved : ¬c.Ends p tentative .removed := fun h => RoundEnd.noConfusion (hother _ h)
  constructor
  · intro h
    exact ⟨h.writes hstart (Or.inl hmiss),
      fun hlive => ⟨(h.spares hstart hlive).2 hmiss, rfl⟩⟩
  · rintro ⟨hwrites, hspares⟩
    exact ⟨fun _ => hcrashed, fun _ hlive => ⟨hremoved, fun _ => (hspares hlive).1⟩,
      fun _ _ => hwrites⟩

/-- An old lock that is removed: `creat` works on a free path. -/
theorem sound_removed_iff (hstart : c.Starts) (hend : c.Ends p tentative .removed) :
    Sound alive c pid tentative p ↔
      (c.creat = true → c.flock = true →
          LockPath.removed.node ≠ .special ∧ (printNat true 6 pid).length ≤ c.written) ∧
        (p.NamesLive alive → c.creat = false ∧ LockPath.removed = p) := by
  have hnode : p.node ≠ .special := by
    intro hspecial
    have hstat := hend.2.1
    rw [LockPath.stat, hspecial] at hstat
    exact absurd hstat (by decide)
  have hcrashed : ¬c.Ends p tentative .crashed := fun h => RoundEnd.noConfusion (h.unique hend)
  constructor
  · intro h
    refine ⟨fun hcreat hflock => ⟨LockNode.noConfusion, ?_⟩, fun hlive => ?_⟩
    · exact (h.writes hstart (Or.inr hend) hcreat hflock).2
    · exact absurd hend (h.spares hstart hlive).1
  · rintro ⟨hwrites, hspares⟩
    exact ⟨fun _ => hcrashed, fun _ hlive => absurd (hspares hlive).2 hlive.ne_removed,
      fun _ _ hcreat hflock => ⟨hnode, (hwrites hcreat hflock).2⟩⟩

/-- A lock that is refused where the path was looked at. -/
theorem sound_refused (hmiss : ¬c.Misses p tentative) (hend : ∀ e, ¬c.Ends p tentative e) :
    Sound alive c pid tentative p :=
  ⟨fun _ => hend _, fun _ _ => ⟨hend _, fun h => absurd h hmiss⟩,
    fun _ h => (h.elim hmiss (hend _)).elim⟩

end Result

/-- With calls that do their work, `lck_locking` is honest: only failures break it. -/
theorem sound_of_no_failure {alive : Int → Prop} {c : Calls} {pid : Nat} {p : LockPath}
    (hstat : c.stat = true)
    (hround : ∀ t, (c.round t).openOld = true ∧ (c.round t).fdopen = true ∧
      (c.round t).fgets = true)
    (hkill : ∀ t owner, p.owner = some owner → alive owner → (c.round t).kill = true)
    (hwritten : (numid pid).length ≤ c.written) (tentative : Nat) :
    Sound alive c pid tentative p := by
  have hregular (e : RoundEnd) (he : c.Ends p tentative e) : p.node ≠ .special := by
    intro hspecial
    have hregular := he.2.1
    rw [LockPath.stat, hspecial] at hregular
    exact absurd hregular (by decide)
  refine ⟨fun _ hend => ?_, fun _ hlive => ⟨fun hend => ?_, fun hmiss => ?_⟩,
    fun _ hmade _ _ => ⟨?_, ?_⟩⟩
  · obtain ⟨-, -, t, -, -, ht, -⟩ := hend
    exact Bool.noConfusion ((round_crashed ht).symm.trans (hround t).2.1)
  · -- the line of a live process is read, and the process answers
    obtain ⟨-, -, t, -, -, ht, -⟩ := hend
    obtain ⟨-, owner, howner, hpos, halive⟩ := hlive
    have hstale := round_removed ht (hround t).2.2 howner
    rw [prcCheckprocess, if_neg (by omega), hkill t owner howner halive, ite_self] at hstale
    exact Bool.noConfusion hstale
  · exfalso
    rcases hmiss with h | h | ⟨-, -, t, -, -, ht, -⟩
    · exact Bool.noConfusion (hstat.symm.trans h)
    · exact Option.some_ne_none true (hlive.regular.symm.trans h)
    · rcases round_missing ht with h | h
      · exact Bool.noConfusion ((hround t).1.symm.trans h)
      · exact hlive.openOld_ne_none h
  · rcases hmade with (h | h | h) | h
    · exact Bool.noConfusion (hstat.symm.trans h)
    · intro hspecial
      rw [LockPath.stat, hspecial] at h
      exact Option.some_ne_none false h
    · exact hregular _ h
    · exact hregular _ h
  · have hlen : (numid pid).length = (printNat true 6 pid).length + 1 := by simp [numid]
    omega

/-- `lck_locking` is honest just under these results of its calls. -/
theorem lckLocking_honest_iff (alive : Int → Prop) (c : Calls) {pid tentative : Nat}
    (hpid : PidRange pid) (htentative : 0 < tentative) (p : LockPath) :
    Honest alive pid p (lckLocking c pid tentative p) ↔ Sound alive c pid tentative p := by
  by_cases hstart : c.Starts
  swap
  · -- phase 3 is not reached
    have hrefused : lckLocking c pid tentative p = some (false, p) := by
      rw [Calls.Starts, not_and_or, Bool.not_eq_true, Bool.not_eq_true] at hstart
      rw [lckLocking]
      rcases hstart with h | h
      · rw [if_pos h]
      · simp [h]
    rw [hrefused]
    exact iff_of_true honest_refused (sound_of_not_starts hstart)
  rw [lckLocking, if_neg (by simp [hstart.1]), if_neg (by simp [hstart.2])]
  by_cases hmissing : c.stat = false ∨ p.stat = none
  · -- the path is not looked at, or nothing is there
    have hnone : (if c.stat then p.stat else none) = none := by
      rcases hmissing with h | h <;> simp [h]
    have hend : ∀ e, ¬c.Ends p tentative e := by
      rintro e ⟨hstat, hregular, -⟩
      rcases hmissing with h | h
      · exact Bool.noConfusion (h.symm.trans hstat)
      · exact Option.some_ne_none true (hregular.symm.trans h)
    rw [hnone]
    exact (honest_phase6_iff hpid).trans (sound_missed_iff hstart
      (hmissing.imp_right Or.inl) fun e he => absurd he (hend e)).symm
  obtain ⟨hstat, hthere⟩ := not_or.mp hmissing
  rw [Bool.not_eq_false] at hstat
  rw [if_pos hstat]
  obtain ⟨regular, hregular⟩ := Option.ne_none_iff_exists'.mp hthere
  rw [hregular]
  have hmiss : c.Misses p tentative ↔ c.Ends p tentative .missing := by
    rw [Calls.Misses]
    simp [hstat, hregular]
  cases regular with
  | false =>
      -- not a regular file: refused before phase 5
      have hend : ∀ e, ¬c.Ends p tentative e := by
        rintro e ⟨-, h, -⟩
        exact Bool.noConfusion (Option.some.inj (hregular.symm.trans h))
      exact iff_of_true honest_refused (sound_refused (fun h => hend _ (hmiss.mp h)) hend)
  | true =>
      rcases phase5_cases c pid p htentative with ⟨e, hsettles, heq⟩ | ⟨hnone, heq⟩
      · have hend : c.Ends p tentative e := ⟨hstat, hregular, hsettles⟩
        rw [heq]
        cases e with
        | crashed => exact iff_of_false id fun h => h.streams hstart hend
        | missing =>
            exact (honest_phase6_iff hpid).trans (sound_missed_iff hstart (hmiss.mpr hend)
              fun e he => he.unique hend).symm
        | removed => exact (honest_phase6_iff hpid).trans (sound_removed_iff hstart hend).symm
      · have hend : ∀ e, ¬c.Ends p tentative e := fun e he => hnone e he.2.2
        rw [heq]
        exact iff_of_true honest_refused (sound_refused (fun h => hend _ (hmiss.mp h)) hend)

/-- Calls that all do their work; `write` stores so many bytes. -/
def plainCalls (written : Nat) : Calls where
  appdir := true
  mkdir := true
  stat := true
  round := fun _ => ⟨true, true, true, true, true, true, true, true⟩
  creat := true
  flock := true
  written := written

theorem lckLocking_honest_live :
    Honest (fun _ => True) 100 ⟨false, .regular (numid 7)⟩
      (lckLocking (plainCalls 7) 100 5 ⟨false, .regular (numid 7)⟩) :=
  (lckLocking_honest_iff (fun _ => True) (plainCalls 7) (by decide) (by decide)
    ⟨false, .regular (numid 7)⟩).mpr
      (sound_of_no_failure rfl (fun _ => ⟨rfl, rfl, rfl⟩) (fun _ _ _ _ => rfl) (by decide) 5)

/-- On a full disk the lock is granted with an empty file. -/
theorem lckLocking_grants_empty :
    lckLocking (plainCalls 0) 100 5 ⟨false, .absent⟩ = some (true, ⟨false, .regular []⟩) ∧
      (LockPath.mk false (.regular [])).owner = none ∧
        ¬Honest (fun _ => True) 100 ⟨false, .absent⟩
          (lckLocking (plainCalls 0) 100 5 ⟨false, .absent⟩) := by
  have hresult :
      lckLocking (plainCalls 0) 100 5 ⟨false, .absent⟩ = some (true, ⟨false, .regular []⟩) := rfl
  refine ⟨hresult, rfl, fun h => ?_⟩
  rw [hresult] at h
  exact Option.some_ne_none _ (h.1 rfl).symm

end Vzgot.Lock

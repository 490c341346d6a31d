import Vzgot.Library.Mutex
import Vzgot.Lock.Processes

/-!
# Mutual exclusion of the container lock

`lck_locking` examines the lock file and acts on what it saw some calls later. In
every run in which each such act still finds what was examined (`StillValid`) at
most one process owns the lock, from its `creat` to its `unlink`
(`lockInv_run`), and the owner moves as in an abstract lock
(`lck_locking_refines_mutex`). Without that condition two processes obtain the lock
(`lck_locking_both_granted`).
-/

set_option autoImplicit false

namespace Vzgot.Lock

open Vzgot.Transition

/-- The act that comes up agrees with the examination that led to it. `creat` finds
no file. The `unlink` of `rm_lock` finds the very file that was read, with the line
that was read, and where that line was empty no live process is about to write its
number into the file. The line of phase 8 is written whole. -/
def StillValid (w : World) : LockEvent → Prop
  | .call p r =>
      match w.pc p with
      | .creat => r = .fault ∨ w.dir.path = none
      | .unlinkOld _ fd s =>
          r = .fault ∨ w.dir.path = none ∨
            (w.dir.path = some fd ∧ strlocOf (w.dir.node fd).bytes = s ∧
              (s = [] → ∀ q, w.alive q = true → (w.pc q).announcing ≠ some fd))
      | .write _ => r = .done
      | _ => True
  | _ => True

/-- Invariant of the runs whose acts are `StillValid`. -/
structure LockInv (w : World) : Prop where
  /-- Only proper process numbers are in `lck_locking`. -/
  range : ∀ p, w.pc p ≠ .outside → PidRange p
  /-- An old lock under examination is an inode handed out before. -/
  known : ∀ q i s, (w.pc q).examining = some (i, s) → i < w.dir.next
  /-- `prc_checkprocess` is asked about the number read from the lock. -/
  scanned : ∀ q t i s pid, w.pc q = .check t i s pid → Stdio.scanInt s = some pid
  /-- The lock path names the owner's file, empty until it holds the owner's number. -/
  owned : ∀ p, w.Owning p → ∃ i, w.dir.path = some i ∧
    (((w.pc p).announcing = some i ∧ (w.dir.node i).bytes = []) ∨
      ((w.pc p).announcing = none ∧ (w.dir.node i).bytes = numid p))
  /-- From a file about to get its number only the empty line has been read. -/
  unread : ∀ p i q s, w.Owning p → (w.pc p).announcing = some i →
    (w.pc q).examining = some (i, s) → s = []
  /-- `rm_lock` is never called because of the owner's own line. -/
  foreign : ∀ p i q s, w.Owning p → w.dir.path = some i →
    (w.pc q).removing = some (i, s) → s ≠ numid p
  /-- There is at most one owner. -/
  unique : ∀ p q, w.Owning p → w.Owning q → p = q

theorem lockInv_quiet {w : World} (h : Quiet w) : LockInv w where
  range p hp := absurd (h p) hp
  known q i s hq := by simp [h q, LckPc.examining] at hq
  scanned q t i s pid hq := by simp [h q] at hq
  owned p hp := by simp [World.Owning, h p, LckPc.owning] at hp
  unread p i q s hp := by simp [World.Owning, h p, LckPc.owning] at hp
  foreign p i q s hp := by simp [World.Owning, h p, LckPc.owning] at hp
  unique p q hp := by simp [World.Owning, h p, LckPc.owning] at hp

/-! ## Moves of one process

Each lemma covers one kind of move of `p`: to a place that does not own the lock,
between places of an owner, through an `unlink`, and, for an owner that is the only one,
through `creat` and through the `write` of phase 8. -/

section Moves

variable {w : World} {p : Nat}

/-- The invariant reads the set of live processes through the owners only. -/
theorem LockInv.of_alive (h : LockInv w) (alive : Nat → Bool)
    (hown : ∀ q, World.Owning { w with alive := alive } q → w.Owning q) :
    LockInv { w with alive := alive } where
  range := h.range
  known := h.known
  scanned := h.scanned
  owned q hq := h.owned q (hown q hq)
  unread q i r s hq := h.unread q i r s (hown q hq)
  foreign q i r s hq := h.foreign q i r s (hown q hq)
  unique q r hq hr := h.unique q r (hown q hq) (hown r hr)

/-- The invariant does not read the `flock` holders. -/
theorem LockInv.of_flocker (h : LockInv w) (flocker : Nat → Option Nat) :
    LockInv { w with flocker := flocker } :=
  ⟨h.range, h.known, h.scanned, h.owned, h.unread, h.foreign, h.unique⟩

/-- Move to a place that does not own the lock. What the place examines and is
about to remove has to agree with the owner, if there is one. -/
theorem LockInv.goto_not_owning (h : LockInv w) {c : LckPc} (hc : c.owning = false)
    (hrange : c ≠ .outside → PidRange p)
    (hknown : ∀ i s, c.examining = some (i, s) → i < w.dir.next)
    (hscanned : ∀ t i s pid, c = .check t i s pid → Stdio.scanInt s = some pid)
    (hunread : ∀ q i s, w.Owning q → (w.pc q).announcing = some i →
      c.examining = some (i, s) → s = [])
    (hforeign : ∀ q i s, q ≠ p → w.Owning q → w.dir.path = some i →
      c.removing = some (i, s) → s ≠ numid q) :
    LockInv (w.goto p c) := by
  have hown : ∀ q, (w.goto p c).Owning q → q ≠ p ∧ w.Owning q := by
    intro q hq
    by_cases hqp : q = p
    · subst hqp
      rw [owning_goto_self, hc] at hq
      exact absurd hq.2 (by decide)
    · exact ⟨hqp, (owning_goto_of_ne c hqp).1 hq⟩
  constructor
  · -- who has left `outside` has a number of the system
    intro q hq
    by_cases hqp : q = p
    · subst hqp
      exact hrange (by simpa using hq)
    · exact h.range q (by simpa [hqp] using hq)
  · -- inodes under examination exist
    intro q i s hq
    by_cases hqp : q = p
    · subst hqp
      exact hknown i s (by simpa using hq)
    · exact h.known q i s (by simpa [hqp] using hq)
  · -- the number checked is the one read
    intro q t i s pid hq
    by_cases hqp : q = p
    · subst hqp
      exact hscanned t i s pid (by simpa using hq)
    · exact h.scanned q t i s pid (by simpa [hqp] using hq)
  · -- the owner's file is at the path
    intro q hq
    obtain ⟨hqp, hq⟩ := hown q hq
    simpa [hqp] using h.owned q hq
  · -- an empty file was read empty
    intro q i r s hq hann hr
    obtain ⟨hqp, hqw⟩ := hown q hq
    rw [World.goto_pc_of_ne w c hqp] at hann
    by_cases hrp : r = p
    · subst hrp
      exact hunread q i s hqw hann (by simpa using hr)
    · exact h.unread q i r s hqw hann (by simpa [hrp] using hr)
  · -- what `rm_lock` is called on is not the owner's
    intro q i r s hq hpath hr
    obtain ⟨hqp, hqw⟩ := hown q hq
    by_cases hrp : r = p
    · subst hrp
      exact hforeign q i s hqp hqw hpath (by simpa using hr)
    · exact h.foreign q i r s hqw hpath (by simpa [hrp] using hr)
  · -- one owner
    exact fun q r hq hr => h.unique q r (hown q hq).2 (hown r hr).2

theorem LockInv.goto_idle (h : LockInv w) {c : LckPc} (hc : c.idle)
    (hrange : c ≠ .outside → PidRange p) : LockInv (w.goto p c) := by
  have hexam : ∀ x, c.examining ≠ some x := by simp [hc.2]
  refine h.goto_not_owning hc.1 hrange (fun i s hs => absurd hs (hexam _)) ?_
    (fun _ i s _ _ hs => absurd hs (hexam _))
    (fun _ i s _ _ _ hs => absurd (LckPc.examining_of_removing hs) (hexam _))
  rintro t i s pid rfl
  exact absurd rfl (hexam (i, s))

/-- Move of an owner to another place of the same standing. -/
theorem LockInv.goto_owning (h : LockInv w) {c : LckPc} (hold : (w.pc p).owning = true)
    (hc : c.owning = true) (hann : c.announcing = (w.pc p).announcing) :
    LockInv (w.goto p c) := by
  have hexam : ∀ q x, ((w.goto p c).pc q).examining = some x → (w.pc q).examining = some x := by
    intro q x hq
    by_cases hqp : q = p
    · subst hqp
      rw [World.goto_pc_self] at hq
      cases c <;> simp_all [LckPc.owning, LckPc.examining]
    · simpa [hqp] using hq
  have hpcann : ∀ q, ((w.goto p c).pc q).announcing = (w.pc q).announcing := by
    intro q
    by_cases hqp : q = p
    · subst hqp
      rw [World.goto_pc_self, hann]
    · rw [World.goto_pc_of_ne w c hqp]
  have hown : ∀ q, (w.goto p c).Owning q → w.Owning q := by
    intro q hq
    by_cases hqp : q = p
    · subst hqp
      exact ⟨hq.1, hold⟩
    · exact (owning_goto_of_ne c hqp).1 hq
  constructor
  · -- who has left `outside` has a number of the system
    intro q hq
    by_cases hqp : q = p
    · subst hqp
      exact h.range q fun hout => by simp [hout, LckPc.owning] at hold
    · exact h.range q (by simpa [hqp] using hq)
  · -- inodes under examination exist
    exact fun q i s hq => h.known q i s (hexam q _ hq)
  · -- the number checked is the one read
    intro q t i s pid hq
    by_cases hqp : q = p
    · subst hqp
      rw [World.goto_pc_self] at hq
      simp [hq, LckPc.owning] at hc
    · exact h.scanned q t i s pid (by simpa [hqp] using hq)
  · -- the owner's file is at the path
    intro q hq
    rw [hpcann q]
    exact h.owned q (hown q hq)
  · -- an empty file was read empty
    intro q i r s hq ha hr
    exact h.unread q i r s (hown q hq) (hpcann q ▸ ha) (hexam r _ hr)
  · -- what `rm_lock` is called on is not the owner's
    intro q i r s hq hpath hr
    apply h.foreign q i r s (hown q hq) hpath
    by_cases hrp : r = p
    · subst hrp
      rw [World.goto_pc_self] at hr
      cases c <;> simp_all [LckPc.owning, LckPc.removing]
    · simpa [hrp] using hr
  · -- one owner
    exact fun q r hq hr => h.unique q r (hown q hq) (hown r hr)

/-- Removal of the lock file by a process that is the only owner or finds no owner. -/
theorem LockInv.goto_unlink (h : LockInv w) {c : LckPc} (hc : c.idle)
    (hrange : c ≠ .outside → PidRange p) (hnone : ∀ q, w.Owning q → q = p) :
    LockInv ({ w with dir := w.dir.unlink }.goto p c) := by
  have hidle := h.goto_idle hc hrange
  have hown : ∀ q, ¬ World.Owning ({ w with dir := w.dir.unlink }.goto p c) q := by
    intro q hq
    by_cases hqp : q = p
    · subst hqp
      rw [owning_goto_self, hc.1] at hq
      exact absurd hq.2 (by decide)
    · exact hqp (hnone q ((owning_goto_of_ne c hqp).1 hq))
  exact {
    range := hidle.range
    known := hidle.known
    scanned := hidle.scanned
    owned := fun q hq => absurd hq (hown q)
    unread := fun q _ _ _ hq => absurd hq (hown q)
    foreign := fun q _ _ _ hq => absurd hq (hown q)
    unique := fun q _ hq => absurd hq (hown q) }

/-- Move of the only owner, with another state of the directory, to a place that examines
nothing. What the other processes have read has to agree with its file. -/
theorem LockInv.goto_sole (h : LockInv w) {d : LockDir} {c : LckPc} (hrange : PidRange p)
    (hnext : w.dir.next ≤ d.next) (hc : c.examining = none) (hsole : ∀ q, w.Owning q → q = p)
    (howned : ∃ i, d.path = some i ∧ ((c.announcing = some i ∧ (d.node i).bytes = []) ∨
      (c.announcing = none ∧ (d.node i).bytes = numid p)))
    (hunread : ∀ i r s, c.announcing = some i → (w.pc r).examining = some (i, s) → s = [])
    (hforeign : ∀ i r s, d.path = some i → (w.pc r).removing = some (i, s) → s ≠ numid p) :
    LockInv ({ w with dir := d }.goto p c) := by
  set w' := ({ w with dir := d } : World).goto p c with hw'
  have hpcp : w'.pc p = c := World.goto_pc_self _ _ _
  have hpcq : ∀ q, q ≠ p → w'.pc q = w.pc q := fun q hqp => World.goto_pc_of_ne _ _ hqp
  have hown : ∀ q, w'.Owning q → q = p := by
    intro q hq
    by_contra hqp
    exact hqp (hsole q ((owning_goto_of_ne (w := { w with dir := d }) _ hqp).1 hq))
  have hexam : ∀ q x, (w'.pc q).examining = some x → (w.pc q).examining = some x := by
    intro q x hq
    by_cases hqp : q = p
    · rw [hqp, hpcp, hc] at hq
      cases hq
    · exact hpcq q hqp ▸ hq
  constructor
  · -- who has left `outside` has a number of the system
    intro q hq
    by_cases hqp : q = p
    · exact hqp ▸ hrange
    · exact h.range q (hpcq q hqp ▸ hq)
  · -- inodes under examination exist
    exact fun q i s hq => (h.known q i s (hexam q _ hq)).trans_le hnext
  · -- the number checked is the one read
    intro q t i s pid hq
    by_cases hqp : q = p
    · rw [← hpcp, ← hqp, hq] at hc
      cases hc
    · exact h.scanned q t i s pid (hpcq q hqp ▸ hq)
  · -- the owner's file is at the path
    intro q hq
    rw [hown q hq, hpcp]
    exact howned
  · -- an empty file was read empty
    intro q i r s hq hann hr
    rw [hown q hq, hpcp] at hann
    exact hunread i r s hann (hexam r _ hr)
  · -- what `rm_lock` is called on is not the owner's
    intro q i r s hq hpath hr
    rw [hown q hq]
    by_cases hrp : r = p
    · rw [hrp, hpcp] at hr
      rw [LckPc.examining_of_removing hr] at hc
      cases hc
    · exact hforeign i r s hpath (hpcq r hrp ▸ hr)
  · -- one owner
    exact fun q r hq hr => (hown q hq).trans (hown r hr).symm

/-- A file created where there was none has a single owner, and nobody has read it. -/
theorem LockInv.goto_creat (h : LockInv w) (hrange : PidRange p) (hpath : w.dir.path = none) :
    LockInv ({ w with dir := w.dir.bindNew }.goto p (.flock w.dir.next)) := by
  have hnone : ∀ q, ¬ w.Owning q := by
    intro q hq
    obtain ⟨i, hi, -⟩ := h.owned q hq
    rw [hpath] at hi
    cases hi
  have hnew : ∀ r s, (w.pc r).examining ≠ some (w.dir.next, s) :=
    fun r s hr => absurd (h.known r _ s hr) (Nat.lt_irrefl _)
  refine h.goto_sole hrange (Nat.le_succ _) rfl (fun q hq => absurd hq (hnone q)) ?_ ?_ ?_
  · exact ⟨w.dir.next, rfl, Or.inl ⟨rfl, by simp⟩⟩
  · rintro i r s ⟨⟩ hr
    exact absurd hr (hnew r s)
  · rintro i r s ⟨⟩ hr
    exact absurd (LckPc.examining_of_removing hr) (hnew r s)

/-- The owner writes its number into its empty file. -/
theorem LockInv.goto_write (h : LockInv w) {i : Nat} (halive : w.alive p = true)
    (hpc : w.pc p = .write i) :
    LockInv ({ w with dir := w.dir.setBytes i (overwrite (w.dir.node i).bytes (numid p)) }.goto p
      (.close i)) := by
  have hp : w.Owning p := ⟨halive, by simp [hpc, LckPc.owning]⟩
  have hannp : (w.pc p).announcing = some i := by rw [hpc]; rfl
  obtain ⟨j, hpath, hj⟩ := h.owned p hp
  have hji : j = i ∧ (w.dir.node i).bytes = [] := by
    rcases hj with ⟨ha, hb⟩ | ⟨ha, -⟩
    · rw [hannp] at ha
      cases ha
      exact ⟨rfl, hb⟩
    · rw [hannp] at ha
      cases ha
  obtain ⟨rfl, hbytes⟩ := hji
  refine h.goto_sole (h.range p (by simp [hpc])) le_rfl rfl (fun q hq => h.unique q p hq hp) ?_ ?_ ?_
  · refine ⟨j, hpath, Or.inr ⟨rfl, ?_⟩⟩
    simp [hbytes, overwrite]
  · rintro i r s ⟨⟩
  · -- who has read the file has found it empty
    intro i r s hi hr
    obtain rfl : i = j := Option.some.inj (hi.symm.trans hpath)
    have hs : s = [] := h.unread p i r s hp hannp (LckPc.examining_of_removing hr)
    rw [hs]
    exact (numid_ne_nil p).symm

end Moves

/-! ## Events -/

section Steps

variable {w w' : World} {p : Nat} {r : Reply}

/-- A lock found inactive does not hold an owner's number. -/
theorem LockInv.not_owner_of_inactive (h : LockInv w) {t fd : Nat} {s : List Char} {pid : Int}
    (hpc : w.pc p = .check t fd s pid)
    (hinactive : prcCheckprocess pid (w.kill0 pid r) = false) {q : Nat} (hq : w.Owning q) :
    s ≠ numid q := by
  rintro rfl
  have hpid : pid = (q : Int) := by
    have hscan := h.scanned p t fd _ pid hpc
    rw [scanInt_numid] at hscan
    exact (Option.some.inj hscan).symm
  have hrange : PidRange q := h.range q fun hout => by simp [World.Owning, hout, LckPc.owning] at hq
  have hpos : (0 : Int) < q := by exact_mod_cast hrange.1
  have hkill : w.kill0 q r = true := by
    rw [World.kill0, if_pos hpos]
    simpa using hq.1
  rw [hpid, hkill, prcCheckprocess, if_neg (by omega)] at hinactive
  split at hinactive <;> cases hinactive

theorem LockInv.openOld (h : LockInv w) {t : Nat} (hpc : w.pc p = .openOld t)
    (hs : w.perform p r = some w') : LockInv w' := by
  have hrange : PidRange p := h.range p (by simp [hpc])
  simp only [World.perform, hpc] at hs
  split at hs
  · cases hs
    exact h.goto_idle ⟨rfl, rfl⟩ fun _ => hrange
  · rename_i fd hfd
    cases hs
    have hpath : w.dir.path = some fd := by
      split at hfd
      · cases hfd
      · exact hfd
    set s := strlocOf (w.dir.node fd).bytes with hs
    have hunread : ∀ q i, w.Owning q → (w.pc q).announcing = some i → fd = i → s = [] := by
      rintro q i hq hann rfl
      obtain ⟨j, hj, hcase⟩ := h.owned q hq
      have hji : j = fd := Option.some.inj (hj.symm.trans hpath)
      subst hji
      rcases hcase with ⟨-, hb⟩ | ⟨ha, -⟩
      · rw [hs, hb, strlocOf_nil]
      · rw [hann] at ha
        cases ha
    have hknown : fd < w.dir.next := w.dir.path_lt fd hpath
    unfold afterRead
    cases hscan : Stdio.scanInt s with
    | some pid =>
        refine h.goto_not_owning rfl (fun _ => hrange) ?_ ?_ ?_ ?_
        · rintro i x ⟨⟩
          exact hknown
        · rintro t' i x pid' ⟨⟩
          exact hscan
        · rintro q i x hq hann ⟨⟩
          exact hunread q fd hq hann rfl
        · rintro q i x - - - ⟨⟩
    | none =>
        by_cases hempty : s = []
        · simp only [hempty, if_true]
          refine h.goto_not_owning rfl (fun _ => hrange) ?_ ?_ ?_ ?_
          · rintro i x ⟨⟩
            exact hknown
          · rintro t' i x pid' ⟨⟩
          · rintro q i x - - ⟨⟩
            rfl
          · rintro q i x - - - ⟨⟩
            exact (numid_ne_nil q).symm
        · simp only [hempty, if_false]
          exact h.goto_idle (nextTry_idle t) fun _ => hrange

theorem LockInv.check (h : LockInv w) {t fd : Nat} {s : List Char} {pid : Int}
    (hpc : w.pc p = .check t fd s pid) (hs : w.perform p r = some w') : LockInv w' := by
  have hrange : PidRange p := h.range p (by simp [hpc])
  have hexam : (w.pc p).examining = some (fd, s) := by rw [hpc]; rfl
  simp only [World.perform, hpc, Option.some.injEq] at hs
  subst hs
  cases hactive : prcCheckprocess pid (w.kill0 pid r) with
  | true => exact h.goto_idle (nextTry_idle t) fun _ => hrange
  | false =>
      refine h.goto_not_owning rfl (fun _ => hrange) ?_ ?_ ?_ ?_
      · rintro i x ⟨⟩
        exact h.known p fd s hexam
      · rintro t' i x pid' ⟨⟩
      · rintro q i x hq hann ⟨⟩
        exact h.unread q fd p s hq hann hexam
      · rintro q i x - hq - ⟨⟩
        exact h.not_owner_of_inactive hpc hactive hq

theorem LockInv.compare (h : LockInv w) {t fd : Nat} {s : List Char}
    (hpc : w.pc p = .compare t fd s) (hs : w.perform p r = some w') : LockInv w' := by
  have hrange : PidRange p := h.range p (by simp [hpc])
  have hremove : (w.pc p).removing = some (fd, s) := by rw [hpc]; rfl
  have hexam := LckPc.examining_of_removing hremove
  simp only [World.perform, hpc, Option.some.injEq] at hs
  subst hs
  unfold afterCompare
  split
  · refine h.goto_not_owning rfl (fun _ => hrange) ?_ ?_ ?_ ?_
    · rintro i x ⟨⟩
      exact h.known p fd s hexam
    · rintro t' i x pid' ⟨⟩
    · rintro q i x hq hann ⟨⟩
      exact h.unread q fd p s hq hann hexam
    · rintro q i x - hq hpath ⟨⟩
      exact h.foreign q fd p s hq hpath hremove
  · exact h.goto_idle (nextTry_idle t) fun _ => hrange

/-- The `unlink` of `rm_lock` finds no owner when the file is still what was read. -/
theorem LockInv.unlinkOld (h : LockInv w) {t fd : Nat} {s : List Char}
    (hpc : w.pc p = .unlinkOld t fd s) (hv : StillValid w (.call p r))
    (hs : w.perform p r = some w') : LockInv w' := by
  have hrange : PidRange p := h.range p (by simp [hpc])
  have hremove : (w.pc p).removing = some (fd, s) := by rw [hpc]; rfl
  simp only [World.perform, hpc] at hs
  simp only [StillValid, hpc] at hv
  split at hs
  · cases hs
    exact h.goto_idle (nextTry_idle t) fun _ => hrange
  · rename_i hdone
    rw [not_or] at hdone
    obtain ⟨hpath, hline, hempty⟩ := (hv.resolve_left hdone.1).resolve_left hdone.2
    cases hs
    apply h.goto_unlink ⟨rfl, rfl⟩ (fun _ => hrange)
    intro q hq
    obtain ⟨i, hi, hcase⟩ := h.owned q hq
    have hifd : i = fd := Option.some.inj (hi.symm.trans hpath)
    subst hifd
    rcases hcase with ⟨hann, hb⟩ | ⟨-, hb⟩
    · rw [hb, strlocOf_nil] at hline
      exact absurd hann (hempty hline.symm q hq.1)
    · have hqr : PidRange q := h.range q fun ho => by simp [World.Owning, ho, LckPc.owning] at hq
      rw [hb, strlocOf_numid hqr] at hline
      exact absurd hline.symm (h.foreign q i p s hq hpath hremove)

theorem LockInv.creat (h : LockInv w) (hpc : w.pc p = .creat) (hv : StillValid w (.call p r))
    (hs : w.perform p r = some w') : LockInv w' := by
  have hrange : PidRange p := h.range p (by simp [hpc])
  simp only [World.perform, hpc] at hs
  simp only [StillValid, hpc] at hv
  by_cases hr : r = .fault
  · rw [if_pos hr] at hs
    cases hs
    exact h.goto_idle ⟨rfl, rfl⟩ fun _ => hrange
  · have hpath := hv.resolve_left hr
    have hcreat : w.dir.creat = some (w.dir.next, w.dir.bindNew) := by
      simp only [LockDir.creat, hpath]
    rw [if_neg hr, hcreat] at hs
    cases hs
    exact h.goto_creat hrange hpath

/-- A call to the system keeps the invariant when its act is still valid. -/
theorem lockInv_perform (h : LockInv w) (halive : w.alive p = true)
    (hv : StillValid w (.call p r)) (hs : w.perform p r = some w') : LockInv w' := by
  have hrange : w.pc p ≠ .outside → PidRange p := h.range p
  cases hpc : w.pc p with
  | outside => simp [World.perform, hpc] at hs
  | granted => simp [World.perform, hpc] at hs
  | refused => simp [World.perform, hpc] at hs
  | mkdir t =>
      simp only [World.perform, hpc, Option.some.injEq] at hs
      exact hs ▸ h.goto_idle (afterMkdir_idle t _) fun _ => hrange (by simp [hpc])
  | stat t =>
      simp only [World.perform, hpc, Option.some.injEq] at hs
      exact hs ▸ h.goto_idle (afterStat_idle t _) fun _ => hrange (by simp [hpc])
  | openOld t => exact h.openOld hpc hs
  | check t fd s pid => exact h.check hpc hs
  | compare t fd s => exact h.compare hpc hs
  | unlinkOld t fd s => exact h.unlinkOld hpc hv hs
  | creat => exact h.creat hpc hv hs
  | flock i =>
      simp only [World.perform, hpc] at hs
      split at hs
      · cases hs
        exact h.goto_idle ⟨rfl, rfl⟩ fun _ => hrange (by simp [hpc])
      · split at hs
        · cases hs
          exact (h.of_flocker _).goto_owning (by simp [hpc, LckPc.owning]) rfl
            (by simp [hpc, afterFlock, LckPc.announcing])
        · cases hs
  | write i =>
      simp only [StillValid, hpc] at hv
      simp only [World.perform, hpc, hv, Option.some.injEq] at hs
      exact hs ▸ h.goto_write halive hpc
  | close i =>
      simp only [World.perform, hpc, Option.some.injEq] at hs
      exact hs ▸ (h.of_flocker _).goto_owning (by simp [hpc, LckPc.owning]) rfl
        (by simp [hpc, LckPc.announcing])
  | unlockMkdir =>
      simp only [World.perform, hpc, Option.some.injEq] at hs
      subst hs
      refine h.goto_owning (by simp [hpc, LckPc.owning]) ?_ ?_ <;>
        cases r <;> simp [hpc, afterUnlockMkdir, LckPc.owning, LckPc.announcing]
  | unlockUnlink =>
      have hp : w.Owning p := ⟨halive, by simp [hpc, LckPc.owning]⟩
      simp only [World.perform, hpc] at hs
      split at hs
      · cases hs
        exact h.goto_idle ⟨rfl, rfl⟩ fun hout => absurd rfl hout
      · cases hs
        exact h.goto_unlink ⟨rfl, rfl⟩ (fun hout => absurd rfl hout)
          fun q hq => h.unique q p hq hp

theorem lockInv_step {e : LockEvent} (h : LockInv w) (hv : StillValid w e)
    (hs : lockStep w e = some w') : LockInv w' := by
  cases e with
  | lock p t =>
      simp only [lockStep, Option.ite_none_right_eq_some, Option.some.injEq] at hs
      obtain ⟨⟨-, hrange, -, -⟩, rfl⟩ := hs
      exact h.goto_idle ⟨rfl, rfl⟩ fun _ => hrange
  | unlock p =>
      simp only [lockStep, Option.ite_none_right_eq_some, Option.some.injEq] at hs
      obtain ⟨⟨-, hpc⟩, rfl⟩ := hs
      exact h.goto_owning (by simp [hpc, LckPc.owning]) rfl (by simp [hpc, LckPc.announcing])
  | call p r =>
      simp only [lockStep, Option.ite_none_right_eq_some] at hs
      exact lockInv_perform h hs.1 hv hs.2
  | exit p =>
      simp only [lockStep, Option.ite_none_right_eq_some, Option.some.injEq] at hs
      obtain ⟨-, rfl⟩ := hs
      -- whoever ends owns nothing, and has no lock on a file any more
      suffices hdead : LockInv { w with alive := Function.update w.alive p false } from
        (hdead.of_flocker _).goto_idle ⟨rfl, rfl⟩ fun hout => absurd rfl hout
      apply h.of_alive _
      intro q hq
      refine ⟨?_, hq.2⟩
      by_cases hqp : q = p
      · subst hqp
        simp [World.Owning] at hq
      · simpa [World.Owning, hqp] using hq.1
  | fork p =>
      simp only [lockStep, Option.ite_none_left_eq_some, Option.some.injEq] at hs
      obtain ⟨-, rfl⟩ := hs
      -- a new process is outside of the lock
      have hout := h.goto_idle (p := p) (c := .outside) ⟨rfl, rfl⟩ fun hout => absurd rfl hout
      apply hout.of_alive (Function.update w.alive p true)
      intro q hq
      by_cases hqp : q = p
      · subst hqp
        simp [World.Owning, LckPc.owning] at hq
      · simpa [World.Owning, hqp] using hq

/-- The invariant along a run. -/
theorem lockInv_run {es : List LockEvent} (h : Quiet w) (hv : Meets lockStep StillValid w es)
    (hr : run lockStep w es = some w') : LockInv w' :=
  meets_invariant (fun _ _ _ hi hg hs => lockInv_step hi hg hs) (lockInv_quiet h) hv hr

/-- The owner of the lock file moves as the owner of an abstract lock. -/
theorem lck_locking_refines_mutex {es : List LockEvent} (h : Quiet w)
    (hv : Meets lockStep StillValid w es) (hr : run lockStep w es = some w') :
    Relation.ReflTransGen Mutex.Step (Mutex.ownerOf w.Owning) (Mutex.ownerOf w'.Owning) := by
  refine meets_refines LockInv (fun v => Mutex.ownerOf v.Owning)
    (fun _ _ _ hi hg hs => lockInv_step hi hg hs) ?_ (lockInv_quiet h) hv hr
  intro v e v' hi hg hs
  exact Mutex.ownerOf_step hi.unique (lockInv_step hi hg hs).unique e.actor
    fun q hq => lockStep_frame hs hq

end Steps

/-! ## At most one process is given the lock -/

/-- Two live processes that were both given the lock and have not unlocked are one
process, in every state of every run whose acts agree with the examinations that
led to them. -/
theorem lck_locking_exclusive {w w' : World} {es : List LockEvent} (h : Quiet w)
    (hv : Meets lockStep StillValid w es) (hr : run lockStep w es = some w') :
    ∀ p q, w'.Holding p → w'.Holding q → p = q := by
  have hinv := lockInv_run h hv hr
  intro p q hp hq
  exact hinv.unique p q ⟨hp.1, LckPc.owning_of_holding hp.2⟩ ⟨hq.1, LckPc.owning_of_holding hq.2⟩

/-- The processes 2 and 3, with no lock file or with one that has the given bytes. -/
def twoProcesses (old : Option (List Char)) : World where
  dir := {
    path := old.map fun _ => 0
    next := 1
    node := fun _ => ⟨true, old.getD []⟩
    path_lt := by cases old <;> simp }
  flocker := fun _ => none
  alive := fun p => p = 2 || p = 3
  pc := fun _ => .outside

theorem twoProcesses_quiet (old : Option (List Char)) : Quiet (twoProcesses old) := fun _ => rfl

/-- Calls that answer as asked. -/
def calls (p : Nat) (n : Nat) : List LockEvent := List.replicate n (.call p .done)

/-- The processes 2 and 3 examine the lock of the dead process 7 one beside the other; 2
removes it and creates its own before 3 reads again. -/
def contended : List LockEvent :=
  [.lock 2 5, .lock 3 2] ++ calls 2 5 ++ calls 3 5 ++ calls 2 1 ++ calls 3 1 ++ calls 2 4 ++
    calls 3 2

theorem lck_locking_exclusive_stale :
    ∃ w', run lockStep (twoProcesses (some (numid 7))) contended = some w' ∧
      w'.Holding 2 ∧ w'.pc 3 = .refused ∧ ∀ p q, w'.Holding p → w'.Holding q → p = q := by
  have hheld : (run lockStep (twoProcesses (some (numid 7))) contended).any
      (fun w => (w.alive 2 && (w.pc 2).holding) && decide (w.pc 3 = .refused)) = true := by
    decide +kernel
  obtain ⟨w', hr, hw'⟩ := (Option.any_eq_true _ _).1 hheld
  rw [Bool.and_eq_true, Bool.and_eq_true, decide_eq_true_eq] at hw'
  refine ⟨w', hr, hw'.1, hw'.2, lck_locking_exclusive (twoProcesses_quiet _) ?_ hr⟩
  -- both processes up to the `unlink` of `rm_lock`
  iterate 12 refine Meets.cons trivial rfl ?_
  -- 2 removes the line of process 7, and 3 finds no file any more
  refine Meets.cons (Or.inr (Or.inr ⟨rfl, rfl, fun h => absurd h (by decide)⟩)) rfl ?_
  refine Meets.cons (Or.inr (Or.inl rfl)) rfl ?_
  -- 2 creates the file and writes its number
  refine Meets.cons (Or.inr rfl) rfl (Meets.cons trivial rfl (Meets.cons rfl rfl ?_))
  iterate 3 refine Meets.cons trivial rfl ?_
  exact trivial

/-- Both processes find no lock file, and then both create it. -/
theorem lck_locking_both_granted :
    ¬ ∀ (w w' : World) (es : List LockEvent), Quiet w → run lockStep w es = some w' →
      ∀ p q, w'.Holding p → w'.Holding q → p = q := by
  intro hall
  have hboth : (run lockStep (twoProcesses none)
      ([LockEvent.lock 2 5, .lock 3 5] ++ calls 2 2 ++ calls 3 2 ++ calls 2 4 ++ calls 3 4)).any
        (fun w => w.alive 2 && (w.pc 2).holding && (w.alive 3 && (w.pc 3).holding)) = true := by
    decide +kernel
  obtain ⟨w', hr, hw'⟩ := (Option.any_eq_true _ _).1 hboth
  simp only [Bool.and_eq_true] at hw'
  exact absurd (hall _ w' _ (twoProcesses_quiet none) hr 2 3 hw'.1 hw'.2) (by decide)

end Vzgot.Lock

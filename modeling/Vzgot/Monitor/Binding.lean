import Mathlib.Algebra.Order.Group.Int
import Vzgot.Library.Window
import Vzgot.Monitor.Mounts

/-!
# The limiter `check_binding`

`check_binding` (`lib/unimon.c`) keeps the times of the requests that it accepted in a
static array of `MXTRY` places. `Binding` holds the array and its count, and a call also
notes the places of the array that it reads or writes (`Checked`). The list in
`checkBinding` is the used part of the array (`checkBinding_entries`). The limiter is to
accept `MXTRY` requests in `TRYGAP`; it skips its test only below `MXTRY-1` requests and
so accepts one less (`checkBinding_exact_iff`).
-/

set_option autoImplicit false

namespace Vzgot.Monitor

open Vzgot.Window

/-! ## The array -/

/-- `last` and `count`. -/
structure Binding where
  last : Nat → Int
  count : Nat

/-- Static variables of a new process. -/
def Binding.zero : Binding := ⟨fun _ => 0, 0⟩

/-- The times that are kept, oldest first. -/
def Binding.entries (b : Binding) : List Int := (List.range b.count).map b.last

/-- `memmove(last,last+1,sizeof(time_t)*count)` -/
def moveDown (last : Nat → Int) (count : Nat) : Nat → Int :=
  fun i => if i < count then last (i + 1) else last i

/-- Phase 0: drops the times up to `oldest`, and notes the places of the array that it
comes to. -/
def purge (oldest : Int) : Nat → (Nat → Int) → Binding × List Nat
  | 0, last => (⟨last, 0⟩, [])
  | count + 1, last =>
      if last 0 ≤ oldest then
        let moved := if 0 < count then moveDown last count else last
        let r := purge oldest count (Function.update moved count 0)
        (r.1, 0 :: (if 0 < count then List.range (count + 1) else []) ++ count :: r.2)
      else (⟨last, count + 1⟩, [0])

/-- Phase 2: takes note of a request. -/
def Binding.note (b : Binding) (curtime : Int) : Binding where
  last := Function.update b.last b.count curtime
  count := b.count + 1

/-- Result of a call, the static variables behind it, and the places of the array that
it reads or writes. -/
structure Checked where
  isok : Bool
  binding : Binding
  touched : List Nat

/-- `check_binding` -/
def Binding.checkBinding (b : Binding) (curtime : Int) : Checked :=
  let p := purge (curtime - tryGap) b.count b.last
  -- below `MXTRY-1` requests phase 1 is skipped
  if p.1.count < mxTry - 1 then ⟨true, p.1.note curtime, p.2 ++ [p.1.count]⟩
  else if curtime - tryGap < p.1.last 0 then ⟨false, p.1, p.2 ++ [0]⟩
  else ⟨true, p.1.note curtime, p.2 ++ [0, p.1.count]⟩

/-- Static variables behind calls at the times `ts`, newest first. -/
def Binding.after : List Int → Binding
  | [] => .zero
  | t :: ts => ((Binding.after ts).checkBinding t).binding

/-- Times and results of the calls. -/
def results : List Int → List (Int × Bool)
  | [] => []
  | t :: ts => (t, ((Binding.after ts).checkBinding t).isok) :: results ts

/-- Places of the array that the calls read or write. -/
def touched : List Int → List Nat
  | [] => []
  | t :: ts => ((Binding.after ts).checkBinding t).touched ++ touched ts

@[simp] theorem results_times (ts : List Int) : (results ts).map Prod.fst = ts := by
  induction ts with
  | nil => rfl
  | cons t ts ih => rw [results, List.map_cons, ih]

/-! ## The places of the array -/

/-- Phase 0 leaves a time behind `oldest` in front, if any. -/
theorem purge_front (oldest : Int) (count : Nat) (last : Nat → Int) :
    (purge oldest count last).1.count = 0 ∨ oldest < (purge oldest count last).1.last 0 := by
  induction count generalizing last with
  | zero => exact .inl rfl
  | succ count ih =>
      rw [purge]
      split
      · exact ih _
      · rename_i hnew
        exact .inr (not_le.mp hnew)

theorem purge_count_le (oldest : Int) (count : Nat) (last : Nat → Int) :
    (purge oldest count last).1.count ≤ count := by
  induction count generalizing last with
  | zero => exact Nat.le_refl 0
  | succ count ih =>
      rw [purge]
      split
      · exact (ih _).trans (Nat.le_succ count)
      · exact Nat.le_refl _

/-- Phase 0 stays in the used part of the array. -/
theorem purge_touched {oldest : Int} {count : Nat} {last : Nat → Int} {i : Nat}
    (h : i ∈ (purge oldest count last).2) : i < count := by
  induction count generalizing last with
  | zero => cases h
  | succ count ih =>
      rw [purge] at h
      split at h
      · simp only [List.cons_append, List.mem_cons, List.mem_append] at h
        rcases h with rfl | h | rfl | h
        · exact Nat.succ_pos count
        · split at h
          · exact List.mem_range.mp h
          · cases h
        · exact Nat.lt_succ_self _
        · exact (ih h).trans (Nat.lt_succ_self count)
      · rw [List.mem_singleton.mp h]
        exact Nat.succ_pos count

/-- With at most `MXTRY-1` times kept, a call stays in the array and keeps at most as many. -/
theorem Binding.checkBinding_bounds {b : Binding} (hb : b.count ≤ mxTry - 1) (curtime : Int) :
    (b.checkBinding curtime).binding.count ≤ mxTry - 1 ∧
      ∀ i ∈ (b.checkBinding curtime).touched, i < mxTry := by
  have hcount := (purge_count_le (curtime - tryGap) b.count b.last).trans hb
  have hfront := purge_front (curtime - tryGap) b.count b.last
  have htouched : ∀ i ∈ (purge (curtime - tryGap) b.count b.last).2, i < mxTry := by
    intro i hi
    exact (purge_touched hi).trans_le (hb.trans (Nat.sub_le mxTry 1))
  rw [Binding.checkBinding]
  generalize purge (curtime - tryGap) b.count b.last = p at hcount hfront htouched
  split
  · rename_i hroom
    refine ⟨hroom, fun i hi => ?_⟩
    rcases List.mem_append.mp hi with hi | hi
    · exact htouched i hi
    · rw [List.mem_singleton.mp hi]
      exact hroom.trans_le (Nat.sub_le mxTry 1)
  · rename_i hfull
    have hpos : p.1.count ≠ 0 := fun h => hfull (h ▸ by decide)
    rw [if_pos (hfront.resolve_left hpos)]
    refine ⟨hcount, fun i hi => ?_⟩
    rcases List.mem_append.mp hi with hi | hi
    · exact htouched i hi
    · rw [List.mem_singleton.mp hi]
      decide

theorem Binding.after_count (ts : List Int) : (Binding.after ts).count ≤ mxTry - 1 := by
  induction ts with
  | nil => exact Nat.zero_le _
  | cons t ts ih => exact (checkBinding_bounds ih t).1

/-- No call leaves the array, whatever the clock does. -/
theorem touched_lt (ts : List Int) : ∀ i ∈ touched ts, i < mxTry := by
  induction ts with
  | nil => exact fun i hi => nomatch hi
  | cons t ts ih =>
      intro i hi
      rcases List.mem_append.mp hi with hi | hi
      · exact (Binding.checkBinding_bounds (Binding.after_count ts) t).2 i hi
      · exact ih i hi

/-! ## The list of the array -/

theorem entries_succ (last : Nat → Int) (count : Nat) :
    Binding.entries ⟨last, count + 1⟩ = last 0 :: (List.range count).map fun i => last (i + 1) := by
  rw [Binding.entries, List.range_succ_eq_map, List.map_cons, List.map_map]
  rfl

/-- Moving the array down drops its first time. -/
theorem entries_moveDown (last : Nat → Int) (count : Nat) :
    Binding.entries ⟨Function.update (if 0 < count then moveDown last count else last) count 0,
      count⟩ = (List.range count).map fun i => last (i + 1) := by
  refine List.map_congr_left fun i hi => ?_
  have hi := List.mem_range.mp hi
  simp only [if_pos (Nat.zero_lt_of_lt hi)]
  rw [Function.update_of_ne (Nat.ne_of_lt hi), moveDown, if_pos hi]

theorem purge_entries (oldest : Int) (count : Nat) (last : Nat → Int) :
    (purge oldest count last).1.entries =
      (Binding.entries ⟨last, count⟩).dropWhile fun t => t ≤ oldest := by
  induction count generalizing last with
  | zero => rfl
  | succ count ih =>
      rw [purge, entries_succ]
      split
      · rename_i hold
        rw [ih, entries_moveDown, List.dropWhile_cons, if_pos (decide_eq_true hold)]
      · rename_i hnew
        rw [List.dropWhile_cons, if_neg (by simpa using hnew), ← entries_succ]

theorem Binding.note_entries (b : Binding) (curtime : Int) :
    (b.note curtime).entries = b.entries ++ [curtime] := by
  have hold : (List.range b.count).map (Function.update b.last b.count curtime) = b.entries :=
    List.map_congr_left fun i hi => Function.update_of_ne (Nat.ne_of_lt (List.mem_range.mp hi)) ..
  simp only [note, entries, List.range_succ, List.map_append, List.map_singleton,
    Function.update_self]
  rw [hold, entries]

@[simp] theorem Binding.length_entries (b : Binding) : b.entries.length = b.count := by
  simp [entries]

/-- The call works on the list of the array. -/
theorem checkBinding_entries (b : Binding) (curtime : Int) :
    checkBinding curtime b.entries =
      ((b.checkBinding curtime).isok, (b.checkBinding curtime).binding.entries) := by
  have hentries := purge_entries (curtime - tryGap) b.count b.last
  rw [Vzgot.Monitor.checkBinding, Binding.checkBinding, ← hentries]
  generalize purge (curtime - tryGap) b.count b.last = p
  obtain ⟨⟨last, count⟩, ndx⟩ := p
  simp only [Binding.length_entries]
  by_cases hroom : count < mxTry - 1
  · rw [if_pos hroom, if_pos hroom, Binding.note_entries]
  · obtain ⟨n, rfl⟩ : ∃ n, count = n + 1 := ⟨count - 1, by simp only [mxTry] at hroom; omega⟩
    have hhead : (Binding.entries ⟨last, n + 1⟩).headD 0 = last 0 := by rw [entries_succ]; rfl
    rw [if_neg hroom, if_neg hroom, hhead]
    split
    · rfl
    · rw [Binding.note_entries]

/-! ## The limit -/

/-- `kept` holds, in order, the requests of `h` that were accepted and may still count. -/
structure Kept (h : List (Int × Bool)) (kept : List Int) : Prop where
  sorted : kept.Pairwise (· ≤ ·)
  old : ∀ t, (∀ c ∈ h, c.1 ≤ t) → ∀ s ∈ kept, s ≤ t
  count : ∀ t, (∀ c ∈ h, c.1 ≤ t) →
    (kept.filter fun s => t - tryGap < s).length = admitted tryGap h t

theorem kept_nil : Kept [] [] where
  sorted := List.Pairwise.nil
  old _ _ _ hs := nomatch hs
  count _ _ := rfl

/-- A request accepts exactly below `MXTRY-1` accepted requests in its window. -/
theorem checkBinding_eq {h : List (Int × Bool)} {kept : List Int} (hk : Kept h kept) {t : Int}
    (ht : ∀ c ∈ h, c.1 ≤ t) :
    checkBinding t kept =
      if admitted tryGap h t < mxTry - 1 then
        (true, (kept.filter fun s => t - tryGap < s) ++ [t])
      else (false, kept.filter fun s => t - tryGap < s) := by
  rw [checkBinding, dropWhile_eq_filter hk.sorted, ← hk.count t ht]
  split
  · rfl
  · rename_i hfull
    have hhead : t - tryGap < (kept.filter fun s => t - tryGap < s).headD 0 := by
      cases hf : kept.filter fun s => t - tryGap < s with
      | nil => exact absurd (by rw [hf]; decide) hfull
      | cons s rest =>
          have hs : s ∈ kept.filter fun s => t - tryGap < s := hf ▸ List.mem_cons_self
          exact of_decide_eq_true (List.mem_filter.mp hs).2
    rw [if_pos hhead]

/-- What a call keeps is what it is to keep. -/
theorem Kept.call {h : List (Int × Bool)} {kept : List Int} (hk : Kept h kept) {t : Int}
    (ht : ∀ c ∈ h, c.1 ≤ t) :
    Kept ((t, (checkBinding t kept).1) :: h) (checkBinding t kept).2 := by
  have hsorted : (kept.filter fun s => t - tryGap < s).Pairwise (· ≤ ·) := hk.sorted.filter _
  have hold : ∀ s ∈ kept.filter fun s => t - tryGap < s, s ≤ t :=
    fun s hs => hk.old t ht s (List.mem_filter.mp hs).1
  have hcount : ∀ t', t ≤ t' → (∀ c ∈ h, c.1 ≤ t') →
      ((kept.filter fun s => t - tryGap < s).filter fun s => t' - tryGap < s).length =
        admitted tryGap h t' := by
    intro t' htt' ht'
    rw [List.filter_filter, ← hk.count t' ht']
    congr 1
    refine List.filter_congr fun s _ => ?_
    by_cases hs : t' - tryGap < s
    · simp [hs, lt_of_le_of_lt (sub_le_sub_right htt' tryGap) hs]
    · simp [hs]
  rw [checkBinding_eq hk ht]
  split
  · refine ⟨?_, ?_, ?_⟩
    · rw [List.pairwise_append]
      refine ⟨hsorted, List.pairwise_singleton _ _, fun s hs r hr => ?_⟩
      rw [List.mem_singleton.mp hr]
      exact hold s hs
    · intro t' ht' s hs
      rw [List.forall_mem_cons] at ht'
      rcases List.mem_append.mp hs with hs | hs
      · exact (hold s hs).trans ht'.1
      · rw [List.mem_singleton.mp hs]
        exact ht'.1
    · intro t' ht'
      rw [List.forall_mem_cons] at ht'
      rw [List.filter_append, List.length_append, hcount t' ht'.1 ht'.2, admitted_cons]
      by_cases hrecent : t' - tryGap < t
      · simp [Recent, hrecent, ht'.1]
      · simp [Recent, hrecent]
  · refine ⟨hsorted, ?_, ?_⟩
    · intro t' ht' s hs
      rw [List.forall_mem_cons] at ht'
      exact (hold s hs).trans ht'.1
    · intro t' ht'
      rw [List.forall_mem_cons] at ht'
      rw [hcount t' ht'.1 ht'.2, admitted_cons]
      simp

/-- Along calls at times in order, the list keeps what it is to keep, and `check_binding`
is a limiter to `MXTRY-1`. -/
theorem results_limits {ts : List Int} (hs : ts.Pairwise (· ≥ ·)) :
    Kept (results ts) (Binding.after ts).entries ∧ Limits tryGap (mxTry - 1) (results ts) := by
  induction ts with
  | nil => exact ⟨kept_nil, trivial⟩
  | cons t ts ih =>
      rw [List.pairwise_cons] at hs
      obtain ⟨hkept, hlimits⟩ := ih hs.2
      have ht : ∀ c ∈ results ts, c.1 ≤ t := by
        intro c hc
        refine hs.1 c.1 ?_
        rw [← results_times ts]
        exact List.mem_map_of_mem hc
      have hcall := hkept.call ht
      have heq := checkBinding_eq hkept ht
      have hentries := checkBinding_entries (Binding.after ts) t
      refine ⟨?_, ?_, hlimits⟩
      · rw [hentries] at hcall
        exact hcall
      · have hisok : ((Binding.after ts).checkBinding t).isok =
            (checkBinding t (Binding.after ts).entries).1 := by rw [hentries]
        rw [hisok, heq]
        split
        · rename_i hroom
          exact ⟨fun _ => hroom, fun _ => rfl⟩
        · rename_i hfull
          exact ⟨fun hno => Bool.noConfusion hno, fun hroom => absurd hroom hfull⟩

/-- No access leaves the array. At times in order, a request is accepted exactly when fewer
than `MXTRY` were accepted in its window if and only if no request has `MXTRY-1` others
before it in its window. -/
theorem checkBinding_exact_iff (ts : List Int) :
    (∀ i ∈ touched ts, i < mxTry) ∧
      (ts.Pairwise (· ≥ ·) →
        (Limits tryGap mxTry (results ts) ↔ Within tryGap (mxTry - 1) ts)) := by
  refine ⟨touched_lt ts, fun hs => ?_⟩
  have hlimits := (results_limits hs).2
  rw [hlimits.iff_within (by decide) (by rw [results_times]; exact hs), results_times]

/-- Two requests half an hour apart. -/
theorem checkBinding_exact_apart :
    ([1800, 0] : List Int).Pairwise (· ≥ ·) ∧ Limits tryGap mxTry (results [1800, 0]) :=
  ⟨by decide, ((checkBinding_exact_iff [1800, 0]).2 (by decide)).mpr (by decide)⟩

/-- Fifty requests in one second: the last one is refused, with 49 accepted before it. -/
theorem checkBinding_refuses_fiftieth :
    (List.replicate 50 (0 : Int)).Pairwise (· ≥ ·) ∧
      ¬ Limits tryGap mxTry (results (List.replicate 50 0)) := by
  decide +kernel

end Vzgot.Monitor

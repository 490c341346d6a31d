import Mathlib.Algebra.Order.Group.Defs
import Mathlib.Algebra.Order.Sub.Basic
import Mathlib.Data.List.Basic

/-!
# Limits on the calls of a sliding window

A history is a list of calls, newest first, each with its time and whether it was
admitted. A limiter admits a call when fewer than `n` of the calls of the last `width`
were admitted (`Limits`). It admits at most `n` calls in a window (`Limits.admitted_le`),
and so it also limits to a larger number exactly when it never has to refuse one
(`Limits.iff_within`).
-/

set_option autoImplicit false

namespace Vzgot.Window

universe u

variable {α : Type u} [AddCommGroup α] [LinearOrder α] {width : α} {n m : Nat}

/-- The time `s` is one of the last `width` before `t`. -/
def Recent (width t s : α) : Prop := t - width < s ∧ s ≤ t

instance (width t s : α) : Decidable (Recent width t s) := inferInstanceAs (Decidable (_ ∧ _))

/-- Number of calls in the window that ends at `t`. -/
def asked (width : α) (ts : List α) (t : α) : Nat := ts.countP fun s => Recent width t s

/-- Number of calls admitted in the window that ends at `t`. -/
def admitted (width : α) (h : List (α × Bool)) (t : α) : Nat :=
  h.countP fun c => c.2 && Recent width t c.1

/-- A call is admitted exactly when fewer than `n` were admitted in its window. -/
def Limits (width : α) (n : Nat) : List (α × Bool) → Prop
  | [] => True
  | c :: h => (c.2 = true ↔ admitted width h c.1 < n) ∧ Limits width n h

/-- No call has `n` or more others before it in its window. -/
def Within (width : α) (n : Nat) : List α → Prop
  | [] => True
  | t :: ts => asked width ts t < n ∧ Within width n ts

instance decidableLimits : (h : List (α × Bool)) → Decidable (Limits width n h)
  | [] => isTrue trivial
  | _ :: h => @instDecidableAnd _ _ _ (decidableLimits h)

instance decidableWithin : (ts : List α) → Decidable (Within width n ts)
  | [] => isTrue trivial
  | _ :: ts => @instDecidableAnd _ _ _ (decidableWithin ts)

theorem admitted_cons (c : α × Bool) (h : List (α × Bool)) (t : α) :
    admitted width (c :: h) t =
      admitted width h t + if c.2 = true ∧ Recent width t c.1 then 1 else 0 := by
  simp [admitted, List.countP_cons]

theorem admitted_le_asked (h : List (α × Bool)) (t : α) :
    admitted width h t ≤ asked width (h.map Prod.fst) t := by
  rw [admitted, asked, List.countP_map]
  refine List.countP_mono_left fun c _ hc => ?_
  simp only [Bool.and_eq_true, decide_eq_true_eq] at hc
  exact decide_eq_true hc.2

/-- Where every call was admitted, the two numbers agree. -/
theorem admitted_eq_asked {h : List (α × Bool)} (hall : ∀ c ∈ h, c.2 = true) (t : α) :
    admitted width h t = asked width (h.map Prod.fst) t := by
  rw [admitted, asked, List.countP_map]
  refine List.countP_congr fun c hc => ?_
  simp [hall c hc]

/-- A limiter that is never asked more than it admits never refuses. -/
theorem Limits.admits_all {h : List (α × Bool)} (hl : Limits width n h)
    (hw : Within width n (h.map Prod.fst)) : ∀ c ∈ h, c.2 = true := by
  induction h with
  | nil => exact fun c hc => nomatch hc
  | cons c h ih =>
      rw [List.forall_mem_cons]
      exact ⟨hl.1.mpr ((admitted_le_asked h c.1).trans_lt hw.1), ih hl.2 hw.2⟩

omit [AddCommGroup α] in
/-- In a sorted list, the times that have left the window are at the front. -/
theorem dropWhile_eq_filter {ts : List α} (hs : ts.Pairwise (· ≤ ·)) (oldest : α) :
    ts.dropWhile (fun s => s ≤ oldest) = ts.filter fun s => oldest < s := by
  induction ts with
  | nil => rfl
  | cons t ts ih =>
      rw [List.pairwise_cons] at hs
      by_cases ht : t ≤ oldest
      · rw [List.dropWhile_cons, if_pos (decide_eq_true ht), ih hs.2, List.filter_cons,
          if_neg (by simpa using ht)]
      · have hlater : ∀ s ∈ t :: ts, oldest < s := by
          intro s hmem
          rcases List.mem_cons.mp hmem with rfl | hmem
          · exact not_le.mp ht
          · exact (not_le.mp ht).trans_le (hs.1 s hmem)
        rw [List.dropWhile_cons, if_neg (by simpa using ht), List.filter_eq_self.mpr]
        exact fun s hmem => decide_eq_true (hlater s hmem)

variable [IsOrderedAddMonoid α]

/-- A call in the window that ends at `t` is in the window of any call between the two. -/
theorem Recent.between {s r t : α} (h : Recent width t s) (hsr : s ≤ r) (hrt : r ≤ t) :
    Recent width r s :=
  ⟨lt_of_le_of_lt (sub_le_sub_right hrt width) h.1, hsr⟩

/-- What was admitted in the window at `t`, up to an earlier call, was admitted in the
window of that call. -/
theorem admitted_mono {h : List (α × Bool)} {r t : α} (hrt : r ≤ t)
    (hle : ∀ c ∈ h, c.1 ≤ r) : admitted width h t ≤ admitted width h r := by
  refine List.countP_mono_left fun c hc hrecent => ?_
  simp only [Bool.and_eq_true, decide_eq_true_eq] at hrecent ⊢
  exact ⟨hrecent.1, hrecent.2.between (hle c hc) hrt⟩

/-- A limiter admits at most `n` calls in a window. -/
theorem Limits.admitted_le {h : List (α × Bool)} (hl : Limits width n h)
    (hs : (h.map Prod.fst).Pairwise (· ≥ ·)) {t : α} (ht : ∀ c ∈ h, c.1 ≤ t) :
    admitted width h t ≤ n := by
  induction h with
  | nil => exact Nat.zero_le n
  | cons c h ih =>
      rw [List.map_cons, List.pairwise_cons] at hs
      have hle : ∀ d ∈ h, d.1 ≤ c.1 := fun d hd => hs.1 d.1 (List.mem_map_of_mem hd)
      have hct := ht c List.mem_cons_self
      have hrest := ih hl.2 hs.2 fun d hd => (hle d hd).trans hct
      rw [admitted_cons]
      split
      · -- the newest call was admitted, so there was room in its own window
        rename_i hc
        have hroom := hl.1.mp hc.1
        have hmono : admitted width h t ≤ admitted width h c.1 := admitted_mono hct hle
        omega
      · exact hrest

/-- A limiter to `n` is one to the larger `m` if and only if it never has to refuse: no
call has `n` others in its window. -/
theorem Limits.iff_within {h : List (α × Bool)} (hl : Limits width n h) (hnm : n < m)
    (hs : (h.map Prod.fst).Pairwise (· ≥ ·)) :
    Limits width m h ↔ Within width n (h.map Prod.fst) := by
  induction h with
  | nil => simp [Limits, Within]
  | cons c h ih =>
      rw [List.map_cons, List.pairwise_cons] at hs
      have hle : ∀ d ∈ h, d.1 ≤ c.1 := fun d hd => hs.1 d.1 (List.mem_map_of_mem hd)
      have hmost := hl.2.admitted_le hs.2 hle
      rw [Limits, ih hl.2 hs.2, List.map_cons, Within, hl.1]
      constructor
      · rintro ⟨hc, hwithin⟩
        have hroom : admitted width h c.1 < n := hc.mpr (hmost.trans_lt hnm)
        exact ⟨admitted_eq_asked (hl.2.admits_all hwithin) c.1 ▸ hroom, hwithin⟩
      · rintro ⟨hroom, hwithin⟩
        have hadmitted := (admitted_le_asked h c.1).trans_lt hroom
        exact ⟨⟨fun _ => hadmitted.trans hnm, fun _ => hadmitted⟩, hwithin⟩

end Vzgot.Window

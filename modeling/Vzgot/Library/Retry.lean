import Mathlib.Data.Nat.Notation

/-!
# A countdown of attempts

`countdown attempt n` makes the attempts `n`, `n-1`, down to `1` and stops at the first
one that ends with a result; it is the loop `while (n>0) { .. n--; }`. A result is the one
of an attempt behind attempts without a result (`countdown_eq_some`), and there is only
one such result (`Settles.unique`).
-/

set_option autoImplicit false

namespace Vzgot.Retry

variable {β : Type*}

/-- The first result, from `n` down to `1`. -/
def countdown (attempt : ℕ → Option β) : ℕ → Option β
  | 0 => none
  | n + 1 =>
      match attempt (n + 1) with
      | some b => some b
      | none => countdown attempt n

/-- An attempt ends with `b`, and those before it end with nothing. -/
def Settles (attempt : ℕ → Option β) (n : ℕ) (b : β) : Prop :=
  ∃ t, 0 < t ∧ t ≤ n ∧ attempt t = some b ∧ ∀ u, t < u → u ≤ n → attempt u = none

variable {attempt : ℕ → Option β} {n : ℕ} {b : β}

theorem Settles.here (h : attempt (n + 1) = some b) : Settles attempt (n + 1) b :=
  ⟨n + 1, Nat.succ_pos n, Nat.le_refl _, h, fun u hu hle => absurd hle (by omega)⟩

theorem Settles.later (h : attempt (n + 1) = none) (hb : Settles attempt n b) :
    Settles attempt (n + 1) b := by
  obtain ⟨t, hpos, hle, hb, hbefore⟩ := hb
  refine ⟨t, hpos, by omega, hb, fun u hu hle => ?_⟩
  by_cases hn : u = n + 1
  · rw [hn, h]
  · exact hbefore u hu (by omega)

theorem countdown_settles (h : countdown attempt n = some b) : Settles attempt n b := by
  induction n with
  | zero => exact absurd h (Option.some_ne_none b ∘ Eq.symm)
  | succ n ih =>
      rw [countdown] at h
      cases hn : attempt (n + 1) with
      | none =>
          rw [hn] at h
          exact (ih h).later hn
      | some a =>
          rw [hn] at h
          exact Settles.here (hn.trans h)

/-- Attempts that do not end leave nothing. -/
theorem countdown_eq_none (h : countdown attempt n = none) {t : ℕ} (hpos : 0 < t) (hle : t ≤ n) :
    attempt t = none := by
  induction n with
  | zero => omega
  | succ n ih =>
      rw [countdown] at h
      cases hn : attempt (n + 1) with
      | none =>
          rw [hn] at h
          by_cases ht : t = n + 1
          · rw [ht, hn]
          · exact ih h (by omega)
      | some a =>
          rw [hn] at h
          exact absurd h (Option.some_ne_none a)

/-- The result of the countdown is the one that an attempt settles. -/
theorem countdown_eq_some : countdown attempt n = some b ↔ Settles attempt n b := by
  refine ⟨countdown_settles, fun hb => ?_⟩
  obtain ⟨t, hpos, hle, ht, hbefore⟩ := hb
  cases h : countdown attempt n with
  | none => exact absurd ((countdown_eq_none h hpos hle).symm.trans ht) (Option.some_ne_none b ∘ Eq.symm)
  | some a =>
      obtain ⟨s, hspos, hsle, hs, hsbefore⟩ := countdown_settles h
      rcases Nat.lt_trichotomy s t with hst | rfl | hts
      · exact absurd ((hsbefore t hst hle).symm.trans ht) (Option.some_ne_none b ∘ Eq.symm)
      · exact hs.symm.trans ht
      · exact absurd ((hbefore s hts hsle).symm.trans hs) (Option.some_ne_none a ∘ Eq.symm)

theorem Settles.unique {a : β} (ha : Settles attempt n a) (hb : Settles attempt n b) : a = b :=
  Option.some.inj ((countdown_eq_some.mpr ha).symm.trans (countdown_eq_some.mpr hb))

end Vzgot.Retry

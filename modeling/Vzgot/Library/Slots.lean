import Mathlib.Data.List.Basic

/-!
# Allocated blocks

A block is what one allocation gives, slot by slot. Reading a slot that holds nothing yet and
whatever is outside of the block have no result.
-/

set_option autoImplicit false

namespace Vzgot.Slots

universe u

variable {α : Type u}

/-- A slot, which holds a value once one has been stored. -/
inductive Slot (α : Type u) where
  | wild
  | val (a : α)

/-- The slots of an allocation, from its address on. -/
abbrev Block (α : Type u) := List (Slot α)

/-- `realloc` to `n` slots. -/
def realloc (b : Block α) (n : Nat) : Block α := b.take n ++ List.replicate (n - b.length) .wild

def get (b : Block α) (i : Int) : Option α :=
  if 0 ≤ i then
    match b[i.toNat]? with
    | some (.val a) => some a
    | _ => none
  else none

def put (b : Block α) (i : Int) (a : α) : Option (Block α) :=
  if 0 ≤ i ∧ i < b.length then some (b.set i.toNat (.val a)) else none

/-- `memcpy` of the first `n` slots of `src` to the slots from `i` on. -/
def copy (b : Block α) (i : Nat) (src : Block α) (n : Nat) : Option (Block α) :=
  if i + n ≤ b.length ∧ n ≤ src.length then
    some (b.take i ++ (src.take n ++ b.drop (i + n)))
  else none

section Rules

variable {b pre post src : Block α} {n : Nat}

theorem length_realloc (b : Block α) (n : Nat) : (realloc b n).length = n := by
  rw [realloc, List.length_append, List.length_take, List.length_replicate]
  omega

/-- What is in front of the new end stays. -/
theorem realloc_append (pre post : Block α) (n : Nat) :
    realloc (pre ++ post) (pre.length + n) = pre ++ realloc post n := by
  rw [realloc, realloc, List.take_length_add_append, List.length_append, List.append_assoc,
    Nat.add_sub_add_left]

theorem get_append (pre post : Block α) (a : α) :
    get (pre ++ .val a :: post) pre.length = some a := by
  rw [get, if_pos (Int.natCast_nonneg _), Int.toNat_natCast,
    List.getElem?_append_right (Nat.le_refl _), Nat.sub_self]
  rfl

theorem get_append_succ (pre post : Block α) (s : Slot α) (a : α) :
    get (pre ++ s :: .val a :: post) (pre.length + 1) = some a := by
  have h := get_append (pre ++ [s]) post a
  rw [List.length_append, List.length_singleton, List.append_assoc, List.singleton_append] at h
  exact h

theorem put_append (pre post : Block α) (s : Slot α) (a : α) :
    put (pre ++ s :: post) pre.length a = some (pre ++ .val a :: post) := by
  rw [put, if_pos, Int.toNat_natCast, List.set_append_right _ _ (Nat.le_refl _), Nat.sub_self,
    List.set_cons_zero]
  rw [List.length_append, List.length_cons]
  omega

theorem put_of_neg {i : Int} (hi : i < 0) (b : Block α) (a : α) : put b i a = none := by
  rw [put, if_neg]
  omega

theorem copy_append (hpost : n ≤ post.length) (hsrc : n ≤ src.length) :
    copy (pre ++ post) pre.length src n = some (pre ++ (src.take n ++ post.drop n)) := by
  rw [copy, if_pos, List.take_left, List.drop_length_add_append]
  rw [List.length_append]
  omega

theorem copy_of_length_lt {i : Nat} (h : b.length < i + n) : copy b i src n = none := by
  rw [copy, if_neg]
  omega

end Rules

end Vzgot.Slots

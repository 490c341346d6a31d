import Mathlib.Algebra.Order.Ring.Int
import Mathlib.Logic.Function.Basic
import Vzgot.Library.Slots

/-!
# Ordered lists

`vec_sizelstlst`, `vec_addlstlst`, `vec_mrglstlst` and `vec_rmlstlst` on arrays that end at
their first `NULL`. Whatever reads or writes outside of the last allocation, or reads what has
not been written, has no result.

Any sequence of calls does to the arrays what append, concatenation and the removal of the
first occurrence do to lists, as long as the lengths can be counted: `vec_addlstlst` counts
them in an `int`, the others in `unsigned int` (`refines_iff`).
-/

set_option autoImplicit false

namespace Vzgot.Lstlst

open Slots

variable {π : Type}

/-! ## The code -/

/-- The slots that `n` times `sizeof(void *)` bytes make, for `n` taken to a `size_t`. -/
def slots (n : Int) : Nat := (n * 8 % 2 ^ 64).toNat / 8

/-- The loop of `vec_sizelstlst`; `lptr` is what is left of the array. -/
def sizeLoop : Block (Option π) → Nat → Option Nat
  | .val (some _) :: lptr, num => sizeLoop lptr ((num + 1) % 2 ^ 32)
  | .val none :: _, num => some num
  | .wild :: _, _ => none
  | [], _ => none

def vecSizelstlst (lptr : Option (Block (Option π))) : Option Nat :=
  match lptr with
  | none => some 0
  | some lptr => sizeLoop lptr 0

def vecAddlstlst (lptr : Option (Block (Option π))) (payload : Option π) :
    Option (Block (Option π)) :=
  match lptr with
  | none => do
      let lptr ← put [.val none, .val none] 0 payload
      put lptr (0 + 1) none
  | some lptr => do
      let size ← vecSizelstlst (some lptr)
      let num := (BitVec.ofNat 32 size).toInt
      -- num+2 is an int
      if num + 2 < 2 ^ 31 then do
        let lptr ← put (realloc lptr (slots (num + 2))) num payload
        put lptr (num + 1) none
      else none

def vecMrglstlst (lptr ladd : Option (Block (Option π))) : Option (Option (Block (Option π))) :=
  match ladd with
  | none => some lptr
  | some ladd => do
      let lptr := lptr.getD [.val none]
      let t1 ← vecSizelstlst (some lptr)
      let t2 ← vecSizelstlst (some ladd)
      let lptr := realloc lptr (slots ((t1 + t2 + 1) % 2 ^ 32 : Nat))
      let lptr ← copy lptr t1 ladd (slots ((t2 + 1) % 2 ^ 32 : Nat))
      some (some lptr)

section Rm

variable [DecidableEq π]

/-- The loop of `vec_rmlstlst`; `i` is where `lptr` stands in the array. The slot that holds
the payload is looked at twice. -/
def rmLoop (payload : Option π) :
    Nat → Block (Option π) → Int → Bool → Option (Bool × Block (Option π))
  | 0, _, _, _ => none
  | n + 1, b, i, success => do
      let cur ← get b i
      if cur = none then some (success, b)
      else if success = false then
        if cur = payload then rmLoop payload n b (i - 1 + 1) true
        else rmLoop payload n b (i + 1) false
      else do
        let next ← get b (i + 1)
        let b ← put b i next
        rmLoop payload n b (i + 1) true

def vecRmlstlst (lptr : Option (Block (Option π))) (payload : Option π) :
    Option (Bool × Option (Block (Option π))) :=
  match lptr with
  | none => some (false, none)
  | some lptr => do
      let (success, lptr) ← rmLoop payload (lptr.length + 2) lptr 0 false
      some (success, some lptr)

end Rm

/-! ## What an array is -/

/-- The payloads in a row. -/
def row (l : List π) : Block (Option π) := l.map fun p => .val (some p)

@[simp] theorem length_row (l : List π) : (row l).length = l.length := List.length_map _

theorem row_append (l l' : List π) : row (l ++ l') = row l ++ row l' := List.map_append

/-- The array represents the list: the payloads, the `NULL` behind them, and what is left of
the allocation. The empty list may be `NULL` itself. -/
inductive Represents : Option (Block (Option π)) → List π → Prop where
  | null : Represents none []
  | array (l : List π) (rest : Block (Option π)) : Represents (some (row l ++ .val none :: rest)) l

theorem sizeLoop_eq (l : List π) (rest : Block (Option π)) (num : Nat)
    (hl : num + l.length < 2 ^ 32) :
    sizeLoop (row l ++ .val none :: rest) num = some (num + l.length) := by
  induction l generalizing num with
  | nil => rfl
  | cons p l ih =>
      rw [List.length_cons] at hl
      have hnum : (num + 1) % 2 ^ 32 = num + 1 := Nat.mod_eq_of_lt (by omega)
      have hstep : sizeLoop (row (p :: l) ++ .val none :: rest) num =
          sizeLoop (row l ++ .val none :: rest) ((num + 1) % 2 ^ 32) := rfl
      rw [hstep, hnum, ih (num + 1) (by omega), List.length_cons]
      congr 1
      omega

theorem vecSizelstlst_eq {lptr : Option (Block (Option π))} {l : List π} (hs : Represents lptr l)
    (hl : l.length < 2 ^ 32) : vecSizelstlst lptr = some l.length := by
  cases hs with
  | null => rfl
  | array _ rest => rw [vecSizelstlst, sizeLoop_eq l rest 0 (by omega), Nat.zero_add]

/-- A length taken to an `int`. -/
theorem toInt_of_lt {n : Nat} (hn : n < 2 ^ 31) : (BitVec.ofNat 32 n).toInt = n := by
  rw [BitVec.toInt_ofNat', Int.bmod_eq_of_le (by omega) (by omega)]

theorem toInt_neg {n : Nat} (hn : 2 ^ 31 ≤ n) (hlt : n < 2 ^ 32) : (BitVec.ofNat 32 n).toInt < 0 := by
  rw [BitVec.toInt_eq_toNat_cond, BitVec.toNat_ofNat, Nat.mod_eq_of_lt hlt, if_neg (by omega)]
  omega

theorem slots_natCast {n : Nat} (hn : n < 2 ^ 61) : slots n = n := by
  rw [slots, Int.emod_eq_of_lt (by omega) (by omega)]
  omega

/-! ## One call -/

theorem vecAddlstlst_represents {lptr : Option (Block (Option π))} {l : List π}
    (hs : Represents lptr l) (hl : l.length + 2 < 2 ^ 31) (p : π) :
    ∃ b, vecAddlstlst lptr (some p) = some b ∧ Represents (some b) (l ++ [p]) := by
  cases hs with
  | null => exact ⟨_, rfl, Represents.array [p] []⟩
  | array _ rest =>
      have hsize : vecSizelstlst (some (row l ++ .val none :: rest)) = some l.length :=
        vecSizelstlst_eq (.array l rest) (by omega)
      have hnum := toInt_of_lt (n := l.length) (by omega)
      have hslots : slots ((l.length : Int) + 2) = (row l).length + 2 := by
        rw [length_row]
        exact slots_natCast (n := l.length + 2) (by omega)
      -- the array has just the two slots that are written
      obtain ⟨c, d, hcd⟩ := List.length_eq_two.mp (length_realloc (.val none :: rest) 2)
      have hput := put_append (row l) [d] c (some p)
      have hput' := put_append (row l ++ [.val (some p)]) [] d none
      rw [List.length_append, List.length_singleton, List.append_assoc, List.singleton_append,
        List.append_assoc, List.singleton_append] at hput'
      rw [length_row] at hput hput'
      refine ⟨row l ++ [.val (some p), .val none], ?_, ?_⟩
      · rw [vecAddlstlst, hsize, Option.bind_eq_bind, Option.bind_some, hnum, if_pos (by omega),
          hslots, realloc_append, hcd, hput]
        exact hput'
      · have harray := Represents.array (l ++ [p]) []
        rw [row_append, List.append_assoc] at harray
        exact harray

/-- An addition the `int` cannot count: it overflows, or it is negative. -/
theorem vecAddlstlst_eq_none {lptr : Option (Block (Option π))} {l : List π}
    (hs : Represents lptr l) (hl : l.length < 2 ^ 32) (hlong : 2 ^ 31 ≤ l.length + 2)
    (payload : Option π) : vecAddlstlst lptr payload = none := by
  cases hs with
  | null => simp at hlong
  | array _ rest =>
      have hsize : vecSizelstlst (some (row l ++ .val none :: rest)) = some l.length :=
        vecSizelstlst_eq (.array l rest) hl
      rw [vecAddlstlst, hsize, Option.bind_eq_bind, Option.bind_some]
      by_cases hsmall : l.length < 2 ^ 31
      · have hnum := toInt_of_lt hsmall
        rw [hnum, if_neg (by omega)]
      · have hnum := toInt_neg (Nat.le_of_not_lt hsmall) hl
        rw [if_pos (by omega), put_of_neg hnum]
        rfl

theorem vecMrglstlst_represents {lptr ladd : Option (Block (Option π))} {l l' : List π}
    (hs : Represents lptr l) (hs' : Represents ladd l') (hl : l.length + l'.length + 1 < 2 ^ 32) :
    ∃ b, vecMrglstlst lptr ladd = some b ∧ Represents b (l ++ l') := by
  cases hs' with
  | null =>
      rw [List.append_nil]
      exact ⟨lptr, rfl, hs⟩
  | array _ rest' =>
      obtain ⟨rest, hgetD⟩ : ∃ rest, lptr.getD [.val none] = row l ++ .val none :: rest := by
        cases hs with
        | null => exact ⟨[], rfl⟩
        | array _ rest => exact ⟨rest, rfl⟩
      have ht1 : vecSizelstlst (some (row l ++ .val none :: rest)) = some l.length :=
        vecSizelstlst_eq (.array l rest) (by omega)
      have ht2 : vecSizelstlst (some (row l' ++ .val none :: rest')) = some l'.length :=
        vecSizelstlst_eq (.array l' rest') (by omega)
      have hslots : slots ((l.length + l'.length + 1) % 2 ^ 32 : Nat) =
          (row l).length + (l'.length + 1) := by
        rw [Nat.mod_eq_of_lt hl, slots_natCast (by omega), length_row, Nat.add_assoc]
      have hslots' : slots ((l'.length + 1) % 2 ^ 32 : Nat) = l'.length + 1 := by
        rw [Nat.mod_eq_of_lt (by omega), slots_natCast (by omega)]
      have hlength := length_realloc (.val none :: rest) (l'.length + 1)
      have hcopy := @copy_append _ (row l) (realloc (.val none :: rest) (l'.length + 1))
        (row l' ++ .val none :: rest') (l'.length + 1) (Nat.le_of_eq hlength.symm) (by simp)
      rw [List.drop_of_length_le (Nat.le_of_eq hlength), List.append_nil, ← length_row l',
        List.take_length_add_append, length_row, length_row] at hcopy
      refine ⟨some (row l ++ (row l' ++ [.val none])), ?_, ?_⟩
      · simp only [vecMrglstlst, hgetD, ht1, ht2, hslots, hslots', Option.bind_eq_bind,
          Option.bind_some, realloc_append, hcopy]
        rfl
      · have harray := Represents.array (l ++ l') []
        rw [row_append, List.append_assoc] at harray
        exact harray

/-- A merge the `unsigned int` cannot count: the array becomes shorter than what is copied. -/
theorem vecMrglstlst_eq_none {lptr ladd : Option (Block (Option π))} {l l' : List π}
    (hs : Represents lptr l) (hs' : Represents ladd l') (hl : l.length + 1 < 2 ^ 32)
    (hl' : l'.length + 1 < 2 ^ 32) (hlong : 2 ^ 32 ≤ l.length + l'.length + 1) :
    vecMrglstlst lptr ladd = none := by
  cases hs' with
  | null =>
      rw [List.length_nil] at hlong
      omega
  | array _ rest' =>
      cases hs with
      | null =>
          rw [List.length_nil] at hlong
          omega
      | array _ rest =>
          have ht1 : vecSizelstlst (some (row l ++ .val none :: rest)) = some l.length :=
            vecSizelstlst_eq (.array l rest) (by omega)
          have ht2 : vecSizelstlst (some (row l' ++ .val none :: rest')) = some l'.length :=
            vecSizelstlst_eq (.array l' rest') (by omega)
          have hslots := slots_natCast (n := (l.length + l'.length + 1) % 2 ^ 32) (by omega)
          have hslots' := slots_natCast (n := (l'.length + 1) % 2 ^ 32) (by omega)
          simp only [vecMrglstlst, Option.getD_some, ht1, ht2, Option.bind_eq_bind, Option.bind_some]
          rw [hslots, hslots', copy_of_length_lt, Option.bind_none]
          rw [length_realloc]
          omega

section Removing

variable [DecidableEq π]

variable {payload : Option π} {n : Nat} (pre post : Block (Option π))

theorem rmLoop_null (success : Bool) :
    rmLoop payload (n + 1) (pre ++ .val none :: post) pre.length success =
      some (success, pre ++ .val none :: post) := by
  rw [rmLoop, get_append, Option.bind_eq_bind, Option.bind_some, if_pos rfl]

theorem rmLoop_found {q : π} (hq : some q = payload) :
    rmLoop payload (n + 1) (pre ++ .val (some q) :: post) pre.length false =
      rmLoop payload n (pre ++ .val (some q) :: post) pre.length true := by
  rw [rmLoop, get_append, Option.bind_eq_bind, Option.bind_some, if_neg (Option.some_ne_none q),
    if_pos rfl, if_pos hq, Int.sub_add_cancel]

theorem rmLoop_skip {q : π} (hq : some q ≠ payload) :
    rmLoop payload (n + 1) (pre ++ .val (some q) :: post) pre.length false =
      rmLoop payload n (pre ++ .val (some q) :: post) (pre.length + 1) false := by
  rw [rmLoop, get_append, Option.bind_eq_bind, Option.bind_some, if_neg (Option.some_ne_none q),
    if_pos rfl, if_neg hq]

theorem rmLoop_copy (q : π) (next : Option π) :
    rmLoop payload (n + 1) (pre ++ .val (some q) :: .val next :: post) pre.length true =
      rmLoop payload n (pre ++ .val next :: .val next :: post) (pre.length + 1) true := by
  rw [rmLoop, get_append, Option.bind_eq_bind, Option.bind_some, if_neg (Option.some_ne_none q),
    if_neg (by decide), get_append_succ, Option.bind_eq_bind, Option.bind_some,
    put_append, Option.bind_some]

omit [DecidableEq π] in
/-- One slot further in the same array. -/
theorem append_slot (s : Slot (Option π)) :
    pre ++ s :: post = (pre ++ [s]) ++ post ∧ (pre.length : Int) + 1 = (pre ++ [s]).length := by
  refine ⟨by rw [List.append_assoc, List.singleton_append], ?_⟩
  rw [List.length_append, List.length_singleton, Int.natCast_add, Int.natCast_one]

/-- The slots behind the one that is given up come one place to the front, the `NULL` too. -/
theorem rmLoop_shift (q : π) (l : List π) (hn : l.length + 2 ≤ n) :
    rmLoop payload n (pre ++ .val (some q) :: (row l ++ .val none :: post)) pre.length true =
      some (true, pre ++ (row l ++ .val none :: .val none :: post)) := by
  induction l generalizing n pre q with
  | nil =>
      obtain ⟨n, rfl⟩ : ∃ m, n = m + 2 := ⟨n - 2, by rw [List.length_nil] at hn; omega⟩
      have hslot := append_slot pre (.val none :: post) (.val none)
      have hcopy := @rmLoop_copy _ _ payload (n + 1) pre post q none
      rw [hslot.1, hslot.2, rmLoop_null, ← hslot.1] at hcopy
      exact hcopy
  | cons p l ih =>
      obtain ⟨n, rfl⟩ : ∃ m, n = m + 1 := ⟨n - 1, by omega⟩
      rw [List.length_cons] at hn
      have hslot := append_slot pre (.val (some p) :: (row l ++ .val none :: post)) (.val (some p))
      have hcopy := @rmLoop_copy _ _ payload n pre (row l ++ .val none :: post) q (some p)
      have hn' : l.length + 2 ≤ n := by omega
      have hrest := ih (pre ++ [.val (some p)]) p hn'
      rw [hslot.1, hslot.2, hrest, List.append_assoc] at hcopy
      exact hcopy

/-- The first occurrence is given up; what is behind the `NULL` may have become one more. -/
theorem rmLoop_eq (p : π) (l : List π) (hn : l.length + 3 ≤ n) :
    ∃ rest, rmLoop (some p) n (pre ++ (row l ++ .val none :: post)) pre.length false =
      some (decide (p ∈ l), pre ++ (row (l.erase p) ++ .val none :: rest)) := by
  induction l generalizing n pre with
  | nil =>
      obtain ⟨n, rfl⟩ : ∃ m, n = m + 1 := ⟨n - 1, by omega⟩
      exact ⟨post, rmLoop_null pre post false⟩
  | cons q l ih =>
      obtain ⟨n, rfl⟩ : ∃ m, n = m + 1 := ⟨n - 1, by omega⟩
      rw [List.length_cons] at hn
      by_cases hq : q = p
      · subst hq
        refine ⟨.val none :: post, ?_⟩
        have hfound := @rmLoop_found _ _ (some q) n pre (row l ++ .val none :: post) q rfl
        rw [rmLoop_shift pre post q l (by omega)] at hfound
        rw [List.erase_cons_head, decide_eq_true List.mem_cons_self]
        exact hfound
      · have hslot := append_slot pre (row l ++ .val none :: post) (.val (some q))
        have hskip := @rmLoop_skip _ _ (some p) n pre (row l ++ .val none :: post) q
          (fun h => hq (Option.some.inj h))
        have hn' : l.length + 3 ≤ n := by omega
        obtain ⟨rest, hrest⟩ := ih (pre ++ [.val (some q)]) hn'
        rw [hslot.1, hslot.2, hrest, ← hslot.1, List.append_assoc] at hskip
        refine ⟨rest, ?_⟩
        have hmem : decide (p ∈ q :: l) = decide (p ∈ l) := by
          rw [decide_eq_decide, List.mem_cons, or_iff_right (Ne.symm hq)]
        rw [List.erase_cons_tail (by simpa using hq), hmem]
        exact hskip

theorem vecRmlstlst_represents {lptr : Option (Block (Option π))} {l : List π}
    (hs : Represents lptr l) (p : π) :
    ∃ lptr', vecRmlstlst lptr (some p) = some (decide (p ∈ l), lptr') ∧
      Represents lptr' (l.erase p) := by
  cases hs with
  | null => exact ⟨none, rfl, Represents.null⟩
  | array _ rest =>
      obtain ⟨rest', hloop⟩ := @rmLoop_eq _ _ ((row l ++ .val none :: rest).length + 2) [] rest p l
        (by rw [List.length_append, length_row, List.length_cons]; omega)
      refine ⟨some (row (l.erase p) ++ .val none :: rest'), ?_, Represents.array _ rest'⟩
      rw [vecRmlstlst]
      simp only [List.nil_append, List.length_nil, Int.natCast_zero] at hloop
      rw [hloop]
      rfl

end Removing

/-! ## Any sequence of calls -/

/-- A call on the arrays, which are numbered. The array that a merge gives up is another one
than that it adds to, and its number begins with `NULL` again. -/
inductive Call (π : Type) where
  | add (i : Nat) (payload : π)
  | mrg (i j : Nat) (other : i ≠ j)
  | rm (i : Nat) (payload : π)

variable [DecidableEq π]

/-- The arrays after a call, and whether `vec_rmlstlst` has found the payload. -/
def call (s : Nat → Option (Block (Option π))) :
    Call π → Option ((Nat → Option (Block (Option π))) × Option Bool)
  | .add i payload => do
      let lptr ← vecAddlstlst (s i) (some payload)
      some (Function.update s i (some lptr), none)
  | .mrg i j _ => do
      let lptr ← vecMrglstlst (s i) (s j)
      some (Function.update (Function.update s i lptr) j none, none)
  | .rm i payload => do
      let (success, lptr) ← vecRmlstlst (s i) (some payload)
      some (Function.update s i lptr, some success)

/-- What the call is for, on lists. -/
def listCall (ls : Nat → List π) : Call π → (Nat → List π) × Option Bool
  | .add i payload => (Function.update ls i (ls i ++ [payload]), none)
  | .mrg i j _ => (Function.update (Function.update ls i (ls i ++ ls j)) j [], none)
  | .rm i payload => (Function.update ls i ((ls i).erase payload), some (decide (payload ∈ ls i)))

/-- Every call has a result, what it returns is right and the arrays represent the lists
after it; `vec_sizelstlst` gives their lengths. -/
def Refines : (Nat → Option (Block (Option π))) → (Nat → List π) → List (Call π) → Prop
  | s, ls, [] => ∀ i, vecSizelstlst (s i) = some (ls i).length
  | s, ls, c :: calls => ∃ s', call s c = some (s', (listCall ls c).2) ∧
      (∀ i, Represents (s' i) ((listCall ls c).1 i)) ∧ Refines s' (listCall ls c).1 calls

/-- The lengths with which the call can count. -/
def Counted (ls : Nat → List π) : Call π → Prop
  | .add i _ => (ls i).length + 2 < 2 ^ 31
  | .mrg i j _ => (ls i).length + (ls j).length + 1 < 2 ^ 32
  | .rm _ _ => True

def AllCounted : (Nat → List π) → List (Call π) → Prop
  | _, [] => True
  | ls, c :: calls => Counted ls c ∧ AllCounted (listCall ls c).1 calls

/-- The arrays represent the lists, whose lengths and terminators can be counted. -/
structure Inv (s : Nat → Option (Block (Option π))) (ls : Nat → List π) : Prop where
  represents : ∀ i, Represents (s i) (ls i)
  length_lt : ∀ i, (ls i).length + 1 < 2 ^ 32

omit [DecidableEq π] in
theorem Inv.update {s : Nat → Option (Block (Option π))} {ls : Nat → List π} (h : Inv s ls) (i : Nat)
    {lptr : Option (Block (Option π))} {l : List π} (hs : Represents lptr l)
    (hl : l.length + 1 < 2 ^ 32) : Inv (Function.update s i lptr) (Function.update ls i l) := by
  constructor
  · intro k
    by_cases hk : k = i
    · subst hk
      rw [Function.update_self, Function.update_self]
      exact hs
    · rw [Function.update_of_ne hk, Function.update_of_ne hk]
      exact h.represents k
  · intro k
    by_cases hk : k = i
    · subst hk
      rw [Function.update_self]
      exact hl
    · rw [Function.update_of_ne hk]
      exact h.length_lt k

/-- A call that can count does what it is for. -/
theorem call_refines {s : Nat → Option (Block (Option π))} {ls : Nat → List π} (h : Inv s ls)
    {c : Call π} (hc : Counted ls c) :
    ∃ s', call s c = some (s', (listCall ls c).2) ∧ Inv s' (listCall ls c).1 := by
  cases c with
  | add i payload =>
      have hc' : (ls i).length + 2 < 2 ^ 31 := hc
      obtain ⟨b, hb, hrep⟩ := vecAddlstlst_represents (h.represents i) hc payload
      refine ⟨Function.update s i (some b), ?_, h.update i hrep ?_⟩
      · rw [call, hb]
        rfl
      · rw [List.length_append, List.length_singleton]
        omega
  | mrg i j other =>
      have hc' : (ls i).length + (ls j).length + 1 < 2 ^ 32 := hc
      obtain ⟨b, hb, hrep⟩ := vecMrglstlst_represents (h.represents i) (h.represents j) hc
      refine ⟨Function.update (Function.update s i b) j none, ?_, ?_⟩
      · rw [call, hb]
        rfl
      · refine (h.update i hrep ?_).update j Represents.null (Nat.one_lt_two_pow (by decide))
        rw [List.length_append]
        exact hc'
  | rm i payload =>
      obtain ⟨lptr, hlptr, hrep⟩ := vecRmlstlst_represents (h.represents i) payload
      refine ⟨Function.update s i lptr, ?_, h.update i hrep ?_⟩
      · rw [call, hlptr]
        rfl
      · exact Nat.lt_of_le_of_lt (Nat.succ_le_succ List.length_erase_le) (h.length_lt i)

/-- A call that cannot count has no result. -/
theorem counted_of_call {s : Nat → Option (Block (Option π))} {ls : Nat → List π} (h : Inv s ls)
    {c : Call π} {r : (Nat → Option (Block (Option π))) × Option Bool} (hc : call s c = some r) :
    Counted ls c := by
  by_contra hlong
  cases c with
  | add i payload =>
      have hlong' : ¬ (ls i).length + 2 < 2 ^ 31 := hlong
      have hlt := h.length_lt i
      rw [call, vecAddlstlst_eq_none (h.represents i) (by omega) (by omega)] at hc
      cases hc
  | mrg i j other =>
      have hlong' : ¬ (ls i).length + (ls j).length + 1 < 2 ^ 32 := hlong
      rw [call, vecMrglstlst_eq_none (h.represents i) (h.represents j) (h.length_lt i)
        (h.length_lt j) (by omega)] at hc
      cases hc
  | rm i payload => exact hlong trivial

theorem refines_iff {s : Nat → Option (Block (Option π))} {ls : Nat → List π} (h : Inv s ls)
    (calls : List (Call π)) : Refines s ls calls ↔ AllCounted ls calls := by
  induction calls generalizing s ls with
  | nil =>
      refine iff_of_true ?_ trivial
      intro i
      have hlt := h.length_lt i
      exact vecSizelstlst_eq (h.represents i) (by omega)
  | cons c calls ih =>
      rw [Refines, AllCounted]
      constructor
      · rintro ⟨s', hcall, -, hrest⟩
        have hc := counted_of_call h hcall
        obtain ⟨s'', hcall', h'⟩ := call_refines h hc
        obtain ⟨rfl, -⟩ := Prod.mk.inj (Option.some.inj (hcall.symm.trans hcall'))
        exact ⟨hc, (ih h').mp hrest⟩
      · rintro ⟨hc, hrest⟩
        obtain ⟨s', hcall, h'⟩ := call_refines h hc
        exact ⟨s', hcall, h'.represents, (ih h').mpr hrest⟩

omit [DecidableEq π] in
theorem inv_null : Inv (fun _ => none : Nat → Option (Block (Option π))) fun _ => [] :=
  ⟨fun _ => Represents.null, fun _ => Nat.one_lt_two_pow (by decide)⟩

/-- From `NULL` on, the arrays represent the lists through every sequence of calls whose
additions find fewer than `2 ^ 31 - 2` payloads and whose merges find fewer than
`2 ^ 32 - 1` in both arrays, and through no other. -/
theorem calls_refine_iff (calls : List (Call π)) :
    Refines (fun _ => none) (fun _ => []) calls ↔ AllCounted (fun _ => []) calls :=
  refines_iff inv_null calls

/-- Additions in a row can be counted up to the last. -/
theorem length_of_allCounted {ls : Nat → List π} {n : Nat} {payload : π}
    (h : AllCounted ls (List.replicate (n + 1) (.add 0 payload))) :
    (ls 0).length + n + 2 < 2 ^ 31 := by
  induction n generalizing ls with
  | zero => exact h.1
  | succ n ih =>
      rw [List.replicate_succ, AllCounted] at h
      have hrest := ih h.2
      simp only [listCall, Function.update_self, List.length_append, List.length_singleton] at hrest
      omega

/-- One addition more than an `int` can count. -/
theorem calls_not_refine :
    ¬ ∀ calls : List (Call Unit), Refines (fun _ => none) (fun _ => []) calls := by
  intro h
  have hcounted := (refines_iff inv_null _).mp (h (List.replicate (2 ^ 31 - 2 + 1) (.add 0 ())))
  have hlength := length_of_allCounted hcounted
  rw [List.length_nil] at hlength
  omega

end Vzgot.Lstlst

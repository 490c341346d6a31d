import Mathlib.Data.Fintype.EquivFin
import Mathlib.Data.List.Rotate
import Vzgot.Library.Ring

/-!
# Vectored lists

`vec_addveclst`, `vec_rmveclst` and `vec_freeveclst` on the heap of the nodes of one list.
Whatever reads or writes a node that is not allocated has no result.

The loop of `vec_rmveclst` looks at as many nodes as the list has after the removals, and
leaves `vcl` where it is. So a removal does what it is for when the payload is not in the
first node, and not in the last `k - 1` nodes, `k` being the number of nodes that hold it
(`Removable`). `right_iff` says that a sequence of calls keeps the ring, in which
`vec_freeveclst` then finds every node, if and only if every call of it meets its condition.
-/

set_option autoImplicit false

namespace Vzgot.Veclst

open Vzgot.Ring

universe u

variable {π : Type u}

/-! ## The code -/

/-- `VPTR`. -/
structure Vptr where
  numvec : Nat
  vcl : Nat

/-- The nodes in memory, and the caller's pointer. A payload that is `NULL` is `none`. -/
structure VecState (π : Type u) where
  heap : Heap (Option π)
  vptr : Option Vptr

/-- `vec_addveclst`, with its node at the address `node`. -/
def vecAddveclst (s : VecState π) (node : Nat) (payload : Option π) : Option (VecState π) :=
  let h := s.heap.alloc node ⟨payload, 0, 0⟩
  match s.vptr with
  | none => do
      let h ← h.setNxt node node
      let h ← h.setPrv node node
      some ⟨h, some ⟨1, node⟩⟩
  | some vptr => do
      let h ← h.setNxt node vptr.vcl
      let vcl ← h vptr.vcl
      let h ← h.setPrv node vcl.prv
      let vcl ← h vptr.vcl
      let h ← h.setNxt vcl.prv node
      let h ← h.setPrv vptr.vcl node
      some ⟨h, some ⟨(vptr.numvec + 1) % 2 ^ 32, vptr.vcl⟩⟩

section Rm

variable [DecidableEq π]

/-- The loop of `vec_rmveclst`: the nodes, `numvec` and `done` it ends with. It comes round
once for each `i` below `numvec`, which is the first argument at the start. -/
def rmLoop (payload : Option π) :
    Nat → Heap (Option π) → Nat → Nat → Nat → Nat → Option (Heap (Option π) × Nat × Nat)
  | 0, h, numvec, _, _, done => some (h, numvec, done)
  | n + 1, h, numvec, i, cur, done =>
      if i < numvec then do
        let c ← h cur
        if payload = c.payload then do
          let h ← h.setNxt c.prv c.nxt
          let h ← h.setPrv c.nxt c.prv
          let h := h.free cur
          -- cur=prv, which is the freed node when it was the only one
          let c ← h c.prv
          rmLoop payload n h (numvec - 1) (i + 1) c.nxt (done + 1)
        else
          rmLoop payload n h numvec (i + 1) c.nxt done
      else some (h, numvec, done)

def vecRmveclst (s : VecState π) (payload : Option π) : Option (Int × VecState π) :=
  match s.vptr with
  | none => some (0, s)
  | some vptr => do
      let (h, numvec, done) ← rmLoop payload vptr.numvec s.heap vptr.numvec 0 vptr.vcl 0
      some ((BitVec.ofNat 32 done).toInt,
        ⟨h, if numvec = 0 then none else some ⟨numvec, vptr.vcl⟩⟩)

end Rm

/-- The loop of `vec_freeveclst`: the nodes it leaves, and those it frees, each with the
payload that goes to `freepayload`. -/
def freeLoop (freepayload : Bool) :
    Nat → Heap (Option π) → Nat → Option (Heap (Option π) × List (Nat × Option π))
  | 0, h, _ => some (h, [])
  | n + 1, h, cur => do
      let tofree ← h cur
      let (h, freed) ← freeLoop freepayload n (h.free cur) tofree.prv
      some (h, (cur, if freepayload then tofree.payload else none) :: freed)

def vecFreeveclst (s : VecState π) (freepayload : Bool) :
    Option (VecState π × List (Nat × Option π)) :=
  match s.vptr with
  | none => some (s, [])
  | some vptr => do
      let vcl ← s.heap vptr.vcl
      let (h, freed) ← freeLoop freepayload vptr.numvec s.heap vcl.prv
      some (⟨h, none⟩, freed)

/-! ## What a list is -/

/-- The list has these nodes, from the one `vcl` designates on; `vptr` is `NULL` when there
is none. -/
structure Represents (s : VecState π) (nodes : List (Nat × Option π)) : Prop where
  ring : IsRing s.heap nodes
  vptr : s.vptr = nodes.head?.map fun x => ⟨nodes.length, x.1⟩

def empty : VecState π := ⟨fun _ => none, none⟩

theorem represents_empty : Represents (empty : VecState π) [] :=
  ⟨IsRing.empty, rfl⟩

/-- Lists with the same nodes in the same order around the ring are the same. -/
theorem Represents.unique {s : VecState π} {l l' : List (Nat × Option π)} (h : Represents s l)
    (h' : Represents s l') (hrot : l' ~r l) : l' = l := by
  obtain ⟨k, hk⟩ := hrot.symm
  subst hk
  cases l with
  | nil => exact List.rotate_nil k
  | cons x w =>
      rw [← List.rotate_mod]
      have hlt : k % (x :: w).length < (x :: w).length := Nat.mod_lt _ (Nat.succ_pos _)
      have hhead := h.vptr.symm.trans h'.vptr
      rw [← List.rotate_mod, List.head?_rotate hlt, List.getElem?_eq_getElem hlt, List.head?_cons,
        Option.map_some, Option.map_some] at hhead
      have haddr : x.1 = ((x :: w)[k % (x :: w).length]).1 := by
        simpa using congrArg Vptr.vcl (Option.some.inj hhead)
      have hzero : 0 = k % (x :: w).length := by
        have hfst : 0 < ((x :: w).map Prod.fst).length := Nat.succ_pos _
        have hlt' : k % (x :: w).length < ((x :: w).map Prod.fst).length := by
          rw [List.length_map]
          exact hlt
        refine (@List.Nodup.getElem_inj_iff _ _ h.ring.nodup 0 hfst _ hlt').mp ?_
        rw [List.getElem_map, List.getElem_map]
        exact haddr
      rw [← hzero, List.rotate_zero]

/-! ## Adding -/

/-- A node is put at the end of the ring, wherever `calloc` finds room for it. -/
theorem vecAddveclst_represents {s : VecState π} {nodes : List (Nat × Option π)}
    (hs : Represents s nodes) (hlength : nodes.length + 1 < 2 ^ 32) {node : Nat}
    (hnode : s.heap node = none) (payload : Option π) :
    ∃ s', vecAddveclst s node payload = some s' ∧ Represents s' (nodes ++ [(node, payload)]) := by
  obtain ⟨hring, hvptr⟩ := hs
  cases nodes with
  | nil =>
      rw [List.head?_nil, Option.map_none] at hvptr
      refine ⟨⟨s.heap.alloc node ⟨payload, node, node⟩, some ⟨1, node⟩⟩, ?_, ?_, rfl⟩
      · simp only [vecAddveclst, hvptr, Heap.setNxt_alloc, Heap.setPrv_alloc, Option.bind_eq_bind,
          Option.bind_some]
      · exact hring.single node payload
  | cons x w =>
      rw [List.head?_cons, Option.map_some] at hvptr
      obtain ⟨n, hn, -⟩ := hring.first
      have hne : x.1 ≠ node := by
        rintro rfl
        rw [hnode] at hn
        cases hn
      obtain ⟨h₁, h₂, hh₁, hh₂, hring'⟩ := hring.insert hn hnode payload
      refine ⟨⟨h₂, some ⟨((x :: w).length + 1) % 2 ^ 32, x.1⟩⟩, ?_, hring', ?_⟩
      · simp only [vecAddveclst, hvptr, Heap.setNxt_alloc, Heap.setPrv_alloc, Option.bind_eq_bind,
          Option.bind_some, Heap.alloc_of_ne _ hne, hn, hh₁, hh₂]
      · rw [Nat.mod_eq_of_lt hlength, List.cons_append, List.head?_cons, Option.map_some,
          ← List.cons_append, List.length_append, List.length_singleton]

/-- What `numvec` is after a node has been added to a list. -/
theorem vptr_of_vecAddveclst {s s' : VecState π} {nodes : List (Nat × Option π)}
    (hs : Represents s nodes) {node : Nat} {payload : Option π}
    (h : vecAddveclst s node payload = some s') :
    ∃ vcl, s'.vptr = some ⟨(nodes.length + 1) % 2 ^ 32, vcl⟩ := by
  cases nodes with
  | nil =>
      have hvptr := hs.vptr
      rw [List.head?_nil, Option.map_none] at hvptr
      simp only [vecAddveclst, hvptr, Heap.setNxt_alloc, Heap.setPrv_alloc, Option.bind_eq_bind,
        Option.bind_some] at h
      exact ⟨node, (Option.some.inj h) ▸ rfl⟩
  | cons x w =>
      have hvptr := hs.vptr
      rw [List.head?_cons, Option.map_some] at hvptr
      simp only [vecAddveclst, hvptr, Option.bind_eq_bind, Option.bind_eq_some_iff,
        Option.some.injEq] at h
      obtain ⟨-, -, -, -, -, -, -, -, -, -, -, -, rfl⟩ := h
      exact ⟨x.1, rfl⟩

theorem exists_free {h : Heap (Option π)} {nodes : List (Nat × Option π)} (hr : IsRing h nodes) :
    ∃ node, h node = none := by
  obtain ⟨node, hnode⟩ := Infinite.exists_notMem_finset (nodes.map Prod.fst).toFinset
  refine ⟨node, ?_⟩
  by_contra hne
  obtain ⟨n, hn⟩ := Option.ne_none_iff_exists'.mp hne
  refine hnode (List.mem_toFinset.mpr (hr.live node n.payload ?_))
  rw [Heap.payload, hn, Option.map_some]

/-- The length of the list an addition has made is that of a list. -/
theorem length_of_vecAddveclst {s s' : VecState π} {nodes nodes' : List (Nat × Option π)}
    (hs : Represents s nodes) {node : Nat} {payload : Option π}
    (h : vecAddveclst s node payload = some s') (hs' : Represents s' nodes')
    (hrot : nodes' ~r nodes ++ [(node, payload)]) : nodes.length + 1 < 2 ^ 32 := by
  obtain ⟨vcl, hvptr⟩ := vptr_of_vecAddveclst hs h
  obtain ⟨x, -, hx⟩ := Option.map_eq_some_iff.mp (hs'.vptr.symm.trans hvptr)
  have hlength : nodes'.length = (nodes.length + 1) % 2 ^ 32 := congrArg Vptr.numvec hx
  rw [hrot.perm.length_eq, List.length_append, List.length_singleton] at hlength
  rw [hlength]
  exact Nat.mod_lt _ (Nat.two_pow_pos 32)

/-! ## What a removal leaves -/

section Sweep

variable [DecidableEq π]

/-- What the loop of `vec_rmveclst` leaves of the nodes `v` in front of it, when `r` nodes
have been removed before: the last nodes are not looked at. -/
def sweep (payload : Option π) : Nat → List (Nat × Option π) → List (Nat × Option π)
  | _, [] => []
  | r, x :: v =>
      if r < v.length + 1 then
        if payload = x.2 then sweep payload (r + 1) v else x :: sweep payload r v
      else x :: v

/-- What should be left. -/
def without (payload : Option π) (nodes : List (Nat × Option π)) : List (Nat × Option π) :=
  nodes.filter fun x => x.2 ≠ payload

theorem without_cons_self (payload : Option π) (a : Nat) (v : List (Nat × Option π)) :
    without payload ((a, payload) :: v) = without payload v :=
  List.filter_cons_of_neg (by simp)

theorem without_cons_of_ne {payload : Option π} {x : Nat × Option π} (hx : payload ≠ x.2)
    (v : List (Nat × Option π)) : without payload (x :: v) = x :: without payload v :=
  List.filter_cons_of_pos (by simpa using Ne.symm hx)

theorem without_sweep (payload : Option π) (v : List (Nat × Option π)) (r : Nat) :
    without payload (sweep payload r v) = without payload v := by
  induction v generalizing r with
  | nil => rfl
  | cons x v ih =>
      rw [sweep]
      split_ifs with hr hx
      · obtain ⟨a, q⟩ := x
        obtain rfl : payload = q := hx
        rw [without_cons_self, ih]
      · rw [without_cons_of_ne hx, without_cons_of_ne hx, ih]
      · rfl

theorem length_sweep_le (payload : Option π) (v : List (Nat × Option π)) (r : Nat) :
    (sweep payload r v).length ≤ v.length := by
  induction v generalizing r with
  | nil => exact Nat.le_refl 0
  | cons x v ih =>
      rw [sweep]
      split_ifs with hr hx
      · exact Nat.le_succ_of_le (ih (r + 1))
      · exact Nat.succ_le_succ (ih r)
      · exact Nat.le_refl _

theorem without_eq_self_iff (payload : Option π) (v : List (Nat × Option π)) :
    v = without payload v ↔ payload ∉ v.map Prod.snd := by
  rw [eq_comm, without, List.filter_eq_self, List.mem_map]
  constructor
  · rintro h ⟨x, hx, hp⟩
    exact absurd hp (by simpa using h x hx)
  · intro h x hx
    simpa using fun hp => h ⟨x, hx, hp⟩

/-- The loop leaves what it should if it still looks at the last node that holds the payload:
there are then as many nodes behind it as have been removed before. -/
theorem sweep_eq_without_iff (payload : Option π) (v : List (Nat × Option π)) (r : Nat) :
    sweep payload r v = without payload v ↔
      payload ∉ (v.map Prod.snd).drop (v.length + 1 - (r + (v.map Prod.snd).count payload)) := by
  induction v generalizing r with
  | nil => simp [sweep, without]
  | cons x v ih =>
      obtain ⟨a, q⟩ := x
      by_cases hx : payload = q
      · subst hx
        by_cases hr : r < v.length + 1
        · rw [sweep, if_pos hr, if_pos rfl, without_cons_self, ih, List.map_cons,
            List.count_cons_self, List.length_cons]
          by_cases hlast : r + (v.map Prod.snd).count payload < v.length + 1
          · have hindex : v.length + 1 + 1 - (r + ((v.map Prod.snd).count payload + 1)) =
                v.length + 1 - (r + 1 + (v.map Prod.snd).count payload) + 1 := by omega
            rw [hindex, List.drop_succ_cons]
          · -- a further node holds the payload, and the loop does not come that far
            have hpos : 0 < (v.map Prod.snd).count payload := by omega
            have hmem := List.count_pos_iff.mp hpos
            have hzero : v.length + 1 - (r + 1 + (v.map Prod.snd).count payload) = 0 := by omega
            have hzero' : v.length + 1 + 1 - (r + ((v.map Prod.snd).count payload + 1)) = 0 := by
              omega
            rw [hzero, hzero', List.drop_zero, List.drop_zero]
            exact ⟨fun h => absurd hmem h, fun h => absurd List.mem_cons_self h⟩
        · have hzero : ((a, payload) :: v).length + 1 -
              (r + (((a, payload) :: v).map Prod.snd).count payload) = 0 := by
            rw [List.map_cons, List.count_cons_self, List.length_cons]
            omega
          rw [sweep, if_neg hr, without_eq_self_iff, hzero, List.drop_zero]
      · have hdrop : ∀ k, payload ∉ (q :: v.map Prod.snd).drop k ↔
            payload ∉ (v.map Prod.snd).drop (k - 1) := by
          intro k
          cases k with
          | zero => rw [List.drop_zero, List.mem_cons, or_iff_right hx, Nat.zero_sub, List.drop_zero]
          | succ k => rw [List.drop_succ_cons, Nat.add_sub_cancel]
        rw [sweep, if_neg hx, without_cons_of_ne hx, List.map_cons, hdrop,
          List.count_cons_of_ne (Ne.symm hx), List.length_cons, Nat.sub_right_comm,
          Nat.add_sub_cancel]
        by_cases hr : r < v.length + 1
        · rw [if_pos hr, List.cons_inj_right, ih]
        · have hzero : v.length + 1 - (r + (v.map Prod.snd).count payload) = 0 := by omega
          rw [if_neg hr, List.cons_inj_right, without_eq_self_iff, hzero, List.drop_zero]

end Sweep

/-! ## Removing -/

section Removing

variable [DecidableEq π]

section Turn

variable {payload : Option π} {n numvec i done : Nat} {h : Heap (Option π)}
  {u w : List (Nat × Option π)} {x : Nat × Option π}

/-- A turn that leaves its node. -/
theorem rmLoop_keep (hr : IsRing h (u ++ x :: w)) (hi : i < numvec) (hx : payload ≠ x.2) :
    ∃ cur, rmLoop payload (n + 1) h numvec i x.1 done = rmLoop payload n h numvec (i + 1) cur done ∧
      ∀ y ∈ w.head?, y.1 = cur := by
  have hring : IsRing h (x :: (w ++ u)) := hr.rotate
  obtain ⟨c, hc, hpayload, hnxt, -⟩ := hring.first
  refine ⟨c.nxt, ?_, ?_⟩
  · rw [rmLoop, if_pos hi, hc, Option.bind_eq_bind, Option.bind_some, hpayload, if_neg hx]
  · intro y hy
    rw [List.map_append, List.append_assoc, List.head?_append, List.head?_map, Option.mem_def.mp hy,
      Option.map_some, Option.some_or, Option.some.injEq] at hnxt
    exact hnxt

/-- A turn that removes its node, when there is another one. -/
theorem rmLoop_drop (hr : IsRing h (u ++ x :: w)) (hi : i < numvec) (hx : payload = x.2)
    (hother : w ++ u ≠ []) :
    ∃ h' cur, rmLoop payload (n + 1) h numvec i x.1 done =
        rmLoop payload n h' (numvec - 1) (i + 1) cur (done + 1) ∧
      IsRing h' (u ++ w) ∧ ∀ y ∈ w.head?, y.1 = cur := by
  have hring : IsRing h (x :: (w ++ u)) := hr.rotate
  obtain ⟨c, hc, hpayload, -, hprv⟩ := hring.first
  obtain ⟨h₁, h₂, hh₁, hh₂, hrest⟩ := hring.unlink hc
  obtain ⟨y, t, hyt⟩ := List.exists_cons_of_ne_nil hother
  -- the node before it, from which the loop goes on
  have hrest' := hrest
  rw [hyt] at hrest'
  rw [hyt, List.map_cons, List.getLast?_cons_cons] at hprv
  obtain ⟨d, hd, hdnxt⟩ := hrest'.last hprv
  refine ⟨h₂.free x.1, d.nxt, ?_, hrest.rotate, ?_⟩
  · rw [rmLoop, if_pos hi, hc, Option.bind_eq_bind, Option.bind_some, hpayload, if_pos hx]
    simp only [hh₁, hh₂, hd, Option.bind_eq_bind, Option.bind_some]
  · intro z hz
    have hhead : (w ++ u).head? = some z := by
      rw [List.head?_append, Option.mem_def.mp hz, Option.some_or]
    rw [hyt, List.head?_cons, Option.some.injEq] at hhead
    rw [hdnxt, hhead]

end Turn

/-- The loop on a ring: it has left the nodes `u`, has `v` in front of it, and has removed `r`
nodes before. Only a removal of the one node there is would look at the node it has freed. -/
theorem rmLoop_eq {payload : Option π} {n : Nat} {h : Heap (Option π)}
    {u v : List (Nat × Option π)} {r cur done : Nat} (hr : IsRing h (u ++ v))
    (hn : v.length ≤ n) (hone : 1 < r + u.length + v.length ∨ payload ∉ v.map Prod.snd)
    (hcur : ∀ x ∈ v.head?, x.1 = cur) :
    ∃ h', rmLoop payload n h (u.length + v.length) (r + u.length) cur done =
        some (h', u.length + (sweep payload r v).length,
          done + (v.length - (sweep payload r v).length)) ∧
      IsRing h' (u ++ sweep payload r v) := by
  induction n generalizing h u v r cur done with
  | zero =>
      obtain rfl : v = [] := List.length_eq_zero_iff.mp (Nat.le_zero.mp hn)
      exact ⟨h, rfl, hr⟩
  | succ n ih =>
      cases v with
      | nil =>
          refine ⟨h, ?_, hr⟩
          rw [rmLoop, if_neg (by simp)]
          rfl
      | cons x w =>
          obtain rfl : x.1 = cur := hcur x rfl
          rw [List.length_cons] at hn hone ⊢
          rw [sweep]
          split_ifs with hlt hx
          · -- the node is freed, and the loop goes on at another one
            have hmany : 1 < r + u.length + (w.length + 1) :=
              hone.resolve_right fun h => h (hx ▸ List.mem_cons_self)
            have hother : w ++ u ≠ [] := by
              apply List.ne_nil_of_length_pos
              rw [List.length_append]
              omega
            obtain ⟨h₁, cur, hturn, hring, hcur'⟩ := @rmLoop_drop _ _ _ n (u.length + (w.length + 1))
              (r + u.length) done _ _ _ _ hr (by omega) hx hother
            have hmany' : 1 < r + 1 + u.length + w.length := by omega
            obtain ⟨h', hloop, hleft⟩ := @ih _ u w (r + 1) cur (done + 1) hring
              (Nat.le_of_succ_le_succ hn) (Or.inl hmany') hcur'
            have hle := length_sweep_le payload w (r + 1)
            have hnumvec : u.length + (w.length + 1) - 1 = u.length + w.length := by omega
            have hi : r + u.length + 1 = r + 1 + u.length := by omega
            have hdone : done + 1 + (w.length - (sweep payload (r + 1) w).length) =
                done + (w.length + 1 - (sweep payload (r + 1) w).length) := by omega
            rw [hnumvec, hi, hloop, hdone] at hturn
            exact ⟨h', hturn, hleft⟩
          · -- the node stays and joins those behind
            obtain ⟨cur, hturn, hcur'⟩ := @rmLoop_keep _ _ _ n (u.length + (w.length + 1))
              (r + u.length) done _ _ _ _ hr (by omega) hx
            rw [List.append_cons] at hr
            have hlength : (u ++ [x]).length = u.length + 1 := List.length_append
            have hone' : 1 < r + (u ++ [x]).length + w.length ∨ payload ∉ w.map Prod.snd := by
              rw [hlength]
              exact hone.imp (by omega) fun h hmem => h (List.mem_cons_of_mem _ hmem)
            obtain ⟨h', hloop, hleft⟩ := @ih _ (u ++ [x]) w r cur done hr
              (Nat.le_of_succ_le_succ hn) hone' hcur'
            have hnumvec : u.length + (w.length + 1) = u.length + 1 + w.length := by omega
            have hi : r + u.length + 1 = r + (u.length + 1) := by omega
            have hkept : u.length + 1 + (sweep payload r w).length =
                u.length + ((sweep payload r w).length + 1) := by omega
            rw [hlength, ← hnumvec, ← hi, hkept] at hloop
            rw [← List.append_cons] at hleft
            refine ⟨h', ?_, hleft⟩
            rw [hturn, hloop, List.length_cons, Nat.add_sub_add_right]
          · -- the index has reached the number of what is left
            refine ⟨h, ?_, hr⟩
            rw [rmLoop, if_neg (by omega), List.length_cons, Nat.sub_self]
            rfl

/-- A removal that does not look at a freed node leaves what the loop leaves, and `vcl` where it
was. -/
theorem vecRmveclst_eq {s : VecState π} {x : Nat × Option π} {w : List (Nat × Option π)}
    (hs : Represents s (x :: w)) {payload : Option π} (hone : w ≠ [] ∨ payload ≠ x.2) :
    ∃ s', vecRmveclst s payload =
        some ((BitVec.ofNat 32 ((x :: w).length - (sweep payload 0 (x :: w)).length)).toInt, s') ∧
      IsRing s'.heap (sweep payload 0 (x :: w)) ∧
      s'.vptr = if (sweep payload 0 (x :: w)).length = 0 then none
        else some ⟨(sweep payload 0 (x :: w)).length, x.1⟩ := by
  have hvptr := hs.vptr
  rw [List.head?_cons, Option.map_some] at hvptr
  have hone' : 1 < 0 + ([] : List (Nat × Option π)).length + (x :: w).length ∨
      payload ∉ (x :: w).map Prod.snd := by
    cases w with
    | nil => exact Or.inr fun h => hone.resolve_left (absurd rfl) (List.mem_singleton.mp h)
    | cons y w => exact Or.inl (by simp)
  have hhead : ∀ y ∈ (x :: w).head?, y.1 = x.1 := by
    rintro y ⟨⟩
    rfl
  obtain ⟨h', hloop, hleft⟩ := @rmLoop_eq _ _ payload _ _ [] _ _ _ 0 hs.ring (Nat.le_refl _)
    hone' hhead
  simp only [List.length_nil, Nat.zero_add, Nat.add_zero] at hloop
  refine ⟨⟨h', if (sweep payload 0 (x :: w)).length = 0 then none
    else some ⟨(sweep payload 0 (x :: w)).length, x.1⟩⟩, ?_, hleft, rfl⟩
  simp only [vecRmveclst, hvptr, hloop, Option.bind_eq_bind, Option.bind_some]

/-- The only node is freed, and then looked at for the next one. -/
theorem vecRmveclst_only {s : VecState π} {a : Nat} {payload : Option π}
    (hs : Represents s [(a, payload)]) : vecRmveclst s payload = none := by
  have hvptr := hs.vptr
  rw [List.head?_cons, Option.map_some] at hvptr
  obtain ⟨c, hc, hpayload, -, hprv⟩ := hs.ring.first
  obtain ⟨h₁, h₂, hh₁, hh₂, hrest⟩ := hs.ring.unlink hc
  have hself : c.prv = a := (Option.some.inj hprv).symm
  have hfreed : h₂.free a a = none := hrest.eq_none_of_nil a
  rw [hself] at hh₁ hh₂
  simp only [vecRmveclst, hvptr, List.length_singleton, rmLoop, Nat.lt_one_iff, if_true, hc, hpayload,
    hself, hh₁, hh₂, hfreed, Option.bind_eq_bind, Option.bind_some, Option.bind_none]

end Removing

/-! ## Freeing -/

/-- The nodes that are in front of the loop, walked backwards, are freed one by one. -/
theorem freeLoop_eq (freepayload : Bool) {l : List (Nat × Option π)} {h : Heap (Option π)}
    {cur : Nat} (hnodup : (l.map Prod.fst).Nodup) (hpayload : ∀ x ∈ l, h.payload x.1 = some x.2)
    (hprv : (l.map Prod.fst).IsChain fun a b => h.prv a = some b)
    (hcur : ∀ x ∈ l.head?, x.1 = cur) :
    ∃ h', freeLoop freepayload l.length h cur =
        some (h', l.map fun x => (x.1, if freepayload then x.2 else none)) ∧
      ∀ a, h' a = if a ∈ l.map Prod.fst then none else h a := by
  induction l generalizing h cur with
  | nil => exact ⟨h, rfl, fun a => rfl⟩
  | cons x w ih =>
      obtain rfl : x.1 = cur := hcur x rfl
      rw [List.forall_mem_cons] at hpayload
      rw [List.map_cons, List.nodup_cons] at hnodup
      rw [List.map_cons, List.isChain_cons] at hprv
      obtain ⟨c, hc, hcpayload⟩ := Heap.exists_node hpayload.1
      have hne : ∀ a ∈ w.map Prod.fst, a ≠ x.1 := by
        rintro a ha rfl
        exact hnodup.1 ha
      have hpayload' : ∀ y ∈ w, (h.free x.1).payload y.1 = some y.2 := by
        intro y hy
        rw [(Heap.free_fields (hne _ (List.mem_map_of_mem hy))).1]
        exact hpayload.2 y hy
      have hprv' : (w.map Prod.fst).IsChain fun a b => (h.free x.1).prv a = some b := by
        refine hprv.2.imp_of_mem_imp ?_
        intro a b ha _ hab
        rw [(Heap.free_fields (hne a ha)).2.1]
        exact hab
      have hcur' : ∀ y ∈ w.head?, y.1 = c.prv := by
        intro y hy
        have hback := hprv.1 y.1 (by rw [List.head?_map, Option.mem_def.mp hy]; rfl)
        rw [Heap.prv_of_node hc] at hback
        exact (Option.some.inj hback).symm
      obtain ⟨h', hloop, hrest⟩ := ih hnodup.2 hpayload' hprv' hcur'
      refine ⟨h', ?_, ?_⟩
      · simp only [List.length_cons, freeLoop, hc, hloop, hcpayload, Option.bind_eq_bind,
          Option.bind_some, List.map_cons]
      · intro a
        rw [hrest, List.map_cons]
        by_cases ha : a ∈ w.map Prod.fst
        · rw [if_pos ha, if_pos (List.mem_cons_of_mem _ ha)]
        · rw [if_neg ha]
          by_cases hax : a = x.1
          · rw [if_pos (hax ▸ List.mem_cons_self), hax, Heap.free, Function.update_self]
          · rw [if_neg (by simp [hax, ha]), Heap.free, Function.update_of_ne hax]

/-- `vec_freeveclst` frees the nodes, from the last to the first, and nothing is left. -/
def FreesAll (s : VecState π) (nodes : List (Nat × Option π)) : Prop :=
  ∀ freepayload, ∃ s', vecFreeveclst s freepayload =
      some (s', nodes.reverse.map fun x => (x.1, if freepayload then x.2 else none)) ∧
    s'.vptr = none ∧ ∀ a, s'.heap a = none

theorem Represents.freesAll {s : VecState π} {nodes : List (Nat × Option π)}
    (hs : Represents s nodes) : FreesAll s nodes := by
  intro freepayload
  have hvptr := hs.vptr
  cases nodes with
  | nil =>
      refine ⟨s, ?_, hvptr, hs.ring.eq_none_of_nil⟩
      rw [vecFreeveclst, hvptr]
      rfl
  | cons x w =>
      rw [List.head?_cons, Option.map_some] at hvptr
      obtain ⟨c, hc, -, -, hprv⟩ := hs.ring.first
      have hnodup : ((x :: w).reverse.map Prod.fst).Nodup := by
        rw [List.map_reverse, List.nodup_reverse]
        exact hs.ring.nodup
      have hback := hs.ring.backwards
      rw [← List.map_reverse] at hback
      have hcur : ∀ y ∈ (x :: w).reverse.head?, y.1 = c.prv := by
        intro y hy
        rw [List.head?_reverse] at hy
        rw [← List.map_cons, List.getLast?_map, Option.mem_def.mp hy, Option.map_some,
          Option.some.injEq] at hprv
        exact hprv
      obtain ⟨h', hloop, hrest⟩ := freeLoop_eq freepayload hnodup
        (fun y hy => hs.ring.payload y (List.mem_reverse.mp hy)) hback hcur
      rw [List.length_reverse] at hloop
      refine ⟨⟨h', none⟩, ?_, rfl, ?_⟩
      · simp only [vecFreeveclst, hvptr, hc, hloop, Option.bind_eq_bind, Option.bind_some]
      · intro a
        refine (hrest a).trans ?_
        split_ifs with ha
        · rfl
        · by_contra hne
          obtain ⟨n, hn⟩ := Option.ne_none_iff_exists'.mp hne
          have hmem := hs.ring.live a n.payload (by rw [Heap.payload, hn, Option.map_some])
          rw [List.map_reverse, List.mem_reverse] at ha
          exact ha hmem

/-! ## Any sequence of calls -/

/-- A call on the list. -/
inductive Call (π : Type u) where
  | add (payload : Option π)
  | rm (payload : Option π)
  deriving DecidableEq

variable [DecidableEq π]

/-- Every call does what it is for on the ring that the calls in front of it have left, and
`vec_freeveclst` frees what the last one leaves. Where the ring is cut open, its first node
being the one `vcl` designates, is left to the calls. -/
def Right : VecState π → List (Nat × Option π) → List (Call π) → Prop
  | s, nodes, [] => FreesAll s nodes
  | s, nodes, .add payload :: calls =>
      ∀ node, s.heap node = none → ∃ s' nodes', vecAddveclst s node payload = some s' ∧
        nodes' ~r nodes ++ [(node, payload)] ∧ Represents s' nodes' ∧ Right s' nodes' calls
  | s, nodes, .rm payload :: calls =>
      ∃ s' nodes', vecRmveclst s payload = some (((nodes.map Prod.snd).count payload : Int), s') ∧
        nodes' ~r without payload nodes ∧ Represents s' nodes' ∧ Right s' nodes' calls

/-- The payload is not that of the first node, nor of the last ones, as many as there are
nodes that hold it, less one. -/
def Removable (payload : Option π) (payloads : List (Option π)) : Prop :=
  payloads.head? ≠ some payload ∧
    payload ∉ payloads.drop (payloads.length + 1 - payloads.count payload)

instance (payload : Option π) (payloads : List (Option π)) :
    Decidable (Removable payload payloads) :=
  inferInstanceAs (Decidable (_ ∧ _))

/-- The calls meet their conditions on the payloads they find, from the first node on. -/
def Meets : List (Option π) → List (Call π) → Prop
  | _, [] => True
  | payloads, .add payload :: calls =>
      payloads.length + 1 < 2 ^ 32 ∧ Meets (payloads ++ [payload]) calls
  | payloads, .rm payload :: calls =>
      Removable payload payloads ∧ Meets (payloads.filter (· ≠ payload)) calls

theorem snd_without (payload : Option π) (nodes : List (Nat × Option π)) :
    (without payload nodes).map Prod.snd = (nodes.map Prod.snd).filter (· ≠ payload) := by
  rw [without, List.filter_map]
  rfl

theorem length_without (payload : Option π) (nodes : List (Nat × Option π)) :
    nodes.length = (nodes.map Prod.snd).count payload + (without payload nodes).length := by
  induction nodes with
  | nil => rfl
  | cons x w ih =>
      obtain ⟨a, q⟩ := x
      rw [List.map_cons]
      by_cases hx : payload = q
      · subst hx
        rw [without_cons_self, List.count_cons_self, List.length_cons]
        omega
      · rw [without_cons_of_ne hx, List.count_cons_of_ne (Ne.symm hx), List.length_cons,
          List.length_cons]
        omega

/-- At most every other node holds the payload. -/
theorem Removable.count_le {payload : Option π} {payloads : List (Option π)}
    (h : Removable payload payloads) : 2 * payloads.count payload ≤ payloads.length := by
  obtain ⟨hhead, hlast⟩ := h
  cases payloads with
  | nil => exact Nat.le_refl 0
  | cons q l =>
      have hne : q ≠ payload := by
        rintro rfl
        exact hhead rfl
      rw [List.count_cons_of_ne hne, List.length_cons] at hlast ⊢
      by_cases hzero : l.count payload = 0
      · rw [hzero]
        exact Nat.zero_le _
      · have hindex : l.length + 1 + 1 - l.count payload = l.length + 1 - l.count payload + 1 := by
          have hle := List.count_le_length (a := payload) (l := l)
          omega
        rw [hindex, List.drop_succ_cons] at hlast
        have hsplit : l.count payload = (l.take (l.length + 1 - l.count payload)).count payload := by
          conv_lhs => rw [← List.take_append_drop (l.length + 1 - l.count payload) l]
          rw [List.count_append, List.count_eq_zero.mpr hlast, Nat.add_zero]
        have hle := List.count_le_length (a := payload) (l := l.take (l.length + 1 - l.count payload))
        rw [List.length_take] at hle
        omega

/-- A removal that meets its condition. -/
theorem vecRmveclst_represents {s : VecState π} {nodes : List (Nat × Option π)}
    (hs : Represents s nodes) (hlength : nodes.length < 2 ^ 32) {payload : Option π}
    (h : Removable payload (nodes.map Prod.snd)) :
    ∃ s', vecRmveclst s payload = some (((nodes.map Prod.snd).count payload : Int), s') ∧
      Represents s' (without payload nodes) := by
  cases nodes with
  | nil =>
      refine ⟨s, ?_, hs⟩
      have hvptr := hs.vptr
      rw [List.head?_nil, Option.map_none] at hvptr
      rw [vecRmveclst, hvptr]
      rfl
  | cons x w =>
      have hx : payload ≠ x.2 := by
        rintro rfl
        exact h.1 rfl
      have hkept : sweep payload 0 (x :: w) = without payload (x :: w) := by
        refine (sweep_eq_without_iff payload _ 0).mpr ?_
        rw [Nat.zero_add, ← List.length_map (f := Prod.snd)]
        exact h.2
      obtain ⟨s', hcall, hring, hvptr⟩ := vecRmveclst_eq hs (Or.inr hx)
      rw [hkept] at hcall hring hvptr
      have hcount : (x :: w).length - (without payload (x :: w)).length =
          ((x :: w).map Prod.snd).count payload := by
        rw [length_without payload (x :: w), Nat.add_sub_cancel]
      have hle := h.count_le
      rw [List.length_map] at hle
      refine ⟨s', ?_, hring, ?_⟩
      · rw [hcall, hcount, BitVec.toInt_ofNat', Int.bmod_eq_of_le (by omega) (by omega)]
      · rw [hvptr, without_cons_of_ne hx, List.length_cons, if_neg (Nat.succ_ne_zero _)]
        rfl

/-- A removal that does what it is for meets its condition. -/
theorem removable_of_represents {s s' : VecState π} {nodes nodes' : List (Nat × Option π)}
    (hs : Represents s nodes) {payload : Option π} {done : Int}
    (hcall : vecRmveclst s payload = some (done, s')) (hs' : Represents s' nodes')
    (hrot : nodes' ~r without payload nodes) : Removable payload (nodes.map Prod.snd) := by
  cases nodes with
  | nil => exact ⟨by simp, by simp⟩
  | cons x w =>
      by_cases hone : w ≠ [] ∨ payload ≠ x.2
      · obtain ⟨s'', hcall', hring, hvptr⟩ := vecRmveclst_eq hs hone
        obtain ⟨-, rfl⟩ := Prod.mk.inj (Option.some.inj (hcall.symm.trans hcall'))
        have hperm : (sweep payload 0 (x :: w)).Perm (without payload (x :: w)) :=
          (hring.perm hs'.ring).trans hrot.perm
        have hkept : sweep payload 0 (x :: w) = without payload (x :: w) := by
          rw [← without_sweep payload (x :: w) 0, without_eq_self_iff, List.mem_map]
          rintro ⟨y, hy, hpayload⟩
          have hmem := List.mem_filter.mp (hperm.mem_iff.mp hy)
          exact absurd hpayload (by simpa using hmem.2)
        have hlast := (sweep_eq_without_iff payload (x :: w) 0).mp hkept
        rw [Nat.zero_add, ← List.length_map (f := Prod.snd)] at hlast
        refine ⟨?_, hlast⟩
        intro hhead
        obtain rfl : x.2 = payload := Option.some.inj hhead
        -- vcl still designates the first node, which has been freed
        cases hleft : without x.2 (x :: w) with
        | nil =>
            have hcount := length_without x.2 (x :: w)
            rw [hleft, List.length_nil, Nat.add_zero] at hcount
            rw [← hcount, List.length_map, Nat.add_sub_cancel_left, List.map_cons, List.drop_one,
              List.tail_cons] at hlast
            rw [List.map_cons, List.count_cons_self, List.count_eq_zero.mpr hlast,
              List.length_cons] at hcount
            have hw : w = [] := List.length_eq_zero_iff.mp (by omega)
            exact hone.elim (absurd hw) (absurd rfl)
        | cons y t =>
            rw [hkept, hleft, List.length_cons, if_neg (Nat.succ_ne_zero _)] at hvptr
            obtain ⟨z, hz, hzvcl⟩ := Option.map_eq_some_iff.mp (hs'.vptr.symm.trans hvptr)
            have hmem := List.mem_filter.mp (hrot.perm.mem_iff.mp (List.mem_of_head? hz))
            have hzx : z = x := List.inj_on_of_nodup_map hs.ring.nodup hmem.1 List.mem_cons_self
              (congrArg Vptr.vcl hzvcl)
            exact absurd (congrArg Prod.snd hzx) (by simpa using hmem.2)
      · rw [not_or, not_not, not_not] at hone
        obtain ⟨rfl, rfl⟩ := hone
        rw [vecRmveclst_only hs] at hcall
        cases hcall

/-- The calls keep the ring just as long as they meet their conditions. -/
theorem right_iff {s : VecState π} {nodes : List (Nat × Option π)} (hs : Represents s nodes)
    (hlength : nodes.length < 2 ^ 32) (calls : List (Call π)) :
    Right s nodes calls ↔ Meets (nodes.map Prod.snd) calls := by
  induction calls generalizing s nodes with
  | nil => exact iff_of_true hs.freesAll trivial
  | cons call calls ih =>
      cases call with
      | add payload =>
          rw [Right, Meets, List.length_map]
          have hsnd : ∀ node, (nodes.map Prod.snd) ++ [payload] =
              (nodes ++ [(node, payload)]).map Prod.snd := fun node => by
            rw [List.map_append, List.map_singleton]
          have hlength' : ∀ node, (nodes ++ [(node, payload)]).length = nodes.length + 1 :=
            fun node => by rw [List.length_append, List.length_singleton]
          constructor
          · intro h
            obtain ⟨node, hnode⟩ := exists_free hs.ring
            obtain ⟨s', nodes', hcall, hrot, hs', hright⟩ := h node hnode
            have hlt := length_of_vecAddveclst hs hcall hs' hrot
            obtain ⟨s'', hcall', hs''⟩ := vecAddveclst_represents hs hlt hnode payload
            obtain rfl := Option.some.inj (hcall.symm.trans hcall')
            obtain rfl := hs''.unique hs' hrot
            rw [hsnd node]
            exact ⟨hlt, (ih hs' (by rw [hlength']; exact hlt)).mp hright⟩
          · rintro ⟨hlt, hmeets⟩ node hnode
            obtain ⟨s', hcall, hs'⟩ := vecAddveclst_represents hs hlt hnode payload
            refine ⟨s', _, hcall, List.IsRotated.refl _, hs', ?_⟩
            rw [hsnd node] at hmeets
            exact (ih hs' (by rw [hlength']; exact hlt)).mpr hmeets
      | rm payload =>
          rw [Right, Meets, ← snd_without]
          have hlength' : (without payload nodes).length < 2 ^ 32 :=
            Nat.lt_of_le_of_lt (List.length_filter_le _ _) hlength
          constructor
          · rintro ⟨s', nodes', hcall, hrot, hs', hright⟩
            have hremovable := removable_of_represents hs hcall hs' hrot
            obtain ⟨s'', hcall', hs''⟩ := vecRmveclst_represents hs hlength hremovable
            obtain ⟨-, rfl⟩ := Prod.mk.inj (Option.some.inj (hcall.symm.trans hcall'))
            obtain rfl := hs''.unique hs' hrot
            exact ⟨hremovable, (ih hs' hlength').mp hright⟩
          · rintro ⟨hremovable, hmeets⟩
            obtain ⟨s', hcall, hs'⟩ := vecRmveclst_represents hs hlength hremovable
            exact ⟨s', _, hcall, List.IsRotated.refl _, hs', (ih hs' hlength').mpr hmeets⟩

/-- From the empty list on, every call keeps the ring, returns what it should and leaves all
of it to `vec_freeveclst`, exactly when every addition finds fewer than `2 ^ 32 - 1` nodes and
every removal a list it is right for. -/
theorem calls_right_iff (calls : List (Call π)) :
    Right (empty : VecState π) [] calls ↔ Meets [] calls :=
  right_iff represents_empty (Nat.two_pow_pos 32) calls

/-- The payload of the first node is removed: `vcl` is left on the node that has been freed. -/
theorem calls_not_right :
    ¬ ∀ calls : List (Call Nat), Right (empty : VecState Nat) [] calls := by
  intro h
  have hmeets := (right_iff represents_empty (Nat.two_pow_pos 32) _).mp
    (h [.add (some 1), .add (some 2), .rm (some 1)])
  exact absurd hmeets.2.2.1.1 (by decide)

end Vzgot.Veclst

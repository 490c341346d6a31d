import Mathlib.Data.List.Cycle
import Mathlib.Logic.Function.Basic

/-!
# Doubly linked rings

A heap of nodes with a payload and two pointers. `IsRing h nodes` says that the nodes of the
heap are `nodes`, linked in both directions in this order, the last one with the first.
Where the ring is cut open does not matter (`IsRing.rotate`). The rules say what becomes of
a ring when a node is put in front of its first one (`IsRing.insert`) and when its first
node is taken out (`IsRing.unlink`).
-/

set_option autoImplicit false

namespace Vzgot.Ring

universe u

variable {α : Type u}

/-! ## Heaps -/

/-- A node; addresses are numbers. -/
structure Node (α : Type u) where
  payload : α
  prv : Nat
  nxt : Nat

/-- What is allocated. -/
abbrev Heap (α : Type u) := Nat → Option (Node α)

namespace Heap

def payload (h : Heap α) (a : Nat) : Option α := (h a).map Node.payload

def prv (h : Heap α) (a : Nat) : Option Nat := (h a).map Node.prv

def nxt (h : Heap α) (a : Nat) : Option Nat := (h a).map Node.nxt

/-- A store to the field `prv`; nothing may be stored to what is not allocated. -/
def setPrv (h : Heap α) (a b : Nat) : Option (Heap α) :=
  (h a).map fun n => Function.update h a (some { n with prv := b })

/-- A store to the field `nxt`. -/
def setNxt (h : Heap α) (a b : Nat) : Option (Heap α) :=
  (h a).map fun n => Function.update h a (some { n with nxt := b })

def alloc (h : Heap α) (a : Nat) (n : Node α) : Heap α := Function.update h a (some n)

def free (h : Heap α) (a : Nat) : Heap α := Function.update h a none

section Fields

variable {h h' : Heap α} {a b : Nat}

theorem exists_node {p : α} (hp : h.payload a = some p) : ∃ n, h a = some n ∧ n.payload = p :=
  Option.map_eq_some_iff.mp hp

theorem prv_of_node {n : Node α} (hn : h a = some n) : h.prv a = some n.prv := by
  rw [prv, hn, Option.map_some]

theorem nxt_of_node {n : Node α} (hn : h a = some n) : h.nxt a = some n.nxt := by
  rw [nxt, hn, Option.map_some]

theorem exists_setPrv {n : Node α} (hn : h a = some n) (b : Nat) : ∃ h', h.setPrv a b = some h' :=
  ⟨_, by rw [setPrv, hn, Option.map_some]⟩

theorem exists_setNxt {n : Node α} (hn : h a = some n) (b : Nat) : ∃ h', h.setNxt a b = some h' :=
  ⟨_, by rw [setNxt, hn, Option.map_some]⟩

/-- A store to `prv` changes this field of this node. -/
theorem setPrv_fields (hs : h.setPrv a b = some h') (c : Nat) :
    h'.payload c = h.payload c ∧ h'.nxt c = h.nxt c ∧
      h'.prv c = if c = a then some b else h.prv c := by
  obtain ⟨n, hn, rfl⟩ := Option.map_eq_some_iff.mp hs
  by_cases hc : c = a
  · subst hc
    simp [payload, nxt, prv, hn]
  · simp [payload, nxt, prv, hc]

theorem setNxt_fields (hs : h.setNxt a b = some h') (c : Nat) :
    h'.payload c = h.payload c ∧ h'.prv c = h.prv c ∧
      h'.nxt c = if c = a then some b else h.nxt c := by
  obtain ⟨n, hn, rfl⟩ := Option.map_eq_some_iff.mp hs
  by_cases hc : c = a
  · subst hc
    simp [payload, nxt, prv, hn]
  · simp [payload, nxt, prv, hc]

theorem free_self (h : Heap α) (a : Nat) : (h.free a).payload a = none := by
  simp [free, payload]

theorem free_fields {c : Nat} (hc : c ≠ a) :
    (h.free a).payload c = h.payload c ∧ (h.free a).prv c = h.prv c ∧ (h.free a).nxt c = h.nxt c := by
  simp [free, payload, prv, nxt, hc]

theorem alloc_self (h : Heap α) (a : Nat) (n : Node α) :
    (h.alloc a n).payload a = some n.payload ∧ (h.alloc a n).prv a = some n.prv ∧
      (h.alloc a n).nxt a = some n.nxt := by
  simp [alloc, payload, prv, nxt]

theorem alloc_fields {c : Nat} (hc : c ≠ a) (n : Node α) :
    (h.alloc a n).payload c = h.payload c ∧ (h.alloc a n).prv c = h.prv c ∧
      (h.alloc a n).nxt c = h.nxt c := by
  simp [alloc, payload, prv, nxt, hc]

theorem setPrv_alloc (h : Heap α) (a b : Nat) (n : Node α) :
    (h.alloc a n).setPrv a b = some (h.alloc a { n with prv := b }) := by
  simp [setPrv, alloc]

theorem setNxt_alloc (h : Heap α) (a b : Nat) (n : Node α) :
    (h.alloc a n).setNxt a b = some (h.alloc a { n with nxt := b }) := by
  simp [setNxt, alloc]

theorem alloc_of_ne (h : Heap α) {a c : Nat} (hc : c ≠ a) (n : Node α) : h.alloc a n c = h c :=
  Function.update_of_ne hc _ _

/-- Two nodes that are allocated can be linked with each other. -/
theorem exists_link {m k : Node α} (hm : h a = some m) (hk : h b = some k) (c d : Nat) :
    ∃ h₁ h₂, h.setNxt a c = some h₁ ∧ h₁.setPrv b d = some h₂ := by
  obtain ⟨h₁, hh₁⟩ := exists_setNxt hm c
  have hpay : h₁.payload b = some k.payload := by
    rw [(setNxt_fields hh₁ b).1, payload, hk, Option.map_some]
  obtain ⟨m', hm', -⟩ := exists_node hpay
  obtain ⟨h₂, hh₂⟩ := exists_setPrv hm' d
  exact ⟨h₁, h₂, hh₁, hh₂⟩

/-- The fields of the nodes once `a` points to `c` and `b` back to `d`. -/
theorem link_fields {h₁ h₂ : Heap α} {c d : Nat} (hh₁ : h.setNxt a c = some h₁)
    (hh₂ : h₁.setPrv b d = some h₂) (k : Nat) :
    h₂.payload k = h.payload k ∧ (h₂.nxt k = if k = a then some c else h.nxt k) ∧
      h₂.prv k = if k = b then some d else h.prv k := by
  have hfields₁ := setNxt_fields hh₁ k
  have hfields₂ := setPrv_fields hh₂ k
  rw [hfields₁.1, hfields₁.2.1, hfields₁.2.2] at hfields₂
  exact hfields₂

end Fields

/-- The two nodes point to each other. -/
def Linked (h : Heap α) (a b : Nat) : Prop := h.nxt a = some b ∧ h.prv b = some a

/-- Pointers that stay as they are keep a row of nodes linked: those to the next node of all
but the last, and those back of all but the first. -/
theorem isChain_linked {h h' : Heap α} {l : List Nat} (hl : l.IsChain h.Linked)
    (hnxt : ∀ a ∈ l.dropLast, h'.nxt a = h.nxt a) (hprv : ∀ b ∈ l.tail, h'.prv b = h.prv b) :
    l.IsChain h'.Linked := by
  induction l with
  | nil => exact List.IsChain.nil
  | cons a l ih =>
      cases l with
      | nil => exact List.IsChain.singleton a
      | cons b l =>
          rw [List.isChain_cons_cons] at hl ⊢
          rw [List.dropLast_cons_cons, List.forall_mem_cons] at hnxt
          rw [List.tail_cons, List.forall_mem_cons] at hprv
          refine ⟨⟨hnxt.1.trans hl.1.1, hprv.1.trans hl.1.2⟩, ih hl.2 hnxt.2 hprv.2⟩

end Heap

open Heap

/-! ## Rings -/

/-- A ring is a row whose last node is linked with its first. -/
theorem chain_cons_iff {R : Nat → Nat → Prop} {b : Nat} {w : List Nat} :
    Cycle.Chain R ((b :: w : List Nat) : Cycle Nat) ↔
      (b :: w).IsChain R ∧ ∀ e, (b :: w).getLast? = some e → R e b := by
  rw [Cycle.chain_coe_cons, ← List.cons_append, List.isChain_append]
  constructor
  · intro h
    exact ⟨h.1, fun e he => h.2.2 e he b rfl⟩
  · intro h
    refine ⟨h.1, List.IsChain.singleton b, ?_⟩
    rintro e he _ ⟨⟩
    exact h.2 e he

/-- A node that is not the last one of a row is another node. -/
theorem ne_of_mem_dropLast {l : List Nat} (hl : l.Nodup) {a e : Nat} (ha : a ∈ l.dropLast)
    (he : l.getLast? = some e) : a ≠ e := by
  obtain ⟨u, rfl⟩ := List.getLast?_eq_some_iff.mp he
  rw [List.dropLast_concat] at ha
  rintro rfl
  exact List.disjoint_of_nodup_append hl ha List.mem_cons_self

/-- The rest of a ring is a ring, once its ends are linked with each other. -/
theorem chain_unlink {h h' : Heap α} {a b e : Nat} {w : List Nat} (hnodup : (a :: b :: w).Nodup)
    (hl : Cycle.Chain h.Linked ((a :: b :: w : List Nat) : Cycle Nat))
    (he : (a :: b :: w).getLast? = some e)
    (hnxt : ∀ c, c ≠ a → h'.nxt c = if c = e then some b else h.nxt c)
    (hprv : ∀ c, c ≠ a → h'.prv c = if c = b then some e else h.prv c) :
    Cycle.Chain h'.Linked ((b :: w : List Nat) : Cycle Nat) := by
  rw [chain_cons_iff, List.isChain_cons_cons] at hl
  rw [List.nodup_cons] at hnodup
  rw [List.getLast?_cons_cons] at he
  have hne : ∀ c ∈ b :: w, c ≠ a := fun c hc h => hnodup.1 (h ▸ hc)
  rw [chain_cons_iff]
  refine ⟨isChain_linked hl.1.2 ?_ ?_, ?_⟩
  · intro c hc
    rw [hnxt c (hne c (List.mem_of_mem_dropLast hc)), if_neg (ne_of_mem_dropLast hnodup.2 hc he)]
  · intro c hc
    have hfirst : c ≠ b := fun h => (List.nodup_cons.mp hnodup.2).1 (h ▸ hc)
    rw [hprv c (hne c (List.mem_cons_of_mem b hc)), if_neg hfirst]
  · intro d hd
    obtain rfl : e = d := Option.some.inj (he.symm.trans hd)
    refine ⟨?_, ?_⟩
    · rw [hnxt e (hne e (List.mem_of_getLast? he)), if_pos rfl]
    · rw [hprv b (hne b List.mem_cons_self), if_pos rfl]

/-- A ring with one node more, between its last node and its first. -/
theorem chain_insert {h h' : Heap α} {a b e : Nat} {w : List Nat} (ha : a ∉ b :: w)
    (hnodup : (b :: w).Nodup) (hl : Cycle.Chain h.Linked ((b :: w : List Nat) : Cycle Nat))
    (he : (b :: w).getLast? = some e)
    (hnxt : ∀ c, h'.nxt c = if c = e then some a else if c = a then some b else h.nxt c)
    (hprv : ∀ c, h'.prv c = if c = b then some a else if c = a then some e else h.prv c) :
    Cycle.Chain h'.Linked ((b :: w ++ [a] : List Nat) : Cycle Nat) := by
  rw [chain_cons_iff] at hl
  have hne : ∀ c ∈ b :: w, c ≠ a := fun c hc h => ha (h ▸ hc)
  have hrow : (b :: w).IsChain h'.Linked := by
    refine isChain_linked hl.1 ?_ ?_
    · intro c hc
      rw [hnxt, if_neg (ne_of_mem_dropLast hnodup hc he),
        if_neg (hne c (List.mem_of_mem_dropLast hc))]
    · intro c hc
      have hfirst : c ≠ b := fun h => (List.nodup_cons.mp hnodup).1 (h ▸ hc)
      rw [hprv, if_neg hfirst, if_neg (hne c (List.mem_cons_of_mem b hc))]
  have hae : a ≠ e := (hne e (List.mem_of_getLast? he)).symm
  have hab : a ≠ b := (hne b List.mem_cons_self).symm
  rw [List.cons_append, chain_cons_iff, ← List.cons_append, List.isChain_append]
  refine ⟨⟨hrow, List.IsChain.singleton a, ?_⟩, ?_⟩
  · rintro d hd _ ⟨⟩
    obtain rfl : e = d := Option.some.inj (he.symm.trans hd)
    refine ⟨?_, ?_⟩
    · rw [hnxt, if_pos rfl]
    · rw [hprv, if_neg hab, if_pos rfl]
  · intro d hd
    rw [List.getLast?_append, List.getLast?_singleton, Option.some_or] at hd
    obtain rfl : a = d := Option.some.inj hd
    refine ⟨?_, ?_⟩
    · rw [hnxt, if_neg hae, if_pos rfl]
    · rw [hprv, if_pos rfl]

/-- The nodes of the heap are `nodes`, with address and payload, linked in a ring. -/
structure IsRing (h : Heap α) (nodes : List (Nat × α)) : Prop where
  nodup : (nodes.map Prod.fst).Nodup
  payload : ∀ x ∈ nodes, h.payload x.1 = some x.2
  linked : Cycle.Chain h.Linked (nodes.map Prod.fst)
  live : ∀ a p, h.payload a = some p → a ∈ nodes.map Prod.fst

namespace IsRing

variable {h : Heap α}

theorem empty : IsRing (fun _ => none : Heap α) [] :=
  ⟨List.nodup_nil, fun _ hx => absurd hx List.not_mem_nil, Cycle.Chain.nil _, by rintro a p ⟨⟩⟩

theorem eq_none_of_nil (hr : IsRing h []) (a : Nat) : h a = none := by
  by_contra hne
  obtain ⟨n, hn⟩ := Option.ne_none_iff_exists'.mp hne
  have hp : h.payload a = some n.payload := by rw [Heap.payload, hn, Option.map_some]
  exact List.not_mem_nil (hr.live a _ hp)

/-- A node that points to itself both ways. -/
theorem single (hr : IsRing h []) (a : Nat) (p : α) : IsRing (h.alloc a ⟨p, a, a⟩) [(a, p)] := by
  have hnew := alloc_self h a ⟨p, a, a⟩
  refine ⟨List.nodup_singleton a, ?_, ?_, ?_⟩
  · intro x hx
    rw [List.mem_singleton.mp hx]
    exact hnew.1
  · rw [List.map_singleton, chain_cons_iff]
    refine ⟨List.IsChain.singleton a, ?_⟩
    rintro _ ⟨⟩
    exact hnew.2.symm
  · intro c q hq
    by_cases hc : c = a
    · exact List.mem_singleton.mpr hc
    · rw [(alloc_fields hc _).1] at hq
      exact absurd (hr.live c q hq) List.not_mem_nil

theorem exists_node_of_mem {nodes : List (Nat × α)} (hr : IsRing h nodes) {a : Nat}
    (ha : a ∈ nodes.map Prod.fst) : ∃ n, h a = some n := by
  obtain ⟨x, hx, rfl⟩ := List.mem_map.mp ha
  exact (exists_node (hr.payload x hx)).imp fun _ h => h.1

/-- A heap is a ring of one set of nodes. -/
theorem perm {nodes nodes' : List (Nat × α)} (hr : IsRing h nodes) (hr' : IsRing h nodes') :
    nodes.Perm nodes' := by
  have hmem : ∀ {l l' : List (Nat × α)}, IsRing h l → IsRing h l' → ∀ x ∈ l, x ∈ l' := by
    intro l l' hl hl' x hx
    obtain ⟨y, hy, hyx⟩ := List.mem_map.mp (hl'.live x.1 x.2 (hl.payload x hx))
    have hpay : some y.2 = some x.2 := by rw [← hl'.payload y hy, hyx, hl.payload x hx]
    rw [← Prod.ext hyx (Option.some.inj hpay)]
    exact hy
  refine (List.perm_ext_iff_of_nodup hr.nodup.of_map hr'.nodup.of_map).mpr ?_
  exact fun x => ⟨hmem hr hr' x, hmem hr' hr x⟩

/-- Walked backwards from the last node, every node points back to the next one. -/
theorem backwards {nodes : List (Nat × α)} (hr : IsRing h nodes) :
    (nodes.map Prod.fst).reverse.IsChain fun a b => h.prv a = some b := by
  rw [List.isChain_reverse]
  cases nodes with
  | nil => exact List.IsChain.nil
  | cons x w =>
      have hlinked := hr.linked
      rw [List.map_cons, chain_cons_iff] at hlinked
      exact hlinked.1.imp fun _ _ h => h.2

theorem rotate {u v : List (Nat × α)} (hr : IsRing h (u ++ v)) : IsRing h (v ++ u) := by
  have hperm : (u ++ v).Perm (v ++ u) := List.perm_append_comm
  have hcycle : (((v ++ u).map Prod.fst : List Nat) : Cycle Nat) =
      ((u ++ v).map Prod.fst : List Nat) := by
    rw [List.map_append, List.map_append, Cycle.coe_eq_coe]
    exact List.isRotated_append
  refine ⟨(hperm.map _).nodup_iff.mp hr.nodup, ?_, hcycle ▸ hr.linked, ?_⟩
  · exact fun x hx => hr.payload x (hperm.mem_iff.mpr hx)
  · exact fun a p hp => (hperm.map _).mem_iff.mp (hr.live a p hp)

/-- The pointers of the first node: to the second one, and back to the last. -/
theorem first {x : Nat × α} {w : List (Nat × α)} (hr : IsRing h (x :: w)) :
    ∃ n, h x.1 = some n ∧ n.payload = x.2 ∧ (w.map Prod.fst ++ [x.1]).head? = some n.nxt ∧
      (x.1 :: w.map Prod.fst).getLast? = some n.prv := by
  obtain ⟨n, hn, hpayload⟩ := exists_node (hr.payload x List.mem_cons_self)
  have hlinked := hr.linked
  refine ⟨n, hn, hpayload, ?_, ?_⟩
  · rw [List.map_cons, Cycle.chain_coe_cons] at hlinked
    obtain ⟨y, hy⟩ : ∃ y, (w.map Prod.fst ++ [x.1]).head? = some y := by
      rw [List.head?_append]
      cases (w.map Prod.fst).head? <;> exact ⟨_, rfl⟩
    have hnxt := (hlinked.rel_head? hy).1
    rw [nxt_of_node hn] at hnxt
    rw [hy, hnxt]
  · rw [List.map_cons, chain_cons_iff] at hlinked
    have hlast := List.getLast?_eq_some_getLast (List.cons_ne_nil x.1 (w.map Prod.fst))
    have hprv := (hlinked.2 _ hlast).2
    rw [prv_of_node hn] at hprv
    rw [hlast, hprv]

/-- The last node points forward to the first one. -/
theorem last {x : Nat × α} {w : List (Nat × α)} (hr : IsRing h (x :: w)) {e : Nat}
    (he : (x.1 :: w.map Prod.fst).getLast? = some e) : ∃ n, h e = some n ∧ n.nxt = x.1 := by
  have hlinked := hr.linked
  rw [List.map_cons, chain_cons_iff] at hlinked
  exact Option.map_eq_some_iff.mp (hlinked.2 e he).1

/-- The first node is taken out: its neighbours are linked with each other, and it is freed. -/
theorem unlink {x : Nat × α} {w : List (Nat × α)} (hr : IsRing h (x :: w)) {n : Node α}
    (hn : h x.1 = some n) :
    ∃ h₁ h₂, h.setNxt n.prv n.nxt = some h₁ ∧ h₁.setPrv n.nxt n.prv = some h₂ ∧
      IsRing (h₂.free x.1) w := by
  obtain ⟨n', hn', hpayload, hnxt, hprv⟩ := hr.first
  obtain rfl : n = n' := Option.some.inj (hn.symm.trans hn')
  have hnodup := hr.nodup
  rw [List.map_cons, List.nodup_cons] at hnodup
  -- both neighbours are nodes of the ring
  obtain ⟨m, hm⟩ := hr.exists_node_of_mem (List.mem_of_getLast? hprv)
  have hnxtMem : n.nxt ∈ (x :: w).map Prod.fst := by
    have hmem := List.mem_of_head? hnxt
    simp only [List.mem_append, List.mem_singleton] at hmem
    exact List.mem_cons.mpr hmem.symm
  obtain ⟨k, hk⟩ := hr.exists_node_of_mem hnxtMem
  obtain ⟨h₁, h₂, hh₁, hh₂⟩ := exists_link hm hk n.nxt n.prv
  have hfields := link_fields hh₁ hh₂
  refine ⟨h₁, h₂, hh₁, hh₂, hnodup.2, ?_, ?_, ?_⟩
  · intro y hy
    have hne : y.1 ≠ x.1 := fun h => hnodup.1 (h ▸ List.mem_map_of_mem hy)
    rw [(free_fields hne).1, (hfields _).1]
    exact hr.payload y (List.mem_cons_of_mem x hy)
  · cases w with
    | nil => exact Cycle.Chain.nil _
    | cons y w =>
        have hy : y.1 = n.nxt := Option.some.inj hnxt
        refine chain_unlink hr.nodup hr.linked hprv ?_ ?_
        · intro c hc
          rw [(free_fields hc).2.2, (hfields c).2.1, hy]
        · intro c hc
          rw [(free_fields hc).2.1, (hfields c).2.2, hy]
  · intro a p hp
    have hne : a ≠ x.1 := by
      rintro rfl
      rw [free_self] at hp
      cases hp
    rw [(free_fields hne).1, (hfields _).1] at hp
    exact (List.mem_cons.mp (hr.live a p hp)).resolve_left hne

/-- A new node is put behind the last one. -/
theorem insert {x : Nat × α} {w : List (Nat × α)} (hr : IsRing h (x :: w)) {n : Node α}
    (hn : h x.1 = some n) {a : Nat} (ha : h a = none) (p : α) :
    ∃ h₁ h₂, (h.alloc a ⟨p, n.prv, x.1⟩).setNxt n.prv a = some h₁ ∧ h₁.setPrv x.1 a = some h₂ ∧
      IsRing h₂ (x :: w ++ [(a, p)]) := by
  obtain ⟨n', hn', -, -, hprv⟩ := hr.first
  obtain rfl : n = n' := Option.some.inj (hn.symm.trans hn')
  -- the new node is none of the live ones
  have hne : ∀ c m, h c = some m → c ≠ a := by
    rintro c m hc rfl
    rw [ha] at hc
    cases hc
  have hnew : a ∉ (x :: w).map Prod.fst := by
    intro hmem
    obtain ⟨m, hm⟩ := hr.exists_node_of_mem hmem
    exact hne a m hm rfl
  obtain ⟨m, hm⟩ := hr.exists_node_of_mem (List.mem_of_getLast? hprv)
  have hm' : (h.alloc a ⟨p, n.prv, x.1⟩) n.prv = some m := by
    rw [alloc_of_ne h (hne _ m hm), hm]
  have hn' : (h.alloc a ⟨p, n.prv, x.1⟩) x.1 = some n := by
    rw [alloc_of_ne h (hne _ n hn), hn]
  obtain ⟨h₁, h₂, hh₁, hh₂⟩ := exists_link hm' hn' a a
  have hfields := link_fields hh₁ hh₂
  have hnew' := alloc_self h a ⟨p, n.prv, x.1⟩
  refine ⟨h₁, h₂, hh₁, hh₂, ?_, ?_, ?_, ?_⟩
  · rw [List.map_append, List.map_singleton, List.nodup_append]
    refine ⟨hr.nodup, List.nodup_singleton a, ?_⟩
    rintro c hc d hd rfl
    rw [List.mem_singleton.mp hd] at hc
    exact hnew hc
  · intro y hy
    rw [(hfields _).1]
    rcases List.mem_append.mp hy with hy | hy
    · obtain ⟨k, hk⟩ := hr.exists_node_of_mem (List.mem_map_of_mem hy)
      rw [(alloc_fields (hne _ k hk) _).1]
      exact hr.payload y hy
    · rw [List.mem_singleton.mp hy]
      exact hnew'.1
  · rw [List.map_append]
    refine chain_insert hnew hr.nodup hr.linked hprv ?_ ?_
    · intro c
      rw [(hfields c).2.1]
      by_cases hc : c = a
      · subst hc
        rw [hnew'.2.2, if_pos rfl]
      · rw [(alloc_fields hc _).2.2, if_neg hc]
    · intro c
      rw [(hfields c).2.2]
      by_cases hc : c = a
      · subst hc
        rw [hnew'.2.1, if_pos rfl]
      · rw [(alloc_fields hc _).2.1, if_neg hc]
  · -- nothing else has become live
    intro c q hq
    rw [(hfields _).1] at hq
    rw [List.map_append, List.mem_append]
    by_cases hc : c = a
    · exact Or.inr (List.mem_singleton.mpr hc)
    · rw [(alloc_fields hc _).1] at hq
      exact Or.inl (hr.live c q hq)

end IsRing

end Vzgot.Ring

import Mathlib.Data.List.Perm.Subperm

/-!
# Handles that are acquired and released

The uses of handles in a run, newest first. `Held` is what is acquired and has not been
released since, and a run is `Proper` when it only releases what is held. With the handles
of a list held, a run that goes on to release some handles is proper and leaves nothing
exactly when these are the handles of the list, each of them once (`release_all_iff`).
-/

set_option autoImplicit false

namespace Vzgot.Handles

universe u

variable {α : Type u}

/-- One use of a handle. -/
inductive Use (α : Type u) where
  | acquire (a : α)
  | release (a : α)

/-- The handle is acquired and has not been released since. -/
def Held : List (Use α) → α → Prop
  | [], _ => False
  | .acquire b :: older, a => a = b ∨ Held older a
  | .release b :: older, a => a ≠ b ∧ Held older a

/-- Only what is held is released. -/
def Proper : List (Use α) → Prop
  | [] => True
  | .acquire _ :: older => Proper older
  | .release b :: older => Held older b ∧ Proper older

/-- The handles that are held are those of the list. -/
def Holds (uses : List (Use α)) (l : List α) : Prop := ∀ a, Held uses a ↔ a ∈ l

/-- The handles released one after the other. -/
def releases : List α → List (Use α) → List (Use α)
  | [], older => older
  | b :: bs, older => releases bs (.release b :: older)

instance decidableHeld [DecidableEq α] : (uses : List (Use α)) → (a : α) → Decidable (Held uses a)
  | [], _ => .isFalse id
  | .acquire _ :: older, a =>
      have := decidableHeld older a
      inferInstanceAs (Decidable (_ ∨ _))
  | .release _ :: older, a =>
      have := decidableHeld older a
      inferInstanceAs (Decidable (_ ∧ _))

instance decidableProper [DecidableEq α] : (uses : List (Use α)) → Decidable (Proper uses)
  | [] => .isTrue trivial
  | .acquire _ :: older => decidableProper older
  | .release _ :: older =>
      have := decidableProper older
      inferInstanceAs (Decidable (_ ∧ _))

section Rules

variable {uses : List (Use α)} {l bs : List α} {a b : α}

theorem holds_nil : Holds ([] : List (Use α)) [] := fun _ => iff_of_false id List.not_mem_nil

theorem Holds.acquire (h : Holds uses l) (a : α) : Holds (.acquire a :: uses) (a :: l) := by
  intro b
  rw [List.mem_cons, ← h b]
  exact Iff.rfl

theorem Holds.perm {l' : List α} (h : Holds uses l) (hperm : l.Perm l') : Holds uses l' :=
  fun a => (h a).trans hperm.mem_iff

/-- A handle is released that is held once. -/
theorem Holds.release (h : Holds uses (b :: l)) (hb : b ∉ l) : Holds (.release b :: uses) l := by
  intro a
  have hheld := h a
  constructor
  · rintro ⟨hne, ha⟩
    exact (List.mem_cons.mp (hheld.mp ha)).resolve_left hne
  · intro ha
    exact ⟨fun heq => hb (heq ▸ ha), hheld.mpr (List.mem_cons_of_mem b ha)⟩

theorem Proper.of_releases (h : Proper (releases bs uses)) : Proper uses := by
  induction bs generalizing uses with
  | nil => exact h
  | cons b bs ih => exact (ih h).2

/-- The handles that are released one after the other are all the handles that are held. -/
theorem release_all_iff (h : Holds uses l) (hl : l.Nodup) (hproper : Proper uses) :
    (Proper (releases bs uses) ∧ ∀ a, ¬ Held (releases bs uses) a) ↔ bs.Perm l := by
  induction bs generalizing uses l with
  | nil =>
      constructor
      · rintro ⟨-, hnone⟩
        rw [List.eq_nil_iff_forall_not_mem.mpr fun a ha => hnone a ((h a).mpr ha)]
      · intro hperm
        obtain rfl := List.nil_perm.mp hperm
        exact ⟨hproper, fun a ha => List.not_mem_nil ((h a).mp ha)⟩
  | cons b bs ih =>
      by_cases hb : b ∈ l
      · -- the first one is taken out of the list
        obtain ⟨front, back, rfl⟩ := List.append_of_mem hb
        have hmiddle : (front ++ b :: back).Perm (b :: (front ++ back)) := List.perm_middle
        have hnodup := (hmiddle.nodup_iff.mp hl)
        have hrest := (h.perm hmiddle).release (List.nodup_cons.mp hnodup).1
        have hheld : Held uses b := (h b).mpr hb
        rw [releases, ih hrest (List.nodup_cons.mp hnodup).2 ⟨hheld, hproper⟩]
        constructor
        · exact fun hperm => (hperm.cons b).trans hmiddle.symm
        · exact fun hperm => (hperm.trans hmiddle).cons_inv
      · constructor
        · rintro ⟨hreleases, -⟩
          rw [releases] at hreleases
          have hfirst : Proper (.release b :: uses) := hreleases.of_releases
          exact absurd ((h b).mp hfirst.1) hb
        · exact fun hperm => absurd (hperm.mem_iff.mp List.mem_cons_self) hb

end Rules

end Vzgot.Handles

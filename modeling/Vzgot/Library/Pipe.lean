import Mathlib.Data.Fintype.Basic
import Mathlib.Logic.Function.Basic

/-!
# Pipes

The pipes of some processes: the ends that each process holds, and what has been written to
each pipe and not been read. A read of an empty pipe waits as long as any process holds the
end for writing, the reader itself included: with an own copy of that end, a process never
sees the end of file (`read_ne_endOfFile`), and waits whenever the pipe is empty
(`read_eq_blocked`).
-/

set_option autoImplicit false

namespace Vzgot.Pipe

universe u v w

variable {π : Type u} {κ : Type v} {α : Type w}

/-- An end of a pipe. -/
inductive Side where
  | reading
  | writing
  deriving DecidableEq

/-- The ends held by each process, and the contents of each pipe, oldest first. -/
structure Pipes (π : Type u) (κ : Type v) (α : Type w) where
  ends : π → List (κ × Side)
  queue : κ → List α

/-- What a read finds. -/
inductive Reading (α : Type w) where
  | blocked
  | endOfFile
  | got (a : α)

namespace Pipes

/-- Some process holds the end. -/
def Open (s : Pipes π κ α) (k : κ) (side : Side) : Prop := ∃ p, (k, side) ∈ s.ends p

instance [Fintype π] [DecidableEq κ] (s : Pipes π κ α) (k : κ) (side : Side) :
    Decidable (s.Open k side) := inferInstanceAs (Decidable (∃ p, (k, side) ∈ s.ends p))

/-- `read` of one character. -/
def read [Fintype π] [DecidableEq κ] (s : Pipes π κ α) (k : κ) : Reading α :=
  match s.queue k with
  | a :: _ => .got a
  | [] => if s.Open k .writing then .blocked else .endOfFile

/-- The pipes behind a `read` that got a character. -/
def take [DecidableEq κ] (s : Pipes π κ α) (k : κ) : Pipes π κ α :=
  { s with queue := Function.update s.queue k (s.queue k).tail }

/-- The pipes behind a `write` of one character. -/
def put [DecidableEq κ] (s : Pipes π κ α) (k : κ) (a : α) : Pipes π κ α :=
  { s with queue := Function.update s.queue k (s.queue k ++ [a]) }

/-- The process holds these ends from now on. -/
def hold [DecidableEq π] (s : Pipes π κ α) (p : π) (es : List (κ × Side)) : Pipes π κ α :=
  { s with ends := Function.update s.ends p es }

section Rules

@[simp] theorem hold_queue [DecidableEq π] (s : Pipes π κ α) (p : π) (es : List (κ × Side)) :
    (s.hold p es).queue = s.queue := rfl

variable [DecidableEq κ] (s : Pipes π κ α) (k : κ) (a : α)

@[simp] theorem take_queue :
    (s.take k).queue = Function.update s.queue k (s.queue k).tail := rfl

@[simp] theorem put_queue :
    (s.put k a).queue = Function.update s.queue k (s.queue k ++ [a]) := rfl

variable {s k a} [Fintype π]

theorem read_eq_got : s.read k = .got a ↔ s.queue k = a :: (s.queue k).tail := by
  unfold read
  split
  · next b rest heq => simp [heq]
  · next heq =>
      rw [heq]
      split <;> simp

/-- A process that holds the end for writing keeps every reader from the end of file. -/
theorem read_ne_endOfFile {p : π} (h : (k, .writing) ∈ s.ends p) : s.read k ≠ .endOfFile := by
  have hopen : s.Open k .writing := ⟨p, h⟩
  unfold read
  split <;> simp [hopen]

theorem read_eq_blocked {p : π} (h : (k, .writing) ∈ s.ends p) :
    s.read k = .blocked ↔ s.queue k = [] := by
  have hopen : s.Open k .writing := ⟨p, h⟩
  unfold read
  split
  · next heq => simp [heq]
  · next heq => simp [heq, hopen]

end Rules

end Pipes

end Vzgot.Pipe

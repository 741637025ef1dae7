import Mathlib.Data.List.Basic

/-!
# Vectors with a capacity

`std::vector` as its elements and the room it has for them. What a vector allocates when it
has to is up to its implementation: `grow` is what it would like, from its size and what is
asked for. The elements after an operation do not depend on the capacity before it.
-/

namespace Stalker2D

structure Vec (α : Type*) where
  elements : List α
  capacity : Nat
  room : elements.length ≤ capacity
  deriving DecidableEq

namespace Vec

variable {α : Type*}

def empty : Vec α := ⟨[], 0, Nat.le_refl 0⟩

def size (vec : Vec α) : Nat := vec.elements.length

/-- The capacity once there is room for `n` elements. -/
def allocate (grow : Nat → Nat → Nat) (vec : Vec α) (n : Nat) : Nat :=
  if n ≤ vec.capacity then vec.capacity else max n (grow vec.size n)

theorem le_allocate (grow : Nat → Nat → Nat) (vec : Vec α) (n : Nat) : n ≤ vec.allocate grow n := by
  simp only [allocate]
  split <;> omega

theorem capacity_le_allocate (grow : Nat → Nat → Nat) (vec : Vec α) (n : Nat) :
    vec.capacity ≤ vec.allocate grow n := by
  simp only [allocate]
  split <;> omega

def reserve (grow : Nat → Nat → Nat) (vec : Vec α) (n : Nat) : Vec α :=
  ⟨vec.elements, vec.allocate grow n, Nat.le_trans vec.room (vec.capacity_le_allocate grow n)⟩

/-- `resize`; new elements are copies of `value`. -/
def resize (grow : Nat → Nat → Nat) (vec : Vec α) (n : Nat) (value : α) : Vec α where
  elements := vec.elements.take n ++ List.replicate (n - vec.size) value
  capacity := vec.allocate grow n
  room := by
    have := vec.le_allocate grow n
    simp only [size, List.length_append, List.length_take, List.length_replicate]
    omega

def clear (vec : Vec α) : Vec α := ⟨[], vec.capacity, Nat.zero_le _⟩

/-- An assignment to the element at `i`. -/
def modify (vec : Vec α) (i : Nat) (f : α → α) : Vec α :=
  ⟨vec.elements.modify i f, vec.capacity, by rw [List.length_modify]; exact vec.room⟩

@[simp] theorem elements_reserve (grow : Nat → Nat → Nat) (vec : Vec α) (n : Nat) :
    (vec.reserve grow n).elements = vec.elements := rfl

@[simp] theorem elements_modify (vec : Vec α) (i : Nat) (f : α → α) :
    (vec.modify i f).elements = vec.elements.modify i f := rfl

/-- A vector that becomes longer keeps what it has. -/
theorem elements_resize {vec : Vec α} {n : Nat} (h : vec.size ≤ n)
    (grow : Nat → Nat → Nat) (value : α) :
    (vec.resize grow n value).elements =
      vec.elements ++ List.replicate (n - vec.elements.length) value := by
  simp only [resize, List.take_of_length_le h, size]

end Vec

end Stalker2D

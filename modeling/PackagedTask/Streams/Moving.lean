import PackagedTask.Streams.Memory

namespace PackagedTask.Streams

abbrev BufferRef := Nat

/-- A stream as an object: which buffer its `_data` owns, not the bytes in it. -/
structure StreamObject where
  data : Option BufferRef
  head : Nat
  capacity : Nat
  deriving DecidableEq, Repr

namespace StreamObject

/-- The friend of the class, which the qualified `std::swap` does not find. -/
def swap (left right : StreamObject) : StreamObject × StreamObject :=
  let (left, right) := ({ left with data := right.data }, { right with data := left.data })
  let (left, right) := ({ left with head := right.head }, { right with head := left.head })
  ({ left with capacity := right.capacity }, { right with capacity := left.capacity })

theorem swap_eq (left right : StreamObject) : swap left right = (right, left) := rfl

/-- Two distinct streams go in and come out; `none` is a call that has not returned. -/
abbrev Exchange := StreamObject → StreamObject → Option (StreamObject × StreamObject)

/-- `InputMemoryStream() = default`: its `_head` and `_capacity` are what was in the memory. -/
def constructed (garbage : Nat × Nat) : StreamObject := ⟨none, garbage.1, garbage.2⟩

def moveConstruct (exchange : Exchange) (garbage : Nat × Nat) (other : StreamObject) :
    Option (StreamObject × StreamObject) :=
  exchange (constructed garbage) other

def moveAssign (exchange : Exchange) (this other : StreamObject) :
    Option (StreamObject × StreamObject) :=
  exchange this other

def stdSwap (exchange : Exchange) (garbage : Nat × Nat) : Exchange := fun a b => do
  let (tmp, a) ← moveConstruct exchange garbage a
  let (a, b) ← moveAssign exchange a b
  let (b, _) ← moveAssign exchange b tmp
  pure (a, b)

/-- As in the class, where they exchange by `std::swap` itself: nested at most `depth` deep, with
garbage of its own at each depth. -/
def swapping (garbage : Nat → Nat × Nat) : Nat → Exchange
  | 0 => fun _ _ => none
  | depth + 1 => stdSwap (swapping garbage depth) (garbage depth)

def MoveConstructs (garbage : Nat → Nat × Nat) (other : StreamObject) : Prop :=
  ∃ depth left, moveConstruct (swapping garbage depth) (garbage depth) other = some (other, left)

def MoveAssigns (garbage : Nat → Nat × Nat) (this other : StreamObject) : Prop :=
  ∃ depth left, moveAssign (swapping garbage depth) this other = some (other, left)

-- The first thing a swap does is to move construct, and that is another swap.
theorem swapping_none (garbage : Nat → Nat × Nat) (depth : Nat) (a b : StreamObject) :
    swapping garbage depth a b = none := by
  induction depth generalizing a b with
  | zero => rfl
  | succ depth ih => simp [swapping, stdSwap, moveConstruct, ih]

theorem moves_none (garbage : Nat → Nat × Nat) (depth : Nat) (this other : StreamObject) :
    moveConstruct (swapping garbage depth) (garbage depth) other = none ∧
      moveAssign (swapping garbage depth) this other = none :=
  ⟨swapping_none _ _ _ _, swapping_none _ _ _ _⟩

theorem never_moves (garbage : Nat → Nat × Nat) (other : StreamObject) :
    ¬ MoveConstructs garbage other ∧ ∀ this, ¬ MoveAssigns garbage this other := by
  constructor
  · rintro ⟨depth, left, returned⟩
    simp [(moves_none garbage depth other other).1] at returned
  · rintro this ⟨depth, left, returned⟩
    simp [(moves_none garbage depth this other).2] at returned

theorem four_bytes_stay : ¬ MoveConstructs (fun _ => (0, 0)) ⟨some 0, 0, 4⟩ := by
  rintro ⟨depth, left, returned⟩
  simp [(moves_none _ depth ⟨some 0, 0, 4⟩ _).1] at returned

def friendSwap : Exchange := fun left right => some (swap left right)

theorem friendSwap_moves (garbage : Nat × Nat) (this other : StreamObject) :
    moveConstruct friendSwap garbage other = some (other, constructed garbage) ∧
      moveAssign friendSwap this other = some (other, this) ∧
      stdSwap friendSwap garbage this other = some (other, this) := by
  simp [stdSwap, moveConstruct, moveAssign, friendSwap, swap_eq]

end StreamObject
end PackagedTask.Streams

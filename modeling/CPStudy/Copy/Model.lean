import Mathlib.Data.List.TakeWhile
import Mathlib.Logic.Function.Basic
import CPStudy.Lib.Transition

/-!
# The copying classes of `1_CPBase/copy`

`MyString` of `operator=.cpp` owns an array of characters and declares a destructor and an
assignment, `DeepCopy` of `copy_example.cpp` owns an integer and declares a destructor and a copy
constructor. The operation that each class does not declare is the memberwise one that the compiler
generates, which copies the pointer.

The buffers are numbered in the order of their allocation, and a buffer is what one `new` has
returned, wherever in memory it lies. An access to a buffer that is not allocated is a `fault`,
after which the program has no further step. `value` is history: what the constructions, copies and
assignments say that an object stands for, whatever became of its buffer.
-/

namespace CPStudy.Copy

open Function (update)

/-- What a buffer holds. -/
inductive Buffer
  /-- An array of characters. -/
  | chars (bytes : List UInt8)
  /-- An integer. -/
  | int (value : ℤ)
deriving DecidableEq

/-- An object, with its members. -/
inductive Object
  /-- A `MyString`, with the number of the buffer at `data` and `length`. -/
  | myString (data length : ℕ)
  /-- A `DeepCopy`, with the number of the buffer at `data`. -/
  | deepCopy (data : ℕ)
deriving DecidableEq

/-- The buffer at `data`. -/
def Object.data : Object → ℕ
  | .myString data _ => data
  | .deepCopy data => data

/-- What an object stands for. -/
inductive Value
  /-- A string. -/
  | str (s : List UInt8)
  /-- An integer. -/
  | int (v : ℤ)
deriving DecidableEq

/-- `std::strlen`. -/
def strlen (bytes : List UInt8) : ℕ := (bytes.takeWhile (· ≠ 0)).length

/-- What `std::strcpy` stores: the characters before the first null character, and that one. -/
def strcpy (bytes : List UInt8) : List UInt8 := bytes.takeWhile (· ≠ 0) ++ [0]

/-- The allocated memory. -/
structure Heap where
  /-- The buffers that are allocated. -/
  buffer : ℕ → Option Buffer
  /-- The number of allocations so far. -/
  allocs : ℕ
  /-- The buffers that were deleted, in order. -/
  deleted : List ℕ
  /-- A buffer was accessed that was not allocated, or beyond its end. -/
  fault : Bool

namespace Heap

/-- `new` with an initial value, with the number of the buffer. -/
def new (h : Heap) (b : Buffer) : Heap × ℕ :=
  ({ h with buffer := update h.buffer h.allocs (some b), allocs := h.allocs + 1 }, h.allocs)

/-- `delete` and `delete[]`. -/
def delete (h : Heap) (k : ℕ) : Heap :=
  { h with
    buffer := update h.buffer k none
    deleted := h.deleted ++ [k]
    fault := h.fault || (h.buffer k).isNone }

/-- The characters in a buffer. -/
def readChars (h : Heap) (k : ℕ) : Heap × List UInt8 :=
  match h.buffer k with
  | some (.chars bytes) => (h, bytes)
  | _ => ({ h with fault := true }, [])

/-- The integer in a buffer. -/
def readInt (h : Heap) (k : ℕ) : Heap × ℤ :=
  match h.buffer k with
  | some (.int value) => (h, value)
  | _ => ({ h with fault := true }, 0)

/-- `*data = value`. -/
def writeInt (h : Heap) (k : ℕ) (value : ℤ) : Heap :=
  { h with
    buffer := update h.buffer k (some (.int value))
    fault := h.fault || (h.buffer k).isNone }

/-- `data = new char[n]; std::strcpy(data, src);`. What `new` has left behind the string is never
read, and stands here as null characters. -/
def newChars (h : Heap) (n : ℕ) (src : List UInt8) : Heap × ℕ :=
  let bytes := strcpy src
  -- A string that is longer than the array is stored beyond its end.
  let h := { h with fault := h.fault || decide (n < bytes.length) }
  h.new (.chars (bytes ++ List.replicate (n - bytes.length) 0))

end Heap

namespace MyString

/-- `MyString(const char* str)`. -/
def construct (h : Heap) (str : List UInt8) : Heap × Object :=
  let length := strlen str
  let (h, data) := h.newChars (length + 1) str
  (h, .myString data length)

/-- `MyString(const MyString&)`, which the compiler generates. -/
def copyConstruct (h : Heap) (otherData otherLength : ℕ) : Heap × Object :=
  (h, .myString otherData otherLength)

/-- `operator=(const MyString& str)`, for another object than `*this`. -/
def assign (h : Heap) (data otherData otherLength : ℕ) : Heap × Object :=
  let h := h.delete data
  let length := otherLength
  let (h, src) := h.readChars otherData
  let (h, data) := h.newChars (length + 1) src
  (h, .myString data length)

end MyString

namespace DeepCopy

/-- `DeepCopy(int value)`. -/
def construct (h : Heap) (value : ℤ) : Heap × Object :=
  let (h, data) := h.new (.int value)
  (h, .deepCopy data)

/-- `DeepCopy(const DeepCopy &other)`. -/
def copyConstruct (h : Heap) (otherData : ℕ) : Heap × Object :=
  let (h, value) := h.readInt otherData
  construct h value

/-- `operator=(const DeepCopy&)`, which the compiler generates. -/
def assign (h : Heap) (otherData : ℕ) : Heap × Object := (h, .deepCopy otherData)

end DeepCopy

/-- The memory and the objects of a program. -/
structure State (O : Type*) where
  /-- The memory. -/
  heap : Heap
  /-- The objects that are alive. -/
  object : O → Option Object
  /-- What the history of each object says that it stands for. -/
  value : O → Option Value

/-- What the program does next. -/
inductive Action (O : Type*)
  /-- `MyString this(str);`. -/
  | constructMyString (this : O) (str : List UInt8)
  /-- `DeepCopy this(value);`. -/
  | constructDeepCopy (this : O) (value : ℤ)
  /-- `T this = other;`, for an object of either class. -/
  | copyInit (this other : O)
  /-- `this = other;`, for two objects of the same class. -/
  | assign (this other : O)
  /-- `this.setValue(val);`, for a `DeepCopy`. -/
  | setValue (this : O) (val : ℤ)
  /-- The end of an object's life. -/
  | destroy (this : O)

variable {O : Type*}

/-- No object and no buffer. -/
def State.init (O : Type*) : State O where
  heap := { buffer := fun _ => none, allocs := 0, deleted := [], fault := false }
  object := fun _ => none
  value := fun _ => none

variable [DecidableEq O]

/-- An object after an operation on it, with what it now stands for. -/
def State.put (s : State O) (this : O) (r : Heap × Object) (value : Option Value) : State O where
  heap := r.1
  object := update s.object this (some r.2)
  value := update s.value this value

/-- The characters before the first null character: what a `const char*` stands for. -/
def cstr (str : List UInt8) : List UInt8 := str.takeWhile (· ≠ 0)

/-- A step of the program. -/
def step (s : State O) (a : Action O) : Option (State O) :=
  if s.heap.fault then none
  else
    match a with
    | .constructMyString this str =>
      -- The argument is an array that ends with a null character, if no other comes first.
      if s.object this = none then
        some (s.put this (MyString.construct s.heap (str ++ [0])) (some (.str (cstr str))))
      else none
    | .constructDeepCopy this value =>
      if s.object this = none then
        some (s.put this (DeepCopy.construct s.heap value) (some (.int value)))
      else none
    | .copyInit this other =>
      if s.object this = none then
        (s.object other).map fun o =>
          match o with
          | .myString data length =>
            s.put this (MyString.copyConstruct s.heap data length) (s.value other)
          | .deepCopy data => s.put this (DeepCopy.copyConstruct s.heap data) (s.value other)
      else none
    | .assign this other =>
      match s.object this, s.object other with
      | some (.myString data length), some (.myString otherData otherLength) =>
        -- `if (this == &str) return *this;`
        if this = other then some (s.put this (s.heap, .myString data length) (s.value other))
        else
          some (s.put this (MyString.assign s.heap data otherData otherLength) (s.value other))
      | some (.deepCopy _), some (.deepCopy otherData) =>
        some (s.put this (DeepCopy.assign s.heap otherData) (s.value other))
      | _, _ => none
    | .setValue this val =>
      match s.object this with
      | some (.deepCopy data) =>
        some (s.put this (s.heap.writeInt data val, .deepCopy data) (some (.int val)))
      | _ => none
    | .destroy this =>
      (s.object this).map fun o =>
        { heap := s.heap.delete o.data
          object := update s.object this none
          value := update s.value this none }

/-- The step makes no copy that a class leaves to the compiler: no `MyString` is initialised from
another one, and no `DeepCopy` is assigned another one. -/
def deep (s : State O) : Action O → Bool
  | .copyInit _ other =>
    match s.object other with
    | some (.myString _ _) => false
    | _ => true
  | .assign this other =>
    match s.object this with
    | some (.deepCopy _) => decide (this = other)
    | _ => true
  | _ => true

/-- A state that a run reaches all of whose steps meet the condition. -/
def ReachableIf (ok : State O → Action O → Prop) (s : State O) : Prop :=
  Lib.Reaches step ok (State.init O) s

/-- A state that some run reaches. -/
def Reachable (s : State O) : Prop := ReachableIf (fun _ _ => True) s

end CPStudy.Copy

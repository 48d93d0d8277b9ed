import CPStudy.Lib.Resource
import CPStudy.MsgQueue.Model

/-!
# Creating the message queue, and what is left of a failed attempt

`msgqueue_create` and `msgqueue_destroy` as far as they acquire and release resources: the memory
of the queue, its two mutexes and its two condition variables. What each call appends to the log is
what it does to them; an `Outcome` gives what `malloc` and the four `init` functions return.
-/

namespace CPStudy.MsgQueue

open Lib (ResourceEvent settle)

/-- What the functions acquire and release. -/
inductive Resource
  /-- The memory of the queue. -/
  | queue
  /-- `queue->get_mutex`. -/
  | get_mutex
  /-- `queue->put_mutex`. -/
  | put_mutex
  /-- `queue->get_cond`. -/
  | get_cond
  /-- `queue->put_cond`. -/
  | put_cond
deriving DecidableEq

/-- What was acquired and released, in order. -/
abbrev Log := List (ResourceEvent Resource)

/-- What the calls return. -/
structure Outcome where
  /-- `malloc` returns memory. -/
  malloc : Bool
  /-- `pthread_mutex_init(&queue->get_mutex, NULL)`. -/
  get_mutex : ℤ
  /-- `pthread_mutex_init(&queue->put_mutex, NULL)`. -/
  put_mutex : ℤ
  /-- `pthread_cond_init(&queue->get_cond, NULL)`. -/
  get_cond : ℤ
  /-- `pthread_cond_init(&queue->put_cond, NULL)`. -/
  put_cond : ℤ

/-- What `msgqueue_create` leaves behind: whether it returns a queue, the value that it stores in
`errno`, and the log. -/
structure Created where
  /-- A queue is returned, and not `NULL`. -/
  queue : Bool
  /-- `errno = ret`, where it is reached. -/
  errno : Option ℤ
  /-- What was acquired and released. -/
  log : Log

/-- The statements of `msgqueue_create` behind the `if`s. -/
def createFailed (ret : ℤ) (log : Log) : Created := ⟨false, some ret, log ++ [.release .queue]⟩

/-- `msgqueue_create`. -/
def msgqueue_create (o : Outcome) : Created :=
  if o.malloc then
    let log := [.acquire .queue]
    if o.get_mutex = 0 then
      let log := log ++ [.acquire .get_mutex]
      if o.put_mutex = 0 then
        let log := log ++ [.acquire .put_mutex]
        if o.get_cond = 0 then
          let log := log ++ [.acquire .get_cond]
          if o.put_cond = 0 then ⟨true, none, log ++ [.acquire .put_cond]⟩
          else
            createFailed o.put_cond
              (log ++ [.release .get_cond, .release .put_mutex, .release .get_mutex])
        else createFailed o.get_cond (log ++ [.release .put_mutex, .release .get_mutex])
      else createFailed o.put_mutex (log ++ [.release .get_mutex])
    else createFailed o.get_mutex log
  else ⟨false, none, []⟩

/-- `msgqueue_destroy`. -/
def msgqueue_destroy (log : Log) : Log :=
  log ++ [.release .put_cond, .release .get_cond, .release .put_mutex, .release .get_mutex,
    .release .queue]

/-- Where `msgqueue_create` returns `NULL`, everything that it acquired is released again and
`errno` is the first error; where it returns a queue, `msgqueue_destroy` releases the rest. -/
theorem create_spec (o : Outcome) :
    ((msgqueue_create o).queue = false → settle (msgqueue_create o).log ∅ = some ∅ ∧
      (o.malloc = true → (msgqueue_create o).errno =
        [o.get_mutex, o.put_mutex, o.get_cond, o.put_cond].find? fun ret => ret ≠ 0)) ∧
      ((msgqueue_create o).queue = true →
        settle (msgqueue_destroy (msgqueue_create o).log) ∅ = some ∅) := by
  unfold msgqueue_create
  split
  case isFalse hmalloc =>
    refine ⟨fun _ => ⟨rfl, fun h => absurd h hmalloc⟩, fun h => ?_⟩
    cases h
  case isTrue =>
    dsimp only
    -- The failure of each call in turn, and the success of all of them.
    split
    case isFalse h1 =>
      refine ⟨fun _ => ⟨rfl, fun _ => ?_⟩, fun h => by cases h⟩
      simp [createFailed, h1]
    case isTrue h1 =>
      split
      case isFalse h2 =>
        refine ⟨fun _ => ⟨rfl, fun _ => ?_⟩, fun h => by cases h⟩
        simp [createFailed, h1, h2]
      case isTrue h2 =>
        split
        case isFalse h3 =>
          refine ⟨fun _ => ⟨rfl, fun _ => ?_⟩, fun h => by cases h⟩
          simp [createFailed, h1, h2, h3]
        case isTrue h3 =>
          split
          case isFalse h4 =>
            refine ⟨fun _ => ⟨rfl, fun _ => ?_⟩, fun h => by cases h⟩
            simp [createFailed, h1, h2, h3, h4]
          case isTrue h4 =>
            refine ⟨fun h => ?_, fun _ => rfl⟩
            cases h

end CPStudy.MsgQueue

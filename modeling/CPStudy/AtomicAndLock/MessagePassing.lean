import CPStudy.Lib.Transition
import CPStudy.Lib.WeakMemory

/-!
# `acquire_release.cc` and `relaxed.cc`

One thread stores `true` in `x` and then in `y`, the other waits until it loads `true` from `y`,
loads `x` and increments `z` where that is `true`. The two programs of
`3_pool/atomic_and_lock-master` differ in the orders of the accesses to `y` alone, so that one
model has them as parameters. `++z` is a read-modify-write of an atomic that `main` loads when it
has joined both threads: a number.

`z` is `1` in the end whatever happens exactly when the store to `y` releases and the load of `y`
acquires (`z_eq_one_iff`): so in `acquire_release.cc`, and not in `relaxed.cc`.
-/

namespace CPStudy.AtomicAndLock.MessagePassing

open Lib (MemoryOrder WeakMemory View)

/-- The atomic locations. -/
inductive Loc
  | x
  | y
deriving DecidableEq

/-- Where `write_x_then_y` stands. -/
inductive WriterPc
  /-- Before the store to `x`. -/
  | storeX
  /-- Before the store to `y`. -/
  | storeY
  /-- At its end. -/
  | done
deriving DecidableEq

/-- Where `read_y_then_x` stands. -/
inductive ReaderPc
  /-- Before a load of `y` in the loop. -/
  | loadY
  /-- Before the load of `x`. -/
  | loadX
  /-- Before `++z`. -/
  | inc
  /-- At its end. -/
  | done
deriving DecidableEq

/-- A state of the program. -/
structure State where
  /-- The memory. -/
  mem : WeakMemory Loc Empty Bool
  /-- `write_x_then_y`. -/
  writer : WriterPc
  /-- What it has seen. -/
  writerView : View Loc Empty
  /-- `read_y_then_x`. -/
  reader : ReaderPc
  /-- What it has seen. -/
  readerView : View Loc Empty
  /-- `z`. -/
  z : ℤ

/-- The threads are started, and `x` and `y` are `false`. -/
def State.init : State where
  mem := WeakMemory.init (fun _ => false) Empty.elim
  writer := .storeX
  writerView := (fun _ => 0, fun _ => 0)
  reader := .loadY
  readerView := (fun _ => 0, fun _ => 0)
  z := 0

/-- What happens next. -/
inductive Action
  /-- `write_x_then_y` goes on; its store takes the time. -/
  | write (time : ℕ)
  /-- `read_y_then_x` goes on; its load returns the message at the index. -/
  | read (i : ℕ)

/-- A step of the program, with the orders of the store to `y` and of the load of `y`. -/
def step (storeY loadY : MemoryOrder) (s : State) : Action → Option State
  | .write time =>
    match s.writer with
    | .storeX => (s.mem.store .relaxed s.writerView .x true time).map fun r =>
        { s with mem := r.1, writerView := r.2, writer := .storeY }
    | .storeY => (s.mem.store storeY s.writerView .y true time).map fun r =>
        { s with mem := r.1, writerView := r.2, writer := .done }
    | .done => none
  | .read i =>
    match s.reader with
    | .loadY => (s.mem.load loadY s.readerView .y i).map fun r =>
        { s with readerView := r.2, reader := if r.1 then .loadX else .loadY }
    | .loadX => (s.mem.load .relaxed s.readerView .x i).map fun r =>
        { s with readerView := r.2, reader := if r.1 then .inc else .done }
    | .inc => some { s with z := s.z + 1, reader := .done }
    | .done => none

/-- The states that the program can come to. -/
def Reachable (storeY loadY : MemoryOrder) (s : State) : Prop :=
  Lib.Reaches (step storeY loadY) (fun _ _ => True) State.init s

/-- What holds where the store to `y` publishes the store to `x`. -/
structure Published (s : State) : Prop where
  /-- Nobody stores `false`. -/
  old : ∀ a, ∀ m ∈ s.mem.msgs a, ¬ m.val = true → m.time = 0
  /-- The writer has seen its store to `x`. -/
  wrote : s.writer ≠ .storeX → s.mem.Sees s.writerView .x (· = true)
  /-- So does `true` in `y` say. -/
  told : ∀ m ∈ s.mem.msgs .y, m.val = true → s.mem.Sees m.view .x (· = true)
  /-- The reader knows it when it has left the loop. -/
  knows : s.reader = .loadX → s.mem.Sees s.readerView .x (· = true)
  /-- It increments `z` then. -/
  z : s.z = if s.reader = .done then 1 else 0

namespace Published

variable {s s' : State} {os ol : MemoryOrder} {a : Action}

/-- Nothing is stored yet. -/
theorem init : Published State.init where
  old := by
    intro a m hm _
    obtain rfl := List.mem_singleton.mp hm
    rfl
  wrote := fun h => absurd rfl h
  told := by
    intro m hm hv
    obtain rfl := List.mem_singleton.mp hm
    cases hv
  knows := fun h => by cases h
  z := rfl

/-- `true` is stored in `x`. -/
theorem storeX (h : Published s) {time : ℕ} {M : WeakMemory Loc Empty Bool} {w : View Loc Empty}
    (hs : s.mem.store .relaxed s.writerView .x true time = some (M, w)) :
    Published { s with mem := M, writerView := w, writer := .storeY } := by
  obtain ⟨hlt, -, -, -, hle, m₀, htime, hval, -, rfl⟩ := WeakMemory.store_eq_some hs
  have hpush : ∀ w : View Loc Empty, s.mem.Sees w .x (· = true) →
      (s.mem.push .relaxed .x m₀).Sees w .x (· = true) := fun w hw => hw.push fun _ _ => hval
  have hold : ∀ a, ∀ m ∈ (s.mem.push .relaxed .x m₀).msgs a, ¬ m.val = true → m.time = 0 := by
    intro a m hm hv
    rcases WeakMemory.mem_push.mp hm with ⟨-, rfl⟩ | hm
    · exact absurd hval hv
    · exact h.old a m hm hv
  refine { h with old := hold, wrote := fun _ => ?_, told := ?_, knows := ?_ }
  -- The writer has seen its own store, and nothing from there on is `false`.
  · have hpos : 0 < w.1 .x := by omega
    exact WeakMemory.sees_of_old (hold .x) hpos
  · intro m hm hv
    rcases WeakMemory.mem_push.mp hm with ⟨hy, -⟩ | hm
    · cases hy
    · exact hpush _ (h.told m hm hv)
  · exact fun hr => hpush _ (h.knows hr)

/-- `true` is stored in `y`, and the message hands on that it is in `x`. -/
theorem storeY (h : Published s) (ho : os.releases = true) (hw : s.writer = .storeY) {time : ℕ}
    {M : WeakMemory Loc Empty Bool} {w : View Loc Empty}
    (hs : s.mem.store os s.writerView .y true time = some (M, w)) :
    Published { s with mem := M, writerView := w, writer := .done } := by
  obtain ⟨-, -, -, hgrow, -, m₀, htime, hval, hrel, rfl⟩ := WeakMemory.store_eq_some hs
  have hpush : ∀ w : View Loc Empty, s.mem.Sees w .x (· = true) →
      (s.mem.push os .y m₀).Sees w .x (· = true) := fun w hw => hw.push fun _ _ => hval
  have hwrote : s.mem.Sees w .x (· = true) := by
    have hne : s.writer ≠ .storeX := by
      rw [hw]
      intro heq
      cases heq
    exact (h.wrote hne).mono (hgrow.1 .x)
  refine { h with old := ?_, wrote := fun _ => hpush w hwrote, told := ?_, knows := ?_ }
  · intro a m hm hv
    rcases WeakMemory.mem_push.mp hm with ⟨-, rfl⟩ | hm
    · exact absurd hval hv
    · exact h.old a m hm hv
  · intro m hm hv
    rcases WeakMemory.mem_push.mp hm with ⟨-, rfl⟩ | hm
    -- The store releases, so its message carries what the writer has seen.
    · rw [hrel ho]
      exact hpush w hwrote
    · exact hpush _ (h.told m hm hv)
  · exact fun hr => hpush _ (h.knows hr)

/-- `y` is loaded. -/
theorem loadY (h : Published s) (ho : ol.acquires = true) (hr : s.reader = .loadY) {i : ℕ}
    {v : Bool} {w : View Loc Empty} (hs : s.mem.load ol s.readerView .y i = some (v, w)) :
    Published { s with readerView := w, reader := if v then .loadX else .loadY } := by
  have hz : s.z = 0 := by
    have hz := h.z
    rwa [hr] at hz
  -- On `false` it stays in the loop; on `true` it takes over what the message carries.
  cases v with
  | false => exact { h with knows := (fun hf => by cases hf), z := hz }
  | true => exact { h with knows := fun _ => WeakMemory.Sees.acquire h.told ho hs, z := hz }

/-- `x` is loaded, and it is `true`. -/
theorem loadX (h : Published s) (hr : s.reader = .loadX) {i : ℕ} {v : Bool} {w : View Loc Empty}
    (hs : s.mem.load .relaxed s.readerView .x i = some (v, w)) :
    Published { s with readerView := w, reader := if v then .inc else .done } := by
  have hz : s.z = 0 := by
    have hz := h.z
    rwa [hr] at hz
  obtain rfl : v = true := (h.knows hr).load hs
  exact { h with knows := (fun hf => by cases hf), z := hz }

/-- Every step keeps it, where the store to `y` releases and the load of `y` acquires. -/
theorem step (h : Published s) (ho : os.releases = true) (ho' : ol.acquires = true)
    (hs : MessagePassing.step os ol s a = some s') : Published s' := by
  cases a with
  | write time =>
    cases hw : s.writer with
    | storeX =>
      rw [MessagePassing.step, hw] at hs
      obtain ⟨⟨M, w⟩, hst, rfl⟩ := Option.map_eq_some_iff.mp hs
      exact h.storeX hst
    | storeY =>
      rw [MessagePassing.step, hw] at hs
      obtain ⟨⟨M, w⟩, hst, rfl⟩ := Option.map_eq_some_iff.mp hs
      exact h.storeY ho hw hst
    | done =>
      rw [MessagePassing.step, hw] at hs
      cases hs
  | read i =>
    cases hr : s.reader with
    | loadY =>
      rw [MessagePassing.step, hr] at hs
      obtain ⟨⟨v, w⟩, hl, rfl⟩ := Option.map_eq_some_iff.mp hs
      exact h.loadY ho' hr hl
    | loadX =>
      rw [MessagePassing.step, hr] at hs
      obtain ⟨⟨v, w⟩, hl, rfl⟩ := Option.map_eq_some_iff.mp hs
      exact h.loadX hr hl
    | inc =>
      rw [MessagePassing.step, hr] at hs
      obtain rfl := Option.some.inj hs
      have hz := h.z
      rw [hr] at hz
      have hone : s.z + 1 = 1 := by
        rw [hz]
        rfl
      exact { h with knows := (fun hf => by cases hf), z := hone }
    | done =>
      rw [MessagePassing.step, hr] at hs
      cases hs

end Published

/-- The reader may load `true` from `y` and `false` from `x` where one of the accesses to `y` does
not synchronise. -/
theorem exists_z_eq_zero {storeY loadY : MemoryOrder}
    (h : ¬ (storeY.releases = true ∧ loadY.acquires = true)) :
    ∃ s, Reachable storeY loadY s ∧ s.writer = .done ∧ s.reader = .done ∧ s.z = 0 := by
  have hrun : (Lib.replay (step storeY loadY) (fun _ _ => true) State.init
      [.write 1, .write 1, .read 0, .read 1]).any
      (fun s => decide (s.writer = .done ∧ s.reader = .done ∧ s.z = 0)) = true := by
    cases storeY <;> cases loadY <;> first | exact absurd ⟨rfl, rfl⟩ h | decide
  obtain ⟨s, hs, hp⟩ := Lib.exists_reaches (step storeY loadY) (fun _ _ => true) State.init _ _ hrun
  exact ⟨s, hs.mono fun _ _ _ => trivial, of_decide_eq_true hp⟩

/-- `z` is `1` whenever both threads are at their ends exactly when the store to `y` releases and
the load of `y` acquires. -/
theorem z_eq_one_iff (storeY loadY : MemoryOrder) :
    (∀ s, Reachable storeY loadY s → s.writer = .done → s.reader = .done → s.z = 1) ↔
      storeY.releases = true ∧ loadY.acquires = true := by
  constructor
  · intro hall
    by_contra hno
    obtain ⟨s, hs, hw, hr, hz⟩ := exists_z_eq_zero hno
    have hone := hall s hs hw hr
    omega
  · rintro ⟨ho, ho'⟩ s hs - hr
    have hpub : Published s :=
      Lib.Reaches.invariant Published.init (fun _ _ _ h _ hstep => h.step ho ho' hstep) hs
    rw [hpub.z, if_pos hr]

/-- The reader loads `y` once before the store and once after it, and both threads come to their
ends. -/
example : (Lib.replay (step .release .acquire) (fun _ _ => true) State.init
    [.write 1, .read 0, .write 1, .read 0, .read 0, .read 0]).any
    (fun s => decide (s.writer = .done ∧ s.reader = .done ∧ s.z = 1)) = true := by
  decide

end CPStudy.AtomicAndLock.MessagePassing

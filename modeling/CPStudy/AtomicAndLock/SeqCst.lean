import CPStudy.Lib.Transition
import CPStudy.Lib.WeakMemory

/-!
# `seq_cst.cc`

Two threads store `true` in `x` and in `y`. Two others wait each until it loads `true` from one of
them, load the other one and increment `z` where that is `true`. In the source every access is
sequentially consistent; here the orders of the stores and of the loads are parameters, and the two
kinds of thread are each one definition, with the location that the thread begins with. `++z` is a
read-modify-write of an atomic that `main` loads when it has joined the threads: a number.

The commented assertion `z.load() != 0` holds in the end whatever happens exactly when both the
stores and the loads are sequentially consistent (`z_ne_zero_iff`): with acquire and release the
two readers may see the two stores in opposite orders. This is by the rule of C++11 to C++17 for
sequentially consistent accesses (`Lib.WeakMemory`); by that of C++20 the loads alone, where all
four are sequentially consistent, would do.
-/

namespace CPStudy.AtomicAndLock.SeqCst

open Function (update)
open Lib (MemoryOrder WeakMemory View)

/-- The atomic locations. -/
inductive Loc
  | x
  | y
deriving DecidableEq

/-- The other location. -/
def Loc.other : Loc → Loc
  | .x => .y
  | .y => .x

/-- Where `read_x_then_y` or `read_y_then_x` stands. -/
inductive ReaderPc
  /-- Before a load of the first location in the loop. -/
  | first
  /-- Before the load of the second location. -/
  | second
  /-- Before `++z`. -/
  | inc
  /-- At its end; whether it has incremented `z` is history. -/
  | done (incremented : Bool)
deriving DecidableEq

/-- A state of the program. -/
structure State where
  /-- The memory. -/
  mem : WeakMemory Loc Empty Bool
  /-- `write_x` and `write_y` are at their ends. -/
  stored : Loc → Bool
  /-- What they have seen. -/
  writerView : Loc → View Loc Empty
  /-- `read_x_then_y` and `read_y_then_x`, by what they load first. -/
  reader : Loc → ReaderPc
  /-- What they have seen. -/
  readerView : Loc → View Loc Empty
  /-- `z`. -/
  z : ℤ

/-- The threads are started, and `x` and `y` are `false`. -/
def State.init : State where
  mem := WeakMemory.init (fun _ => false) Empty.elim
  stored := fun _ => false
  writerView := fun _ => (fun _ => 0, fun _ => 0)
  reader := fun _ => .first
  readerView := fun _ => (fun _ => 0, fun _ => 0)
  z := 0

/-- What happens next. -/
inductive Action
  /-- `write_x` or `write_y` stores at the time. -/
  | write (a : Loc) (time : ℕ)
  /-- `read_x_then_y` or `read_y_then_x` goes on; its load returns the message at the index. -/
  | read (a : Loc) (i : ℕ)

/-- A step of the program, with the orders of the stores and of the loads. -/
def step (os ol : MemoryOrder) (s : State) : Action → Option State
  | .write a time =>
    if s.stored a then none
    else (s.mem.store os (s.writerView a) a true time).map fun r =>
      { s with
        mem := r.1
        writerView := update s.writerView a r.2
        stored := update s.stored a true }
  | .read a i =>
    match s.reader a with
    | .first => (s.mem.load ol (s.readerView a) a i).map fun r =>
        { s with
          readerView := update s.readerView a r.2
          reader := update s.reader a (if r.1 then .second else .first) }
    | .second => (s.mem.load ol (s.readerView a) a.other i).map fun r =>
        { s with
          readerView := update s.readerView a r.2
          reader := update s.reader a (if r.1 then .inc else .done false) }
    | .inc => some { s with z := s.z + 1, reader := update s.reader a (.done true) }
    | .done _ => none

/-- The states that the program can come to. -/
def Reachable (os ol : MemoryOrder) (s : State) : Prop :=
  Lib.Reaches (step os ol) (fun _ _ => True) State.init s

/-- What holds where everything is sequentially consistent. -/
structure Ordered (s : State) : Prop where
  /-- Nobody stores `false`. -/
  old : ∀ a, ∀ m ∈ s.mem.msgs a, m.val = false → m.time = 0
  /-- Every store of `true` has its place in the order of all sequentially consistent accesses. -/
  placed : ∀ a, ∀ m ∈ s.mem.msgs a, m.val = true → 0 < s.mem.sc a
  /-- A reader that has left its loop has read from such a store. -/
  past : ∀ a, s.reader a ≠ .first → 0 < s.mem.sc a
  /-- Not both readers have found `false`. -/
  one : ¬ (s.reader .x = .done false ∧ s.reader .y = .done false)
  /-- Who has found `true` has incremented `z`. -/
  counted : ∀ a, s.reader a = .done true → 0 < s.z
  /-- Nobody decrements it. -/
  nonneg : 0 ≤ s.z

namespace Ordered

variable {s s' : State} {a : Loc} {act : Action}

/-- Nothing is stored yet. -/
theorem init : Ordered State.init where
  old := by
    intro a m hm _
    obtain rfl := List.mem_singleton.mp hm
    rfl
  placed := by
    intro a m hm hv
    obtain rfl := List.mem_singleton.mp hm
    cases hv
  past := fun _ h => absurd rfl h
  one := fun h => by cases h.1
  counted := fun _ h => by cases h
  nonneg := le_rfl

/-- A store comes after all sequentially consistent stores to the location. -/
theorem write (h : Ordered s) {time : ℕ} {M : WeakMemory Loc Empty Bool} {w : View Loc Empty}
    (hs : s.mem.store .seq_cst (s.writerView a) a true time = some (M, w)) :
    Ordered { s with
      mem := M
      writerView := update s.writerView a w
      stored := update s.stored a true } := by
  obtain ⟨hlt, -, -, -, -, m₀, htime, hval, -, rfl⟩ := WeakMemory.store_eq_some hs
  have hsc : ∀ b, (s.mem.push .seq_cst a m₀).sc b = if b = a then time else s.mem.sc b := by
    intro b
    change update s.mem.sc a m₀.time b = _
    rw [Function.update_apply, htime]
  -- The place of the location only moves on, so who was past it before is past it now.
  have hgrow : ∀ b, 0 < s.mem.sc b → 0 < (s.mem.push .seq_cst a m₀).sc b := by
    intro b hb
    rw [hsc]
    split <;> omega
  refine { h with old := ?_, placed := ?_, past := fun b hb => hgrow b (h.past b hb) }
  · intro b m hm hv
    rcases WeakMemory.mem_push.mp hm with ⟨-, rfl⟩ | hm
    · rw [hval] at hv
      cases hv
    · exact h.old b m hm hv
  · intro b m hm hv
    rcases WeakMemory.mem_push.mp hm with ⟨rfl, -⟩ | hm
    · rw [hsc, if_pos rfl]
      omega
    · exact hgrow b (h.placed b m hm hv)

/-- A reader goes on. -/
theorem go (h : Ordered s) {p : ReaderPc} {w : View Loc Empty} {z : ℤ} (hz : s.z ≤ z)
    (hsc : p ≠ .first → 0 < s.mem.sc a)
    (hone : p = .done false → s.reader a.other = .first) (hinc : p = .done true → 0 < z) :
    Ordered { s with
      readerView := update s.readerView a w, reader := update s.reader a p, z := z } := by
  refine { h with past := ?_, one := ?_, counted := ?_, nonneg := h.nonneg.trans hz }
  · intro b hb
    by_cases hba : b = a
    · subst hba
      change update s.reader b p b ≠ .first at hb
      rw [Function.update_self] at hb
      exact hsc hb
    · change update s.reader a p b ≠ .first at hb
      rw [Function.update_of_ne hba] at hb
      exact h.past b hb
  -- The one that goes on now finds `false` only while the other is still in its first loop.
  · rintro ⟨hx, hy⟩
    change update s.reader a p .x = .done false at hx
    change update s.reader a p .y = .done false at hy
    cases a with
    | x =>
      rw [Function.update_self] at hx
      rw [Function.update_of_ne (by decide), show s.reader .y = .first from hone hx] at hy
      cases hy
    | y =>
      rw [Function.update_self] at hy
      rw [Function.update_of_ne (by decide), show s.reader .x = .first from hone hy] at hx
      cases hx
  · intro b hb
    change update s.reader a p b = .done true at hb
    by_cases hba : b = a
    · subst hba
      rw [Function.update_self] at hb
      exact hinc hb
    · rw [Function.update_of_ne hba] at hb
      exact lt_of_lt_of_le (h.counted b hb) hz

/-- A reader that finds `false` comes before the store, and so before the other reader. -/
theorem first_of_false (h : Ordered s) {w w' : View Loc Empty} {i : ℕ}
    (hl : s.mem.load .seq_cst w a i = some (false, w')) : s.reader a = .first := by
  obtain ⟨m, hm, -, hsc, hval, -⟩ := WeakMemory.load_eq_some hl
  have hzero := h.old a m hm hval.symm
  have hle := hsc rfl
  by_contra hne
  have hpos := h.past a hne
  omega

/-- Every step keeps it. -/
theorem step (h : Ordered s) (hs : SeqCst.step .seq_cst .seq_cst s act = some s') : Ordered s' := by
  cases act with
  | write a time =>
    obtain ⟨-, hs⟩ := Option.ite_none_left_eq_some.mp hs
    obtain ⟨⟨M, w⟩, hst, rfl⟩ := Option.map_eq_some_iff.mp hs
    exact h.write hst
  | read a i =>
    cases hr : s.reader a with
    | first =>
      rw [SeqCst.step, hr] at hs
      obtain ⟨⟨v, w⟩, hl, rfl⟩ := Option.map_eq_some_iff.mp hs
      cases v with
      | false =>
        exact h.go le_rfl (fun hf => absurd rfl hf) (fun hf => by cases hf) fun hf => by cases hf
      -- It has read the store of `true`, which has its place: the loop is left after it.
      | true =>
        obtain ⟨m, hm, -, -, hval, -⟩ := WeakMemory.load_eq_some hl
        exact h.go le_rfl (fun _ => h.placed a m hm hval.symm) (fun hf => by cases hf)
          fun hf => by cases hf
    | second =>
      have hpast : 0 < s.mem.sc a := by
        apply h.past
        rw [hr]
        intro hf
        cases hf
      rw [SeqCst.step, hr] at hs
      obtain ⟨⟨v, w⟩, hl, rfl⟩ := Option.map_eq_some_iff.mp hs
      cases v with
      | false =>
        exact h.go le_rfl (fun _ => hpast) (fun _ => h.first_of_false hl) fun hf => by cases hf
      | true => exact h.go le_rfl (fun _ => hpast) (fun hf => by cases hf) fun hf => by cases hf
    | inc =>
      have hpast : 0 < s.mem.sc a := by
        apply h.past
        rw [hr]
        intro hf
        cases hf
      rw [SeqCst.step, hr] at hs
      obtain rfl := Option.some.inj hs
      have hnonneg := h.nonneg
      have hgo := h.go (p := .done true) (w := s.readerView a) (z := s.z + 1) (by omega)
        (fun _ => hpast) (fun hf => by cases hf) (fun _ => by omega)
      rwa [Function.update_eq_self] at hgo
    | done incremented =>
      rw [SeqCst.step, hr] at hs
      cases hs

end Ordered

/-- Where not everything is sequentially consistent the readers may see the stores in opposite
orders. -/
theorem exists_z_eq_zero {os ol : MemoryOrder} (h : ¬ (os = .seq_cst ∧ ol = .seq_cst)) :
    ∃ s, Reachable os ol s ∧ (∀ a, s.reader a = .done false) ∧ s.z = 0 := by
  have hrun : (Lib.replay (step os ol) (fun _ _ => true) State.init
      [.write .x 1, .write .y 1, .read .x 0, .read .x 1, .read .y 0, .read .y 1]).any
      (fun s => decide (s.reader .x = .done false ∧ s.reader .y = .done false ∧ s.z = 0)) =
        true := by
    cases os <;> cases ol <;> first | exact absurd ⟨rfl, rfl⟩ h | decide
  obtain ⟨s, hs, hp⟩ := Lib.exists_reaches (step os ol) (fun _ _ => true) State.init _ _ hrun
  obtain ⟨hx, hy, hz⟩ := of_decide_eq_true hp
  refine ⟨s, hs.mono fun _ _ _ => trivial, fun a => ?_, hz⟩
  cases a with
  | x => exact hx
  | y => exact hy

/-- `z` is not `0` whenever both readers are at their ends exactly when the stores and the loads are
sequentially consistent. -/
theorem z_ne_zero_iff (os ol : MemoryOrder) :
    (∀ s, Reachable os ol s → (∀ a, ∃ incremented, s.reader a = .done incremented) → s.z ≠ 0) ↔
      os = .seq_cst ∧ ol = .seq_cst := by
  constructor
  · intro hall
    by_contra hno
    obtain ⟨s, hs, hr, hz⟩ := exists_z_eq_zero hno
    exact hall s hs (fun a => ⟨false, hr a⟩) hz
  · rintro ⟨rfl, rfl⟩ s hs hr
    have hord : Ordered s :=
      Lib.Reaches.invariant Ordered.init (fun _ _ _ h _ hstep => h.step hstep) hs
    obtain ⟨c, hx⟩ := hr .x
    obtain ⟨d, hy⟩ := hr .y
    have hpos : 0 < s.z := by
      cases c with
      | true => exact hord.counted .x hx
      | false =>
        cases d with
        | true => exact hord.counted .y hy
        | false => exact absurd ⟨hx, hy⟩ hord.one
    omega

/-- The first reader loads `y` before the store and the second one `x` after it, and all four
threads come to their ends. -/
example : (Lib.replay (step .seq_cst .seq_cst) (fun _ _ => true) State.init
    [.write .x 1, .read .x 0, .read .x 0, .write .y 1, .read .y 0, .read .y 0, .read .y 0]).any
    (fun s => decide (s.reader .x = .done false ∧ s.reader .y = .done true ∧ s.z = 1)) = true := by
  decide

end CPStudy.AtomicAndLock.SeqCst

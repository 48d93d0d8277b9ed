import Mathlib.Order.Lattice
import Mathlib.Order.Lattice.Nat
import Mathlib.Order.BoundedOrder.Lattice
import Mathlib.Data.Finset.Lattice.Fold
import Mathlib.Data.Fintype.Basic
import Mathlib.Logic.Function.Basic
import Mathlib.Tactic.Common

/-!
# A memory with relaxed, acquire, release and sequentially consistent accesses

An atomic location has messages at times, the order of which is the modification order of the
location. A thread has a view: up to which time it has seen each location. A load may return any
message that is not below the view. A store puts its message at a time above the view that is not
taken, not necessarily behind all others; a read-modify-write puts it directly behind the message
that it reads, so that no second one can read the same message. A releasing store hands the view of
its thread on with the message, an acquiring load takes over what the message hands on, and the
message of a read-modify-write hands on what the one before it did. A sequentially consistent load
does not read below the last sequentially consistent store to the location: this is the rule of
C++11 to C++17, which says nothing of a sequentially consistent load that reads a weaker store.
C++20 orders also such loads, by the modification order of what they read, and so allows fewer
results.

Cells are locations that are not atomic. An access to one is defined only where the thread has seen
every access that was made to it before: otherwise the two are not ordered and may be a data race.
-/

namespace CPStudy.Lib

open Function (update)

/-- The order of an access to an atomic location. -/
inductive MemoryOrder
  | relaxed
  | acquire
  | release
  | acq_rel
  | seq_cst
deriving DecidableEq

/-- The access takes over what the message that it reads hands on. -/
def MemoryOrder.acquires : MemoryOrder → Bool
  | .relaxed => false
  | .acquire => true
  | .release => false
  | .acq_rel => true
  | .seq_cst => true

/-- The access hands on the view of its thread. -/
def MemoryOrder.releases : MemoryOrder → Bool
  | .relaxed => false
  | .acquire => false
  | .release => true
  | .acq_rel => true
  | .seq_cst => true

/-- Up to which time the locations have been seen, and how many accesses to the cells. -/
abbrev View (A C : Type*) := (A → ℕ) × (C → ℕ)

variable {A C β : Type*} {a b : A} {t : ℕ} {v : β} {w w' : View A C} {o : MemoryOrder}
  {P : β → Prop}

/-- A message of an atomic location. -/
structure Message (A C β : Type*) where
  /-- Its place in the modification order. -/
  time : ℕ
  /-- The value. -/
  val : β
  /-- The view that it hands on. -/
  view : View A C

/-- The memory. -/
structure WeakMemory (A C β : Type*) where
  /-- The messages of each atomic location, the newest first. -/
  msgs : A → List (Message A C β)
  /-- The time of the last sequentially consistent store to each atomic location. -/
  sc : A → ℕ
  /-- What is in the cells. -/
  cells : C → β
  /-- How many accesses to each cell there were. -/
  accs : C → ℕ

variable {M M' : WeakMemory A C β} {m : Message A C β}

/-- What a thread has seen that has joined all others. -/
def View.joined {ι : Type*} [Fintype ι] (view : ι → View A C) : View A C := Finset.univ.sup view

/-- What one of them has seen. -/
theorem View.le_joined {ι : Type*} [Fintype ι] (view : ι → View A C) (i : ι) :
    view i ≤ View.joined view := Finset.le_sup (Finset.mem_univ i)

/-- It grows with what each of them has seen. -/
theorem View.joined_mono {ι : Type*} [Fintype ι] {view view' : ι → View A C}
    (h : ∀ i, view i ≤ view' i) : View.joined view ≤ View.joined view' :=
  Finset.sup_mono_fun fun i _ => h i

/-- What has been seen of a location is what some thread has seen. -/
theorem View.exists_joined {ι : Type*} [Fintype ι] [Nonempty ι] (view : ι → View A C) (a : A) :
    ∃ i, (View.joined view).1 a = (view i).1 a := by
  have hsup : (View.joined view).1 a = Finset.univ.sup fun i => (view i).1 a :=
    Finset.apply_sup_eq_sup_comp (fun w : View A C => w.1 a) (fun _ _ => rfl) rfl
  obtain ⟨i, -, hi⟩ :=
    Finset.exists_mem_eq_sup Finset.univ Finset.univ_nonempty fun i => (view i).1 a
  exact ⟨i, hsup.trans hi⟩

namespace WeakMemory

/-- A memory in which each location was initialised before anything else happened. -/
def init (atoms : A → β) (cells : C → β) : WeakMemory A C β where
  msgs := fun a => [⟨0, atoms a, fun _ => 0, fun _ => 0⟩]
  sc := fun _ => 0
  cells := cells
  accs := fun _ => 0

section Operations

variable [DecidableEq A]

/-- The view of a thread that has seen a message. -/
def see (w : View A C) (a : A) (m : Message A C β) : View A C :=
  w ⊔ (update (fun _ => 0) a m.time, fun _ => 0)

/-- The view of a thread after a load of a message. -/
def seen (o : MemoryOrder) (w : View A C) (a : A) (m : Message A C β) : View A C :=
  if o.acquires then see w a m ⊔ m.view else see w a m

/-- A message is added. -/
def push (M : WeakMemory A C β) (o : MemoryOrder) (a : A) (m : Message A C β) : WeakMemory A C β :=
  { M with
    msgs := update M.msgs a (m :: M.msgs a)
    sc := if o = .seq_cst then update M.sc a m.time else M.sc }

/-- A load of the message at an index of the list: the value and the view after it. -/
def load (M : WeakMemory A C β) (o : MemoryOrder) (w : View A C) (a : A) (i : ℕ) :
    Option (β × View A C) :=
  match (M.msgs a)[i]? with
  | some m =>
    if w.1 a ≤ m.time ∧ (o = .seq_cst → M.sc a ≤ m.time) then some (m.val, seen o w a m) else none
  | none => none

/-- A store at a time: the memory and the view after it. -/
def store (M : WeakMemory A C β) (o : MemoryOrder) (w : View A C) (a : A) (v : β) (t : ℕ) :
    Option (WeakMemory A C β × View A C) :=
  if (∀ m ∈ M.msgs a, m.time ≠ t) ∧ w.1 a < t ∧ (o = .seq_cst → M.sc a < t) then
    let w' := see w a (⟨t, v, w⟩ : Message A C β)
    some (M.push o a ⟨t, v, if o.releases then w' else (fun _ => 0, fun _ => 0)⟩, w')
  else none

/-- A read-modify-write of the message at an index of the list: the value read, and the memory and
the view after it. -/
def rmw (M : WeakMemory A C β) (o : MemoryOrder) (w : View A C) (a : A) (f : β → β) (i : ℕ) :
    Option (β × WeakMemory A C β × View A C) :=
  match (M.msgs a)[i]? with
  | some m =>
    if w.1 a ≤ m.time ∧ (o = .seq_cst → M.sc a ≤ m.time) ∧
        ∀ m' ∈ M.msgs a, m'.time ≠ m.time + 1 then
      let w' := see (seen o w a m) a (⟨m.time + 1, f m.val, w⟩ : Message A C β)
      some (m.val, M.push o a ⟨m.time + 1, f m.val, if o.releases then m.view ⊔ w' else m.view⟩, w')
    else none
  | none => none

variable [DecidableEq C]

/-- A read of a cell: the value, and the memory and the view after it. -/
def read (M : WeakMemory A C β) (w : View A C) (c : C) : Option (β × WeakMemory A C β × View A C) :=
  if M.accs c ≤ w.2 c then
    some (M.cells c, { M with accs := update M.accs c (M.accs c + 1) },
      (w.1, update w.2 c (w.2 c + 1)))
  else none

/-- A write to a cell: the memory and the view after it. -/
def write (M : WeakMemory A C β) (w : View A C) (c : C) (v : β) :
    Option (WeakMemory A C β × View A C) :=
  if M.accs c ≤ w.2 c then
    some ({ M with
      cells := update M.cells c v
      accs := update M.accs c (M.accs c + 1) }, (w.1, update w.2 c (w.2 c + 1)))
  else none

end Operations

/-- The messages that the view allows a load to return all satisfy the predicate. -/
def Sees (M : WeakMemory A C β) (w : View A C) (a : A) (P : β → Prop) : Prop :=
  ∀ m ∈ M.msgs a, w.1 a ≤ m.time → P m.val

/-- Who has seen more can load less. -/
theorem Sees.mono (h : M.Sees w a P) (hle : w.1 a ≤ w'.1 a) : M.Sees w' a P :=
  fun m hm ht => h m hm (hle.trans ht)

/-- In a memory with no message but the first, and a view beyond it, nothing else can be loaded. -/
theorem sees_of_old (h : ∀ m ∈ M.msgs a, ¬ P m.val → m.time = 0) (hw : 0 < w.1 a) :
    M.Sees w a P := by
  intro m hm ht
  by_contra hP
  have hzero := h m hm hP
  omega

section Lemmas

variable [DecidableEq A]

/-- The messages after one was added. -/
theorem mem_push {m₀ : Message A C β} :
    m ∈ (M.push o a m₀).msgs b ↔ (b = a ∧ m = m₀) ∨ m ∈ M.msgs b := by
  dsimp only [push]
  by_cases hb : b = a
  · subst hb
    rw [Function.update_self, List.mem_cons]
    simp only [true_and]
  · rw [Function.update_of_ne hb]
    simp only [hb, false_and, false_or]

/-- What may be loaded after a message was added. -/
theorem Sees.push {m₀ : Message A C β} (h : M.Sees w b P)
    (hP : b = a → w.1 b ≤ m₀.time → P m₀.val) : (M.push o a m₀).Sees w b P := by
  intro m hm ht
  rcases mem_push.mp hm with ⟨hb, rfl⟩ | hm
  · exact hP hb ht
  · exact h m hm ht

/-- A view grows when its thread sees a message. -/
theorem le_see (w : View A C) (a : A) (m : Message A C β) : w ≤ see w a m := le_sup_left

/-- The message is in the view then. -/
theorem time_le_see (w : View A C) (a : A) (m : Message A C β) : m.time ≤ (see w a m).1 a := by
  have hle : (update (fun _ => 0) a m.time : A → ℕ) a ≤ (see w a m).1 a := le_sup_right
  rwa [Function.update_self] at hle

/-- A view grows with a load. -/
theorem le_seen (o : MemoryOrder) (w : View A C) (a : A) (m : Message A C β) :
    w ≤ seen o w a m := by
  unfold seen
  split
  · exact (le_see w a m).trans le_sup_left
  · exact le_see w a m

/-- An acquiring load takes over what the message hands on. -/
theorem view_le_seen (ho : o.acquires = true) (w : View A C) (a : A) (m : Message A C β) :
    m.view ≤ seen o w a m := by
  unfold seen
  rw [if_pos ho]
  exact le_sup_right

/-- What a load does. -/
theorem load_eq_some {i : ℕ} (h : M.load o w a i = some (v, w')) :
    ∃ m ∈ M.msgs a, w.1 a ≤ m.time ∧ (o = .seq_cst → M.sc a ≤ m.time) ∧ v = m.val ∧
      w' = seen o w a m := by
  unfold load at h
  split at h
  case h_1 m hi =>
    obtain ⟨⟨hle, hsc⟩, h⟩ := Option.ite_none_right_eq_some.mp h
    obtain ⟨rfl, rfl⟩ := Prod.mk.inj (Option.some.inj h)
    exact ⟨m, List.mem_of_getElem? hi, hle, hsc, rfl, rfl⟩
  case h_2 => cases h

/-- When a load is possible. -/
theorem load_eq_of_getElem {i : ℕ} (hi : (M.msgs a)[i]? = some m) (hle : w.1 a ≤ m.time)
    (hsc : o = .seq_cst → M.sc a ≤ m.time) : M.load o w a i = some (m.val, seen o w a m) := by
  rw [load, hi]
  exact if_pos ⟨hle, hsc⟩

/-- What a store does. -/
theorem store_eq_some (h : M.store o w a v t = some (M', w')) :
    w.1 a < t ∧ (o = .seq_cst → M.sc a < t) ∧ (∀ m ∈ M.msgs a, m.time ≠ t) ∧ w ≤ w' ∧ t ≤ w'.1 a ∧
      ∃ m, m.time = t ∧ m.val = v ∧ (o.releases = true → m.view = w') ∧ M' = M.push o a m := by
  unfold store at h
  obtain ⟨⟨hfree, hlt, hsc⟩, h⟩ := Option.ite_none_right_eq_some.mp h
  obtain ⟨rfl, rfl⟩ := Prod.mk.inj (Option.some.inj h)
  exact ⟨hlt, hsc, hfree, le_see w a _, time_le_see w a (⟨t, v, w⟩ : Message A C β), _, rfl, rfl,
    fun ho => if_pos ho, rfl⟩

/-- A thread has seen its own store and nothing behind it. -/
theorem time_of_store (h : M.store o w a v t = some (M', w')) : w'.1 a = t := by
  obtain ⟨hlt, -, -, -, hle, -⟩ := store_eq_some h
  unfold store at h
  obtain ⟨-, h⟩ := Option.ite_none_right_eq_some.mp h
  obtain ⟨-, rfl⟩ := Prod.mk.inj (Option.some.inj h)
  refine le_antisymm (sup_le hlt.le ?_) hle
  dsimp only
  rw [Function.update_self]

/-- What a read-modify-write does. -/
theorem rmw_eq_some {f : β → β} {i : ℕ} (h : M.rmw o w a f i = some (v, M', w')) :
    ∃ m ∈ M.msgs a, w.1 a ≤ m.time ∧ (o = .seq_cst → M.sc a ≤ m.time) ∧
      (∀ m' ∈ M.msgs a, m'.time ≠ m.time + 1) ∧ v = m.val ∧ seen o w a m ≤ w' ∧
      m.time + 1 ≤ w'.1 a ∧
      ∃ m', m'.time = m.time + 1 ∧ m'.val = f m.val ∧ m.view ≤ m'.view ∧
        (o.releases = true → w' ≤ m'.view) ∧ M' = M.push o a m' := by
  unfold rmw at h
  split at h
  case h_1 m hi =>
    obtain ⟨⟨hle, hsc, hfree⟩, hsome⟩ := Option.ite_none_right_eq_some.mp h
    obtain ⟨rfl, hpair⟩ := Prod.mk.inj (Option.some.inj hsome)
    obtain ⟨rfl, rfl⟩ := Prod.mk.inj hpair
    refine ⟨m, List.mem_of_getElem? hi, hle, hsc, hfree, rfl, le_see _ a _,
      time_le_see _ a (⟨m.time + 1, f m.val, w⟩ : Message A C β), _, rfl, rfl, ?_, ?_, rfl⟩
    · dsimp only
      split
      · exact le_sup_left
      · exact le_rfl
    · intro ho
      dsimp only
      rw [if_pos ho]
      exact le_sup_right
  case h_2 => cases h

/-- A view stays below what bounds it and the message. -/
theorem see_le {x : View A C} (hw : w ≤ x) (hm : m.time ≤ x.1 a) : see w a m ≤ x := by
  refine sup_le hw ⟨fun b => ?_, fun c => Nat.zero_le _⟩
  dsimp only
  by_cases hb : b = a
  · subst hb
    rwa [Function.update_self]
  · rw [Function.update_of_ne hb]
    exact Nat.zero_le _

/-- What bounds the view of a thread and the messages bounds them after a read-modify-write. -/
theorem rmw_le {f : β → β} {i : ℕ} {x : View A C} (h : M.rmw o w a f i = some (v, M', w'))
    (hw : w ≤ x) (hM : ∀ m ∈ M.msgs a, m.view ≤ x ∧ m.time < x.1 a) :
    w' ≤ x ∧ ∀ m ∈ M'.msgs a, m.view ≤ x := by
  unfold rmw at h
  split at h
  case h_1 m hi =>
    obtain ⟨-, hsome⟩ := Option.ite_none_right_eq_some.mp h
    obtain ⟨rfl, hpair⟩ := Prod.mk.inj (Option.some.inj hsome)
    obtain ⟨rfl, rfl⟩ := Prod.mk.inj hpair
    obtain ⟨hview, htime⟩ := hM m (List.mem_of_getElem? hi)
    have hsee : see w a m ≤ x := see_le hw htime.le
    have hseen : seen o w a m ≤ x := by
      unfold seen
      split
      · exact sup_le hsee hview
      · exact hsee
    have hw' := see_le (m := (⟨m.time + 1, f m.val, w⟩ : Message A C β)) hseen htime
    refine ⟨hw', fun m' hm' => ?_⟩
    rcases mem_push.mp hm' with ⟨-, rfl⟩ | hm'
    · dsimp only
      split
      · exact sup_le hview hw'
      · exact hview
    · exact (hM m' hm').1
  case h_2 => cases h

/-- The view of a thread grows with what it does. -/
theorem le_of_load {i : ℕ} (h : M.load o w a i = some (v, w')) : w ≤ w' := by
  obtain ⟨m, -, -, -, -, rfl⟩ := load_eq_some h
  exact le_seen o w a m

/-- A load returns what the view allows. -/
theorem Sees.load {i : ℕ} (hs : M.Sees w a P) (h : M.load o w a i = some (v, w')) : P v := by
  obtain ⟨m, hm, hle, -, rfl, -⟩ := load_eq_some h
  exact hs m hm hle

/-- Publication: where every message with a value hands on a view that has seen something else, an
acquiring load of that value has seen it as well. -/
theorem Sees.acquire {i : ℕ} (hpub : ∀ m ∈ M.msgs a, m.val = v → M.Sees m.view b P)
    (ho : o.acquires = true) (h : M.load o w a i = some (v, w')) : M.Sees w' b P := by
  obtain ⟨m, hm, -, -, rfl, rfl⟩ := load_eq_some h
  exact (hpub m hm rfl).mono ((view_le_seen ho w a m).1 b)

end Lemmas

end WeakMemory

end CPStudy.Lib

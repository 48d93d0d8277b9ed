import CPStudy.Lib.Mutex
import CPStudy.Lib.Transition

/-!
# Critical sections are atomic

An object is used through operations, each of which locks the mutex of the object, accesses the
object step by step and unlocks the mutex. `Code` is what an operation does in between: each of its
steps may change the object and goes on with what it has read, and the code ends by returning a
result or is undefined. `CriticalSection.step` lets any number of threads do so in any
interleaving.

`Atomic.step` is the abstract machine: a call is pending for a while and then takes effect at once.
Every run of the first machine is one of the second (`reaches_atomic`), in which an operation takes
effect when it unlocks; and where the operations that are pending in the second are defined, nothing
undefined happens in the first (`undefined_eq_false`).
-/

namespace CPStudy.Lib

open Function (update)

variable {ι σ Op ρ : Type*}

/-- What an operation does with the object. -/
inductive Code (σ ρ : Type*)
  /-- It returns. -/
  | ret (r : ρ)
  /-- It changes the object, and goes on with what it has read. -/
  | act (f : σ → σ) (next : σ → Code σ ρ)
  /-- It is undefined. -/
  | undefined

/-- The object and the result after the code, where nobody else accesses the object. -/
def Code.run : Code σ ρ → σ → Option (σ × ρ)
  | .ret r, x => some (x, r)
  | .act f next, x => (next x).run (f x)
  | .undefined, _ => none

namespace Atomic

/-- A state of the abstract machine. -/
structure State (ι σ Op ρ : Type*) where
  /-- The object. -/
  obj : σ
  /-- The call of each thread, if it is in one. -/
  pending : ι → Option Op
  /-- The calls that have taken effect, with their results, in this order. -/
  log : List (ι × Op × ρ)

/-- What happens next. -/
inductive Action (ι Op : Type*)
  /-- A thread calls an operation. -/
  | call (t : ι) (op : Op)
  /-- The operation that a thread has called takes effect and returns. -/
  | ret (t : ι)

/-- Nothing has been called. -/
def State.init (x : σ) : State ι σ Op ρ := ⟨x, fun _ => none, []⟩

/-- A step of the abstract machine. -/
def step [DecidableEq ι] (code : Op → Code σ ρ) (s : State ι σ Op ρ) :
    Action ι Op → Option (State ι σ Op ρ)
  | .call t op =>
    match s.pending t with
    | none => some { s with pending := update s.pending t (some op) }
    | some _ => none
  | .ret t =>
    match s.pending t with
    | some op => ((code op).run s.obj).map fun r =>
        { obj := r.1, pending := update s.pending t none, log := s.log ++ [(t, op, r.2)] }
    | none => none

/-- The discipline of the callers: which calls may be made after those that have returned. -/
def Calls (P : List (ι × Op × ρ) → ι → Op → Prop) (s : State ι σ Op ρ) : Action ι Op → Prop
  | .call t op => P s.log t op
  | .ret _ => True

variable [DecidableEq ι] {code : Op → Code σ ρ} {s s' : State ι σ Op ρ} {t : ι} {op : Op}

/-- What a call does. -/
theorem call_eq_some (h : step code s (.call t op) = some s') :
    s.pending t = none ∧ s' = { s with pending := update s.pending t (some op) } := by
  cases hp : s.pending t with
  | none =>
    rw [step, hp] at h
    exact ⟨rfl, (Option.some.inj h).symm⟩
  | some op' =>
    rw [step, hp] at h
    cases h

/-- What the end of a call does. -/
theorem ret_eq_some (h : step code s (.ret t) = some s') :
    ∃ op x r, s.pending t = some op ∧ (code op).run s.obj = some (x, r) ∧
      s' = ⟨x, update s.pending t none, s.log ++ [(t, op, r)]⟩ := by
  cases hp : s.pending t with
  | none =>
    rw [step, hp] at h
    cases h
  | some op =>
    rw [step, hp] at h
    obtain ⟨⟨x, r⟩, hrun, rfl⟩ := Option.map_eq_some_iff.mp h
    exact ⟨op, x, r, rfl, hrun, rfl⟩

/-- What holds at first, and is kept by a call that the discipline allows and by an operation that
takes effect, holds in every state. -/
theorem invariant {P : List (ι × Op × ρ) → ι → Op → Prop} {I : State ι σ Op ρ → Prop} {x : σ}
    (h0 : I (State.init x))
    (hcall : ∀ s t op, I s → s.pending t = none → P s.log t op →
      I { s with pending := update s.pending t (some op) })
    (hret : ∀ s t op y r, I s → s.pending t = some op → (code op).run s.obj = some (y, r) →
      I ⟨y, update s.pending t none, s.log ++ [(t, op, r)]⟩)
    (h : Reaches (step code) (Calls P) (State.init x) s) : I s := by
  refine h.invariant h0 fun u a v hu hP hstep => ?_
  cases a with
  | call t op =>
    obtain ⟨hp, rfl⟩ := call_eq_some hstep
    exact hcall u t op hu hp hP
  | ret t =>
    obtain ⟨op, y, r, hp, hrun, rfl⟩ := ret_eq_some hstep
    exact hret u t op y r hu hp hrun

end Atomic

namespace CriticalSection

/-- Where a thread stands. -/
inductive Point (σ Op ρ : Type*)
  /-- In no call. -/
  | idle
  /-- In a call, before the mutex. -/
  | waiting (op : Op)
  /-- With the mutex, before this code. -/
  | inside (op : Op) (c : Code σ ρ)

/-- The call that a thread is in. -/
def Point.pending : Point σ Op ρ → Option Op
  | .idle => none
  | .waiting op => some op
  | .inside op _ => some op

/-- The thread has the mutex. -/
def Point.holds : Point σ Op ρ → Bool
  | .idle => false
  | .waiting _ => false
  | .inside _ _ => true

/-- A state of the object and of its users. -/
structure State (ι σ Op ρ : Type*) where
  /-- The object. -/
  obj : σ
  /-- Who has the mutex. -/
  owner : Option ι
  /-- The threads. -/
  point : ι → Point σ Op ρ
  /-- Somebody did something undefined. -/
  undefined : Bool
  /-- The object as it was when the mutex was unlocked last. -/
  settled : σ
  /-- The calls that have returned, with their results, in the order in which they have unlocked the
  mutex. -/
  log : List (ι × Op × ρ)

/-- What happens next. -/
inductive Action (ι Op : Type*)
  /-- A thread calls an operation. -/
  | call (t : ι) (op : Op)
  /-- A thread locks the mutex. -/
  | lock (t : ι)
  /-- The thread with the mutex goes on in the code. -/
  | run (t : ι)
  /-- The thread with the mutex unlocks it and returns. -/
  | unlock (t : ι)

/-- Nothing has been called. -/
def State.init (x : σ) : State ι σ Op ρ := ⟨x, none, fun _ => .idle, false, x, []⟩

/-- A step. -/
def step [DecidableEq ι] (code : Op → Code σ ρ) (s : State ι σ Op ρ) :
    Action ι Op → Option (State ι σ Op ρ)
  | .call t op =>
    match s.point t with
    | .idle => some { s with point := update s.point t (.waiting op) }
    | _ => none
  | .lock t =>
    match s.point t, s.owner with
    | .waiting op, none =>
      some { s with owner := some t, point := update s.point t (.inside op (code op)) }
    | _, _ => none
  | .run t =>
    match s.point t with
    | .inside op (.act f next) =>
      some { s with obj := f s.obj, point := update s.point t (.inside op (next s.obj)) }
    | .inside _ .undefined => some { s with undefined := true }
    | _ => none
  | .unlock t =>
    match s.point t with
    | .inside op (.ret r) =>
      some { s with
        owner := none
        point := update s.point t .idle
        settled := s.obj
        log := s.log ++ [(t, op, r)] }
    | _ => none

/-- What the abstract machine sees of a state. -/
def State.toAtomic (s : State ι σ Op ρ) : Atomic.State ι σ Op ρ :=
  ⟨s.settled, fun t => (s.point t).pending, s.log⟩

/-- What happens in the abstract machine. -/
def Action.toAtomic : Action ι Op → Option (Atomic.Action ι Op)
  | .call t op => some (.call t op)
  | .lock _ => none
  | .run _ => none
  | .unlock t => some (.ret t)

/-- The discipline of the callers: which calls may be made after those that have returned. -/
def Calls (P : List (ι × Op × ρ) → ι → Op → Prop) (s : State ι σ Op ρ) : Action ι Op → Prop
  | .call t op => P s.log t op
  | .lock _ => True
  | .run _ => True
  | .unlock _ => True

/-- The code that a thread with the mutex is in does with the object what the whole operation does
with what the mutex guarded before. -/
structure Simulates (code : Op → Code σ ρ) (s : State ι σ Op ρ) : Prop where
  /-- The mutex works. -/
  guards : Guards s.owner fun t => (s.point t).holds
  /-- While nobody has it, nobody changes the object. -/
  free : s.owner = none → s.obj = s.settled
  /-- Who has it goes on from what was there before. -/
  inside : ∀ t op c, s.point t = .inside op c → c.run s.obj = (code op).run s.settled

namespace Simulates

variable {code : Op → Code σ ρ} {s s' : State ι σ Op ρ} {t : ι} {op : Op}

/-- Nothing has been called. -/
theorem init (x : σ) : Simulates code (State.init x : State ι σ Op ρ) where
  guards := .free
  free := fun _ => rfl
  inside := fun t op c h => by cases h

variable [DecidableEq ι]

/-- A thread goes on from where it stands to `p`, and the mutex and the object with it. -/
theorem next {p : Point σ Op ρ} {x y : σ} {o : Option ι} {b : Bool}
    {l : List (ι × Op × ρ)}
    (hguards : Guards o (update (fun u => (s.point u).holds) t p.holds)) (hfree : o = none → x = y)
    (hself : ∀ op c, p = .inside op c → c.run x = (code op).run y)
    (hothers : ∀ u op c, u ≠ t → s.point u = .inside op c → c.run x = (code op).run y) :
    Simulates code ⟨x, o, update s.point t p, b, y, l⟩ := by
  constructor
  case guards =>
    have hholds : (fun u => (update s.point t p u).holds) =
        update (fun u => (s.point u).holds) t p.holds :=
      funext fun u => Function.apply_update (fun _ => Point.holds) s.point t p u
    dsimp only
    rw [hholds]
    exact hguards
  case free => exact hfree
  case inside =>
    intro u op c hu
    dsimp only at hu ⊢
    by_cases hut : u = t
    · rw [hut, Function.update_self] at hu
      exact hself op c hu
    · rw [Function.update_of_ne hut] at hu
      exact hothers u op c hut hu

/-- The pending calls when a thread goes on. -/
theorem pending_update (s : State ι σ Op ρ) (t : ι) (p : Point σ Op ρ) :
    (fun u => (update s.point t p u).pending) =
      update (fun u => (s.point u).pending) t p.pending :=
  funext fun u => Function.apply_update (fun _ => Point.pending) s.point t p u

/-- They are the same where the thread stays in its call. -/
theorem pending_eq {p : Point σ Op ρ} (hp : p.pending = (s.point t).pending) :
    (fun u => (update s.point t p u).pending) = fun u => (s.point u).pending := by
  rw [pending_update, hp, Function.update_eq_self]

/-- A call. -/
theorem call (h : Simulates code s) (hs : CriticalSection.step code s (.call t op) = some s') :
    Simulates code s' ∧ Atomic.step code s.toAtomic (.call t op) = some s'.toAtomic := by
  cases hp : s.point t with
  | idle =>
    rw [CriticalSection.step, hp] at hs
    obtain rfl := Option.some.inj hs
    -- Neither the mutex nor anybody inside has to do with it.
    have hholds : (Point.waiting op : Point σ Op ρ).holds = (s.point t).holds := by
      rw [hp]
      rfl
    constructor
    · refine next (h.guards.keep hholds) h.free (fun _ _ hf => by cases hf) ?_
      exact fun u op' c _ hu => h.inside u op' c hu
    · have hnone : s.toAtomic.pending t = none := by
        change (s.point t).pending = none
        rw [hp]
        rfl
      rw [Atomic.step, hnone]
      dsimp only [State.toAtomic]
      rw [pending_update]
      rfl
  | waiting op' =>
    rw [CriticalSection.step, hp] at hs
    cases hs
  | inside op' c =>
    rw [CriticalSection.step, hp] at hs
    cases hs

/-- The mutex is locked. -/
theorem lock (h : Simulates code s) (hs : CriticalSection.step code s (.lock t) = some s') :
    Simulates code s' ∧ s'.toAtomic = s.toAtomic ∧ s'.undefined = s.undefined := by
  cases hp : s.point t with
  | idle =>
    rw [CriticalSection.step, hp] at hs
    cases hs
  | waiting op =>
    cases ho : s.owner with
    | none =>
      rw [CriticalSection.step, hp, ho] at hs
      obtain rfl := Option.some.inj hs
      have hguards := h.guards
      rw [ho] at hguards
      -- Nobody was inside, so the operation starts on the object that the last one left.
      have hobj : s.obj = s.settled := h.free ho
      refine ⟨?_, ?_, rfl⟩
      · refine next (hguards.acquire rfl) (fun hf => by cases hf) ?_ ?_
        · intro op' c hin
          cases hin
          rw [hobj]
        · exact fun u op' c _ hu => h.inside u op' c hu
      · dsimp only [State.toAtomic]
        rw [pending_eq]
        rw [hp]
        rfl
    | some u =>
      rw [CriticalSection.step, hp, ho] at hs
      cases hs
  | inside op c =>
    rw [CriticalSection.step, hp] at hs
    cases hs

/-- The thread with the mutex goes on. Where that is undefined, so is the whole operation. -/
theorem run (h : Simulates code s) (hs : CriticalSection.step code s (.run t) = some s') :
    Simulates code s' ∧ s'.toAtomic = s.toAtomic ∧
      (s'.undefined = s.undefined ∨
        ∃ op, (s.point t).pending = some op ∧ (code op).run s.settled = none) := by
  cases hp : s.point t with
  | idle =>
    rw [CriticalSection.step, hp] at hs
    cases hs
  | waiting op =>
    rw [CriticalSection.step, hp] at hs
    cases hs
  | inside op c =>
    have hin := h.inside t op c hp
    cases c with
    | ret r =>
      rw [CriticalSection.step, hp] at hs
      cases hs
    | act f k =>
      rw [CriticalSection.step, hp] at hs
      obtain rfl := Option.some.inj hs
      have hholds : (s.point t).holds = true := by
        rw [hp]
        rfl
      have hown : s.owner = some t := (h.guards t).mpr hholds
      -- What is left to do on what is there is as before, and nobody else is inside.
      refine ⟨?_, ?_, .inl rfl⟩
      · refine next (h.guards.keep ?_) ?_ ?_ ?_
        · rw [hp]
          rfl
        · intro hnone
          rw [hown] at hnone
          cases hnone
        · intro op' c hc
          cases hc
          exact hin
        · intro u op' c hu hc
          have hfalse := h.guards.eq_false_of_ne hholds hu
          rw [hc] at hfalse
          cases hfalse
      · dsimp only [State.toAtomic]
        rw [pending_eq]
        rw [hp]
        rfl
    | undefined =>
      rw [CriticalSection.step, hp] at hs
      obtain rfl := Option.some.inj hs
      exact ⟨⟨h.guards, h.free, h.inside⟩, rfl, .inr ⟨op, rfl, hin.symm⟩⟩

/-- The mutex is unlocked: the operation takes effect in the abstract machine. -/
theorem unlock (h : Simulates code s) (hs : CriticalSection.step code s (.unlock t) = some s') :
    Simulates code s' ∧ Atomic.step code s.toAtomic (.ret t) = some s'.toAtomic ∧
      s'.undefined = s.undefined := by
  cases hp : s.point t with
  | idle =>
    rw [CriticalSection.step, hp] at hs
    cases hs
  | waiting op =>
    rw [CriticalSection.step, hp] at hs
    cases hs
  | inside op c =>
    have hin := h.inside t op c hp
    have hholds : (s.point t).holds = true := by
      rw [hp]
      rfl
    cases c with
    | ret r =>
      rw [CriticalSection.step, hp] at hs
      obtain rfl := Option.some.inj hs
      refine ⟨?_, ?_, rfl⟩
      · refine next (h.guards.release hholds rfl) (fun _ => rfl) (fun _ _ hf => by cases hf) ?_
        intro u op' c hu hc
        have hfalse := h.guards.eq_false_of_ne hholds hu
        rw [hc] at hfalse
        cases hfalse
      · have hpend : s.toAtomic.pending t = some op := by
          change (s.point t).pending = some op
          rw [hp]
          rfl
        -- What the operation has done is what it does at once to the object that it found.
        have hrun : (code op).run s.toAtomic.obj = some (s.obj, r) := hin.symm
        rw [Atomic.step, hpend]
        dsimp only
        rw [hrun]
        dsimp only [State.toAtomic]
        rw [pending_update]
        rfl
    | act f k =>
      rw [CriticalSection.step, hp] at hs
      cases hs
    | undefined =>
      rw [CriticalSection.step, hp] at hs
      cases hs

/-- Every step is one of the abstract machine or none, and is undefined only where a pending
operation is. -/
theorem step (h : Simulates code s) {a : Action ι Op}
    (hs : CriticalSection.step code s a = some s') :
    Simulates code s' ∧
      ((a.toAtomic = none ∧ s'.toAtomic = s.toAtomic) ∨
        ∃ b, a.toAtomic = some b ∧ Atomic.step code s.toAtomic b = some s'.toAtomic) ∧
      (s'.undefined = s.undefined ∨
        ∃ t op, s.toAtomic.pending t = some op ∧ (code op).run s.toAtomic.obj = none) := by
  cases a with
  | call t op =>
    obtain ⟨hsim, hstep⟩ := h.call hs
    refine ⟨hsim, .inr ⟨_, rfl, hstep⟩, .inl ?_⟩
    cases hp : s.point t with
    | idle =>
      rw [CriticalSection.step, hp] at hs
      obtain rfl := Option.some.inj hs
      rfl
    | waiting op' =>
      rw [CriticalSection.step, hp] at hs
      cases hs
    | inside op' c =>
      rw [CriticalSection.step, hp] at hs
      cases hs
  | lock t =>
    obtain ⟨hsim, heq, hundefined⟩ := h.lock hs
    exact ⟨hsim, .inl ⟨rfl, heq⟩, .inl hundefined⟩
  | run t =>
    obtain ⟨hsim, heq, hundefined⟩ := h.run hs
    exact ⟨hsim, .inl ⟨rfl, heq⟩, hundefined.imp_right fun hex => ⟨t, hex⟩⟩
  | unlock t =>
    obtain ⟨hsim, hstep, hundefined⟩ := h.unlock hs
    exact ⟨hsim, .inr ⟨_, rfl, hstep⟩, .inl hundefined⟩

end Simulates

section Run

variable [DecidableEq ι] {code : Op → Code σ ρ} {x : σ} {s : State ι σ Op ρ}
  {P : List (ι × Op × ρ) → ι → Op → Prop}

/-- In every run the mutex works. -/
theorem simulates (h : Reaches (step code) (Calls P) (State.init x) s) : Simulates code s :=
  h.invariant (Simulates.init x) fun _ _ _ hsim _ hstep => (hsim.step hstep).1

/-- Every run is one of the abstract machine, in which the same discipline is kept. -/
theorem reaches_atomic (h : Reaches (step code) (Calls P) (State.init x) s) :
    Reaches (Atomic.step code) (Atomic.Calls P) (Atomic.State.init x) s.toAtomic := by
  refine h.invariant_of (J := Simulates code)
    (I := fun u => Reaches (Atomic.step code) (Atomic.Calls P) (Atomic.State.init x) u.toAtomic)
    (fun _ => simulates) .refl ?_
  intro u a v hsim hrun hP hstep
  obtain ⟨-, ⟨-, heq⟩ | ⟨b, hb, hab⟩, -⟩ := hsim.step hstep
  · rw [heq]
    exact hrun
  · refine hrun.tail ?_ hab
    cases a with
    | call t op =>
      obtain rfl := Option.some.inj hb
      exact hP
    | lock t => cases hb
    | run t => cases hb
    | unlock t =>
      obtain rfl := Option.some.inj hb
      trivial

/-- Where no operation that is pending in the abstract machine is undefined, nothing undefined
happens. -/
theorem undefined_eq_false
    (hdef : ∀ s : Atomic.State ι σ Op ρ,
      Reaches (Atomic.step code) (Atomic.Calls P) (Atomic.State.init x) s →
        ∀ t op, s.pending t = some op → (code op).run s.obj ≠ none)
    (h : Reaches (step code) (Calls P) (State.init x) s) : s.undefined = false := by
  refine h.invariant_of
    (J := fun u => Simulates code u ∧
      Reaches (Atomic.step code) (Atomic.Calls P) (Atomic.State.init x) u.toAtomic)
    (I := fun u => u.undefined = false) (fun _ hu => ⟨simulates hu, reaches_atomic hu⟩) rfl ?_
  rintro u a v ⟨hsim, hatomic⟩ hu - hstep
  obtain ⟨-, -, hundefined | ⟨t, op, hp, hnone⟩⟩ := hsim.step hstep
  · exact hundefined.trans hu
  · exact absurd hnone (hdef _ hatomic t op hp)

end Run

end CriticalSection

end CPStudy.Lib

import Mathlib.Data.Finset.Basic
import Mathlib.Data.Finset.Lattice.Lemmas
import Mathlib.Data.List.Nodup

/-!
# Logs of acquired and released resources

A log lists what was acquired and released, in order. `settle log held` follows a log from a set of
held resources: it refuses the log (`none`) where something held is acquired or something not held
is released, and gives what is held at the end otherwise. So `settle log ∅ = some ∅` says that each
resource acquired was released exactly once, after it was acquired, and that nothing else was
released; `count_of_settle` says so by counting.
-/

namespace CPStudy.Lib

/-- An entry of a log. -/
inductive ResourceEvent (ρ : Type*)
  /-- The resource is acquired. -/
  | acquire (r : ρ)
  /-- The resource is released. -/
  | release (r : ρ)
deriving DecidableEq

/-- The resource of an entry. -/
def ResourceEvent.resource {ρ : Type*} : ResourceEvent ρ → ρ
  | .acquire r => r
  | .release r => r

/-- The resource that the entry releases. -/
def ResourceEvent.released? {ρ : Type*} : ResourceEvent ρ → Option ρ
  | .acquire _ => none
  | .release r => some r

variable {ρ : Type*} [DecidableEq ρ] {r : ρ} {log log' : List (ResourceEvent ρ)}
  {held held' : Finset ρ} {rs : List ρ}

/-- What is held after a log, if the log is in order. -/
def settle : List (ResourceEvent ρ) → Finset ρ → Option (Finset ρ)
  | [], held => some held
  | .acquire r :: log, held => if r ∈ held then none else settle log (insert r held)
  | .release r :: log, held => if r ∈ held then settle log (held.erase r) else none

/-- A resource that is not held is acquired. -/
theorem settle_acquire (h : r ∉ held) :
    settle (.acquire r :: log) held = settle log (insert r held) := if_neg h

/-- A resource that is held is released. -/
theorem settle_release (h : r ∈ held) :
    settle (.release r :: log) held = settle log (held.erase r) := if_pos h

/-- One log after the other. -/
theorem settle_append : settle (log ++ log') held = (settle log held).bind (settle log') := by
  induction log generalizing held with
  | nil => rfl
  | cons e log ih =>
    cases e with
    | acquire r =>
      simp only [List.cons_append, settle]
      split
      · rfl
      · exact ih
    | release r =>
      simp only [List.cons_append, settle]
      split
      · exact ih
      · rfl

/-- Resources that are not held are acquired one after another. -/
theorem settle_acquires (hnd : rs.Nodup) (h : ∀ r ∈ rs, r ∉ held) :
    settle (rs.map .acquire) held = some (held ∪ rs.toFinset) := by
  induction rs generalizing held with
  | nil => simp [settle]
  | cons r rs ih =>
    obtain ⟨hr, hnd⟩ := List.nodup_cons.mp hnd
    rw [List.map_cons, settle_acquire (h r (List.mem_cons_self ..)), ih hnd]
    -- The first one joins what is held, and the others are still not held.
    · congr 1
      rw [List.toFinset_cons, Finset.union_insert, Finset.insert_union]
    · intro r' hr'
      rw [Finset.mem_insert, not_or]
      refine ⟨?_, h r' (List.mem_cons_of_mem _ hr')⟩
      rintro rfl
      exact hr hr'

/-- Resources that are held are released one after another. -/
theorem settle_releases (hnd : rs.Nodup) (h : ∀ r ∈ rs, r ∈ held) :
    settle (rs.map .release) held = some (held \ rs.toFinset) := by
  induction rs generalizing held with
  | nil => simp [settle]
  | cons r rs ih =>
    obtain ⟨hr, hnd⟩ := List.nodup_cons.mp hnd
    rw [List.map_cons, settle_release (h r (List.mem_cons_self ..)), ih hnd]
    · congr 1
      rw [List.toFinset_cons, Finset.sdiff_insert, Finset.erase_sdiff_comm]
    · intro r' hr'
      rw [Finset.mem_erase]
      refine ⟨?_, h r' (List.mem_cons_of_mem _ hr')⟩
      rintro rfl
      exact hr hr'

/-- In a log that is in order, a resource is acquired as often as it is released, but for what is
held before and after. -/
theorem count_of_settle (h : settle log held = some held') (r : ρ) :
    log.count (.acquire r) + (if r ∈ held then 1 else 0) =
      log.count (.release r) + (if r ∈ held' then 1 else 0) := by
  induction log generalizing held with
  | nil =>
    obtain rfl : held = held' := Option.some.inj h
    rfl
  | cons e log ih =>
    cases e with
    | acquire q =>
      obtain ⟨hq, h⟩ := Option.ite_none_left_eq_some.mp h
      have hcount := ih h
      -- Acquiring it adds one to the count and makes it held; another entry changes neither.
      by_cases hrq : r = q
      · subst hrq
        simp [hq] at hcount ⊢
        exact hcount
      · simpa [Finset.mem_insert, hrq, Ne.symm hrq] using hcount
    | release q =>
      obtain ⟨hq, h⟩ := Option.ite_none_right_eq_some.mp h
      have hcount := ih h
      by_cases hrq : r = q
      · subst hrq
        simp [hq] at hcount ⊢
        omega
      · simpa [Finset.mem_erase, hrq, Ne.symm hrq] using hcount

end CPStudy.Lib

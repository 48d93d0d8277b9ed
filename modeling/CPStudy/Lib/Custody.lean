import Mathlib.Data.List.Nodup
import Mathlib.Logic.Function.Basic

/-!
# Items in the hands of holders

Items pass through stages, and in some of the stages an item is in somebody's hands.
`Custody carries stage owner` says that what each holder carries and the stages of the items
agree: the holder `i` carries the item `k` in the stage `st` exactly when `st` is the stage of `k`
and a stage in the hands of `i`. So no item is in two hands. A holder can take an item that is in
nobody's hands, carry it on to another stage, and let it go.

`Recorded l p stage` says that a history `l` has every item once that has come to a stage of `p`,
and no other.
-/

namespace CPStudy.Lib

open Function (update)

variable {ι κ σ : Type*}

/-- What each holder carries agrees with the stages of the items. -/
def Custody (carries : ι → Option (κ × σ)) (stage : κ → σ) (owner : σ → Option ι) : Prop :=
  ∀ i k st, carries i = some (k, st) ↔ stage k = st ∧ owner st = some i

namespace Custody

variable {carries carries' : ι → Option (κ × σ)} {stage : κ → σ} {owner : σ → Option ι} {i : ι}
  {k : κ} {st st' : σ}

/-- The stage of an item that somebody carries. -/
theorem stage_eq (h : Custody carries stage owner) (hi : carries i = some (k, st)) :
    stage k = st := ((h i k st).mp hi).1

/-- The stage of an item that somebody carries is in the holder's hands. -/
theorem owner_eq (h : Custody carries stage owner) (hi : carries i = some (k, st)) :
    owner (stage k) = some i := by
  obtain ⟨rfl, ho⟩ := (h i k st).mp hi
  exact ho

/-- Nobody carries an item whose stage is in nobody's hands. -/
theorem carries_ne (h : Custody carries stage owner) (hk : owner (stage k) = none) :
    carries i ≠ some (k, st) := by
  intro hi
  rw [h.owner_eq hi] at hk
  cases hk

/-- Nobody carries anything, and no item is in a stage in somebody's hands. -/
theorem init (hc : ∀ i, carries i = none) (hs : ∀ k, owner (stage k) = none) :
    Custody carries stage owner := by
  intro i k st
  rw [hc i]
  constructor
  · intro heq
    cases heq
  · rintro ⟨rfl, ho⟩
    rw [hs k] at ho
    cases ho

variable [DecidableEq κ]

/-- A holder takes an item. -/
theorem take (h : Custody carries stage owner) (hi : carries i = none)
    (hk : owner (stage k) = none) (hst : owner st = some i) (hc : carries' i = some (k, st))
    (ho : ∀ j, j ≠ i → carries' j = carries j) : Custody carries' (update stage k st) owner := by
  intro j k' st'
  -- The item was in nobody's hands, so the others go on carrying what they carried.
  have hne : carries j ≠ some (k, st') := h.carries_ne hk
  have hj := h j k' st'
  have hi' := h i k' st'
  by_cases hji : j = i
  · subst hji
    grind
  · rw [ho j hji]
    grind

/-- An item moves on from its holder's hands to another stage, which says whether the holder still
carries it. -/
theorem move (h : Custody carries stage owner) (hi : carries i = some (k, st'))
    (hst : (owner st = some i ∧ carries' i = some (k, st)) ∨ (owner st = none ∧ carries' i = none))
    (ho : ∀ j, j ≠ i → carries' j = carries j) : Custody carries' (update stage k st) owner := by
  intro j k' st''
  have hk := h.owner_eq hi
  have hj := h j k' st''
  have hi' := h i k' st''
  by_cases hji : j = i
  · subst hji
    grind
  · -- The others carry what they carried, and that is another item.
    rw [ho j hji]
    grind

/-- A holder carries its item on to another stage. -/
theorem advance (h : Custody carries stage owner) (hi : carries i = some (k, st'))
    (hst : owner st = some i) (hc : carries' i = some (k, st))
    (ho : ∀ j, j ≠ i → carries' j = carries j) : Custody carries' (update stage k st) owner :=
  h.move hi (.inl ⟨hst, hc⟩) ho

/-- A holder lets its item go. -/
theorem drop (h : Custody carries stage owner) (hi : carries i = some (k, st'))
    (hst : owner st = none) (hc : carries' i = none)
    (ho : ∀ j, j ≠ i → carries' j = carries j) : Custody carries' (update stage k st) owner :=
  h.move hi (.inr ⟨hst, hc⟩) ho

/-- An item in nobody's hands moves to another such stage. -/
theorem other (h : Custody carries stage owner) (hk : owner (stage k) = none)
    (hst : owner st = none) : Custody carries (update stage k st) owner := by
  intro j k' st'
  have hj := h j k' st'
  by_cases hkk : k' = k
  · subst hkk
    have hne : carries j ≠ some (k', st') := h.carries_ne hk
    grind
  · rw [Function.update_of_ne hkk]
    exact hj

end Custody

/-- The history has each item that is past some point once, and no other. -/
def Recorded [DecidableEq κ] (l : List κ) (p : σ → Bool) (stage : κ → σ) : Prop :=
  ∀ k, l.count k = (p (stage k)).toNat

namespace Recorded

variable [DecidableEq κ] {l : List κ} {p : σ → Bool} {stage : κ → σ} {k : κ} {st : σ}

/-- The items in the history. -/
theorem mem_iff (h : Recorded l p stage) : k ∈ l ↔ p (stage k) = true := by
  rw [← List.count_pos_iff, h k]
  cases p (stage k) <;> simp

/-- No item is in the history twice. -/
theorem nodup (h : Recorded l p stage) : l.Nodup := by
  rw [List.nodup_iff_count_le_one]
  intro k
  rw [h k]
  cases p (stage k) <;> simp

/-- An item moves, but not past the point. -/
theorem keep (h : Recorded l p stage) (hp : p st = p (stage k)) :
    Recorded l p (update stage k st) := by
  intro k'
  by_cases hk : k' = k
  · subst hk
    rw [Function.update_self, hp]
    exact h k'
  · rw [Function.update_of_ne hk]
    exact h k'

/-- An item moves past the point and is recorded. -/
theorem add (h : Recorded l p stage) (hold : p (stage k) = false) (hnew : p st = true) :
    Recorded (l ++ [k]) p (update stage k st) := by
  intro k'
  rw [List.count_append, h k']
  by_cases hk : k' = k
  · subst hk
    simp [hold, hnew]
  · simp [hk, Ne.symm hk]

end Recorded

end CPStudy.Lib

import CPStudy.Lib.Custody

/-!
# Handles of resources

Resources are made one after another and numbered in that order. An object holds a handle of at
most one of them, passes it on to another object, or gives the resource up. `Handles holder made
gone` says that each of the `made` resources is held by exactly one object or was given up exactly
once, `gone` being the history of what was given up.
-/

namespace CPStudy.Lib

open Function (update)

variable {ι : Type*}

/-- Where a resource is. -/
inductive Whereabouts (ι : Type*)
  /-- Not made yet. -/
  | unmade
  /-- Held by an object. -/
  | held (i : ι)
  /-- Given up. -/
  | gone

/-- The object that holds the resource. -/
def Whereabouts.owner : Whereabouts ι → Option ι
  | .held i => some i
  | _ => none

/-- The resource was given up. -/
def Whereabouts.isGone : Whereabouts ι → Bool
  | .gone => true
  | _ => false

/-- What an object carries, with the whereabouts of it. -/
def carried (holder : ι → Option ℕ) (i : ι) : Option (ℕ × Whereabouts ι) :=
  (holder i).map fun k => (k, .held i)

/-- An object carries the resource it holds. -/
theorem carried_eq_some {holder : ι → Option ℕ} {i : ι} {k : ℕ} (h : holder i = some k) :
    carried holder i = some (k, .held i) := by
  rw [carried, h, Option.map_some]

/-- An object that holds nothing carries nothing. -/
theorem carried_eq_none {holder : ι → Option ℕ} {i : ι} (h : holder i = none) :
    carried holder i = none := by
  rw [carried, h, Option.map_none]

/-- Each of the resources made is held by one object or was given up once. -/
def Handles (holder : ι → Option ℕ) (made : ℕ) (gone : List ℕ) : Prop :=
  ∃ whereabouts : ℕ → Whereabouts ι,
    Custody (carried holder) whereabouts Whereabouts.owner ∧
    Recorded gone Whereabouts.isGone whereabouts ∧
    ∀ k, whereabouts k = .unmade ↔ made ≤ k

namespace Handles

variable {holder : ι → Option ℕ} {made k : ℕ} {gone : List ℕ} {i j : ι}

/-- Nothing was made. -/
theorem init : Handles (fun _ : ι => none) 0 [] :=
  ⟨fun _ => .unmade, Custody.init (fun _ => rfl) fun _ => rfl, fun _ => rfl,
    fun k => ⟨fun _ => Nat.zero_le k, fun _ => rfl⟩⟩

/-- No two objects hold the same resource. -/
theorem unique (h : Handles holder made gone) (hi : holder i = some k) (hj : holder j = some k) :
    i = j := by
  obtain ⟨_, hc, -, -⟩ := h
  have howner := (hc.owner_eq (carried_eq_some hi)).symm.trans (hc.owner_eq (carried_eq_some hj))
  exact Option.some.inj howner

/-- What is held was made. -/
theorem lt (h : Handles holder made gone) (hi : holder i = some k) : k < made := by
  obtain ⟨_, hc, -, hm⟩ := h
  refine Nat.lt_of_not_le fun hle => ?_
  have hheld := hc.stage_eq (carried_eq_some hi)
  rw [(hm k).mpr hle] at hheld
  cases hheld

/-- What is held was not given up. -/
theorem notMem (h : Handles holder made gone) (hi : holder i = some k) : k ∉ gone := by
  obtain ⟨_, hc, hr, -⟩ := h
  rw [hr.mem_iff, hc.stage_eq (carried_eq_some hi)]
  exact Bool.false_ne_true

/-- Nothing is given up twice. -/
theorem nodup (h : Handles holder made gone) : gone.Nodup := by
  obtain ⟨_, -, hr, -⟩ := h
  exact hr.nodup

/-- What nobody holds any more was given up, once. -/
theorem count_eq_one (h : Handles holder made gone) (hk : k < made)
    (hnone : ∀ i, holder i ≠ some k) : gone.count k = 1 := by
  obtain ⟨whereabouts, hc, hr, hm⟩ := h
  rw [hr k]
  cases hw : whereabouts k with
  | unmade => exact absurd ((hm k).mp hw) (by omega)
  | held i =>
    -- The custody says who holds it.
    have hcarried := (hc i k (.held i)).mpr ⟨hw, rfl⟩
    obtain ⟨k', hi, heq⟩ := Option.map_eq_some_iff.mp hcarried
    cases heq
    exact absurd hi (hnone i)
  | gone => rfl

/-- Which resources are made, when one that is made changes its whereabouts. -/
theorem unmade_update {w : ℕ → Whereabouts ι} {st : Whereabouts ι} (hst : st ≠ .unmade)
    (hk : k < made) (hw : ∀ l, l ≠ k → (w l = .unmade ↔ made ≤ l)) (l : ℕ) :
    update w k st l = .unmade ↔ made ≤ l := by
  by_cases hl : l = k
  · subst hl
    rw [Function.update_self]
    exact ⟨fun h => absurd h hst, fun h => absurd hk (Nat.not_lt.mpr h)⟩
  · rw [Function.update_of_ne hl]
    exact hw l hl

variable [DecidableEq ι]

/-- What the other objects carry when one object's handle changes. -/
theorem carried_update_of_ne {p : Option ℕ} (hji : j ≠ i) :
    carried (update holder i p) j = carried holder j := by
  rw [carried, Function.update_of_ne hji]
  rfl

/-- An object that holds nothing makes a resource. -/
theorem make (h : Handles holder made gone) (hi : holder i = none) :
    Handles (update holder i (some made)) (made + 1) gone := by
  obtain ⟨whereabouts, hc, hr, hm⟩ := h
  have hnew : whereabouts made = .unmade := (hm made).mpr (Nat.le_refl made)
  refine ⟨update whereabouts made (.held i), ?_, hr.keep (by rw [hnew]; rfl),
    unmade_update nofun (Nat.lt_succ_self made) fun k hk => ?_⟩
  · exact hc.take (carried_eq_none hi) (by rw [hnew]; rfl) rfl
      (carried_eq_some (Function.update_self ..)) fun j hj => carried_update_of_ne hj
  · rw [hm k]
    omega

/-- An object gives up what it holds, if anything. -/
theorem give (h : Handles holder made gone) (i : ι) :
    Handles (update holder i none) made (gone ++ (holder i).toList) := by
  cases hi : holder i with
  | none =>
    rw [Option.toList_none, List.append_nil, ← hi, Function.update_eq_self]
    exact h
  | some k =>
    have hk := h.lt hi
    obtain ⟨whereabouts, hc, hr, hm⟩ := h
    have hheld := hc.stage_eq (carried_eq_some hi)
    refine ⟨update whereabouts k .gone, ?_, ?_, unmade_update nofun hk fun l _ => hm l⟩
    · exact hc.drop (carried_eq_some hi) rfl (carried_eq_none (Function.update_self ..))
        fun j hj => carried_update_of_ne hj
    · rw [Option.toList_some]
      exact hr.add (by rw [hheld]; rfl) rfl

/-- An object passes what it holds, if anything, to an object that holds nothing. -/
theorem pass (h : Handles holder made gone) (hij : i ≠ j) (hj : holder j = none) :
    Handles (update (update holder j (holder i)) i none) made gone := by
  cases hi : holder i with
  | none =>
    have hsame : update (update holder j none) i none = holder := by
      rw [← hj, Function.update_eq_self, hj, ← hi, Function.update_eq_self]
    rw [hsame]
    exact h
  | some k =>
    have hk := h.lt hi
    obtain ⟨whereabouts, hc, hr, hm⟩ := h
    have hheld := hc.stage_eq (carried_eq_some hi)
    -- In between the resource is in nobody's hands.
    have hdropped : Custody (carried (update holder i none)) (update whereabouts k .gone)
        Whereabouts.owner :=
      hc.drop (carried_eq_some hi) rfl (carried_eq_none (Function.update_self ..))
        fun j hj => carried_update_of_ne hj
    have hswap : update (update holder j (some k)) i none =
        update (update holder i none) j (some k) := Function.update_comm hij.symm _ _ _
    have hjnone : update holder i none j = none := by
      rw [Function.update_of_ne hij.symm]
      exact hj
    have htaken : Custody (carried (update (update holder i none) j (some k)))
        (update (update whereabouts k .gone) k (.held j)) Whereabouts.owner :=
      hdropped.take (carried_eq_none hjnone) (by rw [Function.update_self]; rfl) rfl
        (carried_eq_some (Function.update_self ..)) fun l hl => carried_update_of_ne hl
    rw [Function.update_idem] at htaken
    rw [hswap]
    exact ⟨update whereabouts k (.held j), htaken, hr.keep (by rw [hheld]; rfl),
      unmade_update nofun hk fun l _ => hm l⟩

end Handles

end CPStudy.Lib

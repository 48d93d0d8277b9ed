import Mathlib.Order.Lattice
import Mathlib.Data.Set.Function
import Mathlib.Data.Set.Insert

/-!
# Ordered linked lists, said through the order

The elements of a set `S` have ranks in a linear order. `IsNext rank S x o` says that `o` is the
first element of `S` above `x`, or `none` where nothing is above it, and `IsPrev rank S p k` that
`p` is the last element of `S` below the rank `k`. A list that links the elements in order is then
a field `next` that holds `IsNext` of every element: `Threaded`. The field may hold nothing yet at
an element that is not in the list. `Threaded.splice` is the insertion of an element behind its
predecessor. No list of the elements appears: what a reader needs to know at an element is what its
own link skips.
-/

namespace CPStudy.Lib

variable {α β : Type*} [LinearOrder β] {rank rank' : α → β} {S T : Set α} {x y z p w : α} {k : β}
  {o : Option α} {next next' : α → Option (Option α)}

/-- The first element of `S` above `x`, or `none` where nothing is above it. -/
def IsNext (rank : α → β) (S : Set α) (x : α) : Option α → Prop
  | none => ∀ n ∈ S, rank n ≤ rank x
  | some y => y ∈ S ∧ rank x < rank y ∧ ∀ n ∈ S, rank x < rank n → rank y ≤ rank n

/-- The last element of `S` below the rank `k`. -/
structure IsPrev (rank : α → β) (S : Set α) (p : α) (k : β) : Prop where
  /-- It is an element. -/
  mem : p ∈ S
  /-- It is below `k`. -/
  lt : rank p < k
  /-- What is above it is not below `k`. -/
  gap : ∀ n ∈ S, rank p < rank n → k ≤ rank n

/-- The first element of `S` at the rank `k` or above, or `none` where there is none. -/
def IsFrom (rank : α → β) (S : Set α) (k : β) : Option α → Prop
  | none => ∀ n ∈ S, rank n < k
  | some y => y ∈ S ∧ k ≤ rank y ∧ ∀ n ∈ S, k ≤ rank n → rank y ≤ rank n

/-- Each element of `S` holds the next one in its field, and no two have the same rank. -/
structure Threaded (rank : α → β) (S : Set α) (next : α → Option (Option α)) : Prop where
  /-- Elements of one rank are the same. -/
  inj : Set.InjOn rank S
  /-- The field of an element holds the next one. -/
  link : ∀ x ∈ S, ∃ o, next x = some o ∧ IsNext rank S x o

/-- The last element below `k` is not below any other element below `k`. -/
theorem IsPrev.le (h : IsPrev rank S p k) (hx : x ∈ S) (hlt : rank x < k) : rank x ≤ rank p :=
  not_lt.mp fun hpx => absurd hlt (not_lt.mpr (h.gap x hx hpx))

/-- Two last elements below the same rank have the same rank. -/
theorem IsPrev.unique (hinj : Set.InjOn rank S) (h : IsPrev rank S p k) (h' : IsPrev rank S w k) :
    p = w :=
  hinj h.mem h'.mem (le_antisymm (h'.le h.mem h.lt) (h.le h'.mem h'.lt))

/-- The last element below `k` is also the last one of fewer elements. -/
theorem IsPrev.anti (h : IsPrev rank S p k) (hTS : T ⊆ S) (hp : p ∈ T) : IsPrev rank T p k :=
  ⟨hp, h.lt, fun n hn => h.gap n (hTS hn)⟩

/-- The last element below `k` depends on the ranks of the elements alone. -/
theorem IsPrev.congr (h : IsPrev rank S p k) (hrank : Set.EqOn rank' rank S) :
    IsPrev rank' S p k where
  mem := h.mem
  lt := by rw [hrank h.mem]; exact h.lt
  gap n hn hpn := by
    rw [hrank h.mem, hrank hn] at hpn
    rw [hrank hn]
    exact h.gap n hn hpn

/-- The next element depends on the ranks of the elements alone. -/
theorem IsNext.congr (h : IsNext rank S x o) (hx : x ∈ S) (hrank : Set.EqOn rank' rank S) :
    IsNext rank' S x o := by
  cases o with
  | none =>
    intro n hn
    rw [hrank hn, hrank hx]
    exact h n hn
  | some y =>
    refine ⟨h.1, by rw [hrank hx, hrank h.1]; exact h.2.1, fun n hn hxn => ?_⟩
    rw [hrank hx, hrank hn] at hxn
    rw [hrank h.1, hrank hn]
    exact h.2.2 n hn hxn

/-- What is not in the list does not matter to it. -/
theorem Threaded.congr (h : Threaded rank S next) (hrank : Set.EqOn rank' rank S)
    (hnext : Set.EqOn next' next S) : Threaded rank' S next' where
  inj := h.inj.congr hrank.symm
  link x hx := by
    obtain ⟨o, ho, hlink⟩ := h.link x hx
    exact ⟨o, (hnext hx).trans ho, hlink.congr hx hrank⟩

/-- A link that reaches `k` or beyond starts at the last element below `k`. -/
theorem IsNext.isPrev (h : IsNext rank S x o) (hx : x ∈ S) (hlt : rank x < k)
    (ho : ∀ y ∈ o, k ≤ rank y) : IsPrev rank S x k := by
  refine ⟨hx, hlt, fun n hn hxn => ?_⟩
  cases o with
  | none => exact absurd hxn (not_lt.mpr (h n hn))
  | some y => exact (ho y rfl).trans (h.2.2 n hn hxn)

/-- The link of the last element below `k` reaches `k` or beyond. -/
theorem IsPrev.le_next (hp : IsPrev rank S p k) (h : IsNext rank S p o) : ∀ y ∈ o, k ≤ rank y := by
  intro y hy
  cases hy
  exact hp.gap y h.1 h.2.1

/-- What is not below `k` in the set is at the link of the last element below `k`, or beyond. -/
theorem IsNext.least (h : IsNext rank S x o) (hlt : rank x < k) :
    ∀ n ∈ S, k ≤ rank n → ∃ y ∈ o, rank y ≤ rank n := by
  intro n hn hk
  have hxn : rank x < rank n := hlt.trans_le hk
  cases o with
  | none => exact absurd hxn (not_lt.mpr (h n hn))
  | some y => exact ⟨y, rfl, h.2.2 n hn hxn⟩

/-- A link that leads from below `k` to `k` or beyond leads to the first element from `k` on. -/
theorem IsNext.isFrom (h : IsNext rank S x o) (hlt : rank x < k) (ho : ∀ y ∈ o, k ≤ rank y) :
    IsFrom rank S k o := by
  cases o with
  | none => exact fun n hn => (h n hn).trans_lt hlt
  | some y => exact ⟨h.1, ho y rfl, fun n hn hk => h.2.2 n hn (hlt.trans_le hk)⟩

/-- An element of the rank `k` is the first one from `k` on. -/
theorem IsFrom.of_eq (hy : y ∈ S) (hk : rank y = k) : IsFrom rank S k (some y) :=
  ⟨hy, hk.ge, fun _ _ hle => hk.le.trans hle⟩

/-- An element of the rank `k` is there exactly when the first one from `k` on has that rank. -/
theorem IsFrom.exists_iff (h : IsFrom rank S k o) :
    (∃ n ∈ S, rank n = k) ↔ ∃ y ∈ o, rank y = k := by
  cases o with
  | none =>
    constructor
    · rintro ⟨n, hn, hk⟩
      exact absurd (h n hn) hk.not_lt
    · rintro ⟨y, hy, -⟩
      cases hy
  | some y =>
    constructor
    · rintro ⟨n, hn, hk⟩
      exact ⟨y, rfl, le_antisymm ((h.2.2 n hn hk.ge).trans hk.le) h.2.1⟩
    · rintro ⟨y', hy', hk⟩
      cases hy'
      exact ⟨y, h.1, hk⟩

/-- The last element below `k` stays so when an element is added that is not between. -/
theorem IsPrev.grow (h : IsPrev rank S p k) (hz : k ≤ rank z) :
    IsPrev rank (insert z S) p k := by
  refine ⟨Set.mem_insert_of_mem _ h.mem, h.lt, fun n hn hpn => ?_⟩
  rcases Set.mem_insert_iff.mp hn with rfl | hn
  · exact hz
  · exact h.gap n hn hpn

/-- The next element after one that an added element does not follow directly. -/
theorem IsNext.grow (h : IsNext rank S x o)
    (hz : rank z ≤ rank x ∨ ∃ y ∈ o, rank y ≤ rank z) : IsNext rank (insert z S) x o := by
  cases o with
  | none =>
    intro n hn
    rcases Set.mem_insert_iff.mp hn with rfl | hn
    · rcases hz with hz | ⟨y, hy, -⟩
      · exact hz
      · cases hy
    · exact h n hn
  | some y =>
    refine ⟨Set.mem_insert_of_mem _ h.1, h.2.1, fun n hn hxn => ?_⟩
    rcases Set.mem_insert_iff.mp hn with rfl | hn
    · rcases hz with hz | ⟨y', hy', hle⟩
      · exact absurd hxn (not_lt.mpr hz)
      · cases hy'
        exact hle
    · exact h.2.2 n hn hxn

/-- An element is linked in behind its predecessor `p`: its own field takes what `p` held, and `p`
gets the element. The elements are then linked in order again. -/
theorem Threaded.splice [DecidableEq α] (h : Threaded rank S next)
    (hp : IsPrev rank S p (rank z)) (hz : ∀ n ∈ S, rank n ≠ rank z) (hfill : next z = next p) :
    Threaded rank (insert z S) (Function.update next p (some (some z))) := by
  obtain ⟨o, hnext, ho⟩ := h.link p hp.mem
  have hne : z ≠ p := fun heq => hz p hp.mem (congrArg rank heq.symm)
  have habove := hp.le_next ho
  constructor
  · intro a ha b hb hab
    rcases Set.mem_insert_iff.mp ha with haz | ha <;> rcases Set.mem_insert_iff.mp hb with hbz | hb
    · rw [haz, hbz]
    · exact absurd (haz ▸ hab).symm (hz b hb)
    · exact absurd (hbz ▸ hab) (hz a ha)
    · exact h.inj ha hb hab
  · intro x hx
    by_cases hxp : x = p
    · -- The predecessor is followed by the new element.
      subst hxp
      refine ⟨some z, Function.update_self .., Set.mem_insert _ _, hp.lt, fun n hn hxn => ?_⟩
      rcases Set.mem_insert_iff.mp hn with rfl | hn
      · exact le_rfl
      · exact hp.gap n hn hxn
    · rw [Function.update_of_ne hxp]
      rcases Set.mem_insert_iff.mp hx with rfl | hx
      · -- The new element is followed by what followed the predecessor.
        refine ⟨o, hfill.trans hnext, ?_⟩
        cases o with
        | none =>
          intro n hn
          rcases Set.mem_insert_iff.mp hn with rfl | hn
          · exact le_rfl
          · exact (ho n hn).trans hp.lt.le
        | some y =>
          have hzy : rank x < rank y := lt_of_le_of_ne (habove y rfl) (hz y ho.1).symm
          refine ⟨Set.mem_insert_of_mem _ ho.1, hzy, fun n hn hzn => ?_⟩
          rcases Set.mem_insert_iff.mp hn with rfl | hn
          · exact absurd hzn (lt_irrefl _)
          · exact ho.2.2 n hn (hp.lt.trans hzn)
      · -- Any other element is above the new one, or has its next one not above `p`.
        obtain ⟨o', hnext', ho'⟩ := h.link x hx
        refine ⟨o', hnext', ho'.grow ?_⟩
        rcases le_or_gt (rank z) (rank x) with hle | hlt
        · exact Or.inl hle
        · have hxp' : rank x < rank p :=
            lt_of_le_of_ne (hp.le hx hlt) fun heq => hxp (h.inj hx hp.mem heq)
          obtain ⟨y, hy, hle⟩ := ho'.least hxp' p hp.mem le_rfl
          exact Or.inr ⟨y, hy, hle.trans hp.lt.le⟩

end CPStudy.Lib

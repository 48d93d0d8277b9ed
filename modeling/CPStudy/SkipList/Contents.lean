import CPStudy.SkipList.Readers

/-!
# What the list holds

`Insert` to its end adds one node to the list and changes no other. So the list holds what was
inserted, and an iterator goes through it in the order of the keys, whatever heights the random
numbers gave the nodes.
-/

namespace CPStudy.SkipList

open Lib

variable {Key β : Type} [LinearOrder β] {cmp : Comparator Key β} {s s' : State Key} {key k : Key}
  {n x : Node} {i height : ℕ} {draws : ℕ → ℕ}

namespace State

/-! ## One insertion -/

/-- The number of stores that are left to do. -/
def storesLeft (s : State Key) : ℕ :=
  match s.pc with
  | .fill _ height i => 2 * (height - i)
  | .publish _ height i => 2 * (height - i) - 1
  | _ => 0

/-- The node that is being linked in. -/
def linking (s : State Key) : Option Node :=
  match s.pc with
  | .fill x _ _ => some x
  | .publish x _ _ => some x
  | _ => none

/-- The stores of an insertion come to their end, with the node linked in at the lowest level and
the rest of it as before. -/
theorem Sound.writes (h : s.Sound cmp) (hx : s.linking = some x) {m : ℕ} (hm : s.storesLeft ≤ m) :
    ∃ s', writes cmp m s = some s' ∧ s'.pc = .idle ∧
      Reaches (State.step cmp) (State.Permits cmp) s s' ∧ s'.count = s.count ∧
      s'.level 0 = insert x (s.level 0) := by
  induction m generalizing s with
  | zero =>
    -- A node that is being linked in has a level left, and so a store.
    exfalso
    have hplace := h.place
    unfold Place at hplace
    unfold linking at hx
    unfold storesLeft at hm
    split at hx
    case h_1 hpc =>
      rw [hpc] at hplace hm
      have hlt := Linking.lt_height hplace
      dsimp only at hm
      omega
    case h_2 hpc =>
      rw [hpc] at hplace hm
      have hlt := hplace.1.lt_height
      dsimp only at hm
      omega
    case h_3 => cases hx
  | succ m ih =>
    -- One store is made; the rest is the induction hypothesis in the state after it.
    have hready : s.Ready .write := by
      unfold linking at hx
      split at hx
      case h_1 hpc => exact ⟨by rw [hpc]; nofun, fun _ => by rw [hpc]; nofun⟩
      case h_2 hpc => exact ⟨by rw [hpc]; nofun, fun _ => by rw [hpc]; nofun⟩
      case h_3 => cases hx
    obtain ⟨s₁, hstep⟩ := h.exists_step (a := .write) hready trivial
    have hs₁ := h.step (a := .write) trivial hstep
    have hunfold : State.writes cmp (m + 1) s = State.writes cmp m s₁ := by
      rw [State.writes]
      split
      case h_1 hpc => exact absurd hpc hready.1
      case h_2 => rw [hstep, Option.bind_some]
    have hsingle : Reaches (State.step cmp) (State.Permits cmp) s s₁ :=
      .single (a := .write) trivial hstep
    rw [hunfold]
    have hplace := h.place
    rw [Place] at hplace
    cases effect_of_step hstep with
    -- The node is there already.
    | alloc hpc =>
      rw [linking, hpc] at hx
      cases hx
    | @fill x' height i next mem hpc hload hset =>
      rw [linking, hpc] at hx
      obtain rfl : x' = x := Option.some.inj hx
      rw [storesLeft, hpc] at hm
      obtain ⟨s', hw, hidle, hrun, hcount, hlevel⟩ := ih hs₁ rfl (by
        show 2 * (height - i) - 1 ≤ m
        dsimp only at hm
        omega)
      refine ⟨s', hw, hidle, hsingle.trans hrun, hcount, hlevel.trans (congrArg _ ?_)⟩
      -- Filling a link of the node links it in nowhere.
      ext n
      rw [mem_level, mem_level, linked, linked, hpc]
      obtain rfl := Memory.setNext_eq_some hset
      exact Iff.rfl
    | @link x' height i mem hpc hset hlt =>
      rw [linking, hpc] at hx
      obtain rfl : x' = x := Option.some.inj hx
      rw [storesLeft, hpc] at hm
      obtain ⟨s', hw, hidle, hrun, hcount, hlevel⟩ := ih hs₁ rfl (by
        show 2 * (height - (i + 1)) ≤ m
        dsimp only at hm
        omega)
      refine ⟨s', hw, hidle, hsingle.trans hrun, hcount, hlevel.trans ?_⟩
      -- At the bottom level this inserts the node, and above it changes nothing there.
      rw [level_link (linked_of_link hpc hset) (linked_of_publish hpc) 0]
      split
      case isTrue hi => rw [← hi, Set.insert_idem]
      case isFalse => rfl
    | @finish x' height i mem hpc hset hlast =>
      rw [linking, hpc] at hx
      obtain rfl : x' = x := Option.some.inj hx
      rw [hpc] at hplace
      refine ⟨_, ?_, rfl, hsingle, rfl, ?_⟩
      · cases m <;> rfl
      · rw [level_link (linked_of_finish hpc hplace.1 hset hlast) (linked_of_publish hpc) 0]
        split
        case isTrue hi => rw [← hi]
        case isFalse hi =>
          -- The last level is not the bottom one: the node was put in there before.
          refine (Set.insert_eq_of_mem ?_).symm
          rw [mem_level, linked_of_publish hpc]
          omega

/-- Up to the allocation of the node nothing is linked in, and the node is what the stores are
about then. -/
theorem Sound.prepare (h : s.Sound cmp) (hpc : s.pc = .idle) (habsent : s.Absent cmp key)
    (draws : ℕ → ℕ) :
    ∃ s₁ s₂ s₃ height, s.step cmp (.insert key) = some s₁ ∧
      s₁.step cmp (.randomHeight draws) = some s₂ ∧ s₂.step cmp .write = some s₃ ∧
      s₂.pc = .sized key height ∧ s₃.pc = .fill s.count height 0 ∧
      height ≤ s₂.mem.kMaxHeight ∧ s₃.count = s.count + 1 ∧ s₃.mem.key s.count = some key ∧
      s₃.level 0 = s.level 0 := by
  obtain ⟨s₁, h₁⟩ := h.exists_step (a := .insert key) hpc habsent
  have hs₁ := h.step (a := .insert key) habsent h₁
  obtain ⟨hpc₁, hcount₁, hheight₁⟩ : s₁.pc = .located key ∧ s₁.count = s.count ∧
      s₁.mem.height = s.mem.height := by
    cases effect_of_step h₁ with
    | locate => exact ⟨rfl, rfl, rfl⟩
  obtain ⟨s₂, h₂⟩ := hs₁.exists_step (a := .randomHeight draws) ⟨key, hpc₁⟩ trivial
  have hs₂ := hs₁.step (a := .randomHeight draws) trivial h₂
  obtain ⟨height, hpc₂, hcount₂, hheight₂⟩ : ∃ height, s₂.pc = .sized key height ∧
      s₂.count = s₁.count ∧ s₂.mem.height = s₁.mem.height := by
    cases effect_of_step h₂ with
    | raise hpc' =>
      cases hpc₁.symm.trans hpc'
      exact ⟨_, rfl, rfl, rfl⟩
    | keep hpc' =>
      cases hpc₁.symm.trans hpc'
      exact ⟨_, rfl, rfl, rfl⟩
  have hplace := hs₂.place
  rw [Place, hpc₂] at hplace
  refine ⟨s₁, s₂, _, height, h₁, h₂, by rw [State.step, hpc₂], hpc₂, ?_,
    hplace.2.2.2.trans hs₂.shape.max_height_le, ?_, ?_, ?_⟩
  · rw [hcount₂, hcount₁]
  · rw [hcount₂, hcount₁]
  · rw [hcount₂, hcount₁]
    exact Function.update_self ..
  · ext n
    rw [mem_level, mem_level, linked_of_idle hpc]
    by_cases hn : n = s.count
    -- The new node had no level before, and has none yet.
    · have hzero : s.mem.height n = 0 := h.shape.unallocated n hn.ge
      have hfill := linked_of_fill (s := { s₂ with
        mem := s₂.mem.newNode s₂.count key height
        count := s₂.count + 1
        pc := .fill s₂.count height 0 }) (x := s₂.count) rfl
      rw [hn, ← hcount₁, ← hcount₂, hfill, hcount₂, hcount₁, ← hn, hzero]
    · have hne : n ≠ s₂.count := by rwa [hcount₂, hcount₁]
      simp only [linked, if_neg hne, Memory.newNode, Function.update_of_ne hne, hheight₂, hheight₁]

/-- `Insert` of a key that is not in the list comes to its end, and the list then has one more node,
which has that key. -/
theorem Sound.insert (h : s.Sound cmp) (hpc : s.pc = .idle) (habsent : s.Absent cmp key)
    (draws : ℕ → ℕ) :
    ∃ s', s.insert cmp key draws = some s' ∧ s'.pc = .idle ∧
      Reaches (State.step cmp) (State.Permits cmp) s s' ∧
      s'.level 0 = Insert.insert s.count (s.level 0) ∧ s'.mem.key s.count = some key := by
  obtain ⟨s₁, s₂, s₃, height, h₁, h₂, h₃, hpc₂, hpc₃, hle, hcount, hkey, hlevel⟩ :=
    h.prepare hpc habsent draws
  have hs₁ := h.step (a := .insert key) habsent h₁
  have hs₂ := hs₁.step (a := .randomHeight draws) trivial h₂
  have hs₃ := hs₂.step (a := .write) trivial h₃
  have hlinking : s₃.linking = some s.count := by rw [linking, hpc₃]
  obtain ⟨s', hw, hidle, hrun, -, hlevel'⟩ :=
    hs₃.writes hlinking (m := 2 * s₂.mem.kMaxHeight) (by
      rw [storesLeft, hpc₃]
      dsimp only
      omega)
  have hrun₃ : Reaches (State.step cmp) (State.Permits cmp) s s₃ :=
    ((Reaches.single (a := .insert key) habsent h₁).tail (a := .randomHeight draws) trivial h₂).tail
      (a := .write) trivial h₃
  refine ⟨s', ?_, hidle, hrun₃.trans hrun, by rw [hlevel', hlevel], ?_⟩
  · simp only [State.insert, h₁, h₂, Option.bind_eq_bind, Option.bind_some]
    rw [State.writes, hpc₂]
    dsimp only
    rw [h₃, Option.bind_some, hw]
  · rw [(hs₃.grows_of_reaches hrun).2.key s.count (by omega), hkey]

/-! ## Iteration -/

/-- An iterator has come to the node `x` and has gone through the nodes up to there that are in
the list, in the order of their keys. `s₀` is the list as it was when the iteration began. -/
structure Visited (cmp : Comparator Key β) (s₀ s : State Key) (x : Node) (keys : List Key) :
    Prop where
  /-- It is at a node of the list. -/
  mem : x ∈ s.level 0
  /-- The keys are in order. -/
  sorted : keys.Pairwise fun a b => cmp.compare_ a b < 0
  /-- No key is beyond the node. -/
  le : ∀ a ∈ keys, cmp.above a ≤ s.mem.rank cmp x
  /-- Every key is that of a node of the list. -/
  sound : ∀ a ∈ keys, a ∈ s.contents
  /-- No key was left out of those that were there. -/
  complete : ∀ n ∈ s₀.level 0, n ≠ head_ → s.mem.rank cmp n ≤ s.mem.rank cmp x →
    ∃ a ∈ keys, s.mem.key n = some a

/-- An iteration begins at `head_`. -/
theorem Visited.start (h : s.Shape cmp) : Visited cmp s s head_ [] where
  mem := h.head_mem h.kMaxHeight_pos
  sorted := .nil
  le := nofun
  sound := nofun
  complete n hn hne hle := by
    obtain ⟨k, -, hrank⟩ := h.exists_key hn hne
    rw [hrank, rank_head] at hle
    exact absurd hle (not_le.mpr cmp.bot_lt_above)

/-- The list grows during an iteration. -/
theorem Visited.later {s₀ : State Key} {keys : List Key} (hv : Visited cmp s₀ s x keys)
    (h : s.Shape cmp) (hg₀ : s₀.Grows s) (hg : s.Grows s') :
    Visited cmp s₀ s' x keys where
  mem := hg.level hv.mem
  sorted := hv.sorted
  le a ha := by
    rw [hg.rank (h.lt_count hv.mem)]
    exact hv.le a ha
  sound a ha := by
    obtain ⟨n, hn, hne, hk⟩ := hv.sound a ha
    exact ⟨n, hg.level hn, hne, (hg.key n (h.lt_count hn)).trans hk⟩
  complete n hn hne hle := by
    have hcount : n < s.count := h.lt_count (hg₀.level hn)
    rw [hg.rank hcount, hg.rank (h.lt_count hv.mem)] at hle
    obtain ⟨a, ha, hk⟩ := hv.complete n hn hne hle
    exact ⟨a, ha, (hg.key n hcount).trans hk⟩

/-- One turn of an iteration: it goes on to the next node of the list, or it is through. -/
theorem Visited.turn {s₀ : State Key} {keys : List Key} (hv : Visited cmp s₀ s x keys)
    (h : s.Shape cmp) (hg : s₀.Grows s) :
    (∃ y k, iterate s.mem (x, keys) = some (.again (y, keys ++ [k])) ∧
      Visited cmp s₀ s y (keys ++ [k]) ∧ s.mem.rank cmp x < s.mem.rank cmp y) ∨
    (iterate s.mem (x, keys) = some (.leave keys) ∧
      ∀ n ∈ s.level 0, s.mem.rank cmp n ≤ s.mem.rank cmp x) := by
  obtain ⟨o, hload, hnext⟩ := h.next hv.mem
  simp only [iterate, hload, Option.bind_eq_bind, Option.bind_some, Option.pure_def]
  cases o with
  | none => exact Or.inr ⟨rfl, hnext⟩
  | some y =>
    obtain ⟨hy, hxy, hleast⟩ := hnext
    have hhead := ne_head_of_lt hxy
    obtain ⟨k, hk, hrank⟩ := h.exists_key hy hhead
    -- In order: sorted, not beyond the node, held by the list, and none left out.
    refine Or.inl ⟨y, k, by simp only [hk, Option.bind_some], ⟨hy, ?_, ?_, ?_, ?_⟩, hxy⟩
    · refine List.pairwise_append.mpr ⟨hv.sorted, List.pairwise_singleton .., fun a ha b hb => ?_⟩
      obtain rfl := List.mem_singleton.mp hb
      exact cmp.neg_iff_above.mpr ((hv.le a ha).trans_lt (hrank ▸ hxy))
    · intro a ha
      rcases List.mem_append.mp ha with ha | ha
      · exact (hv.le a ha).trans hxy.le
      · obtain rfl := List.mem_singleton.mp ha
        exact hrank.ge
    · intro a ha
      rcases List.mem_append.mp ha with ha | ha
      · exact hv.sound a ha
      · obtain rfl := List.mem_singleton.mp ha
        exact ⟨y, hy, hhead, hk⟩
    · intro n hn hne hle
      rcases le_or_gt (s.mem.rank cmp n) (s.mem.rank cmp x) with hnx | hxn
      · obtain ⟨a, ha, hka⟩ := hv.complete n hn hne hnx
        exact ⟨a, List.mem_append_left _ ha, hka⟩
      · -- Nothing of the list is between the two nodes.
        have hsame : n = y := (h.threaded 0 h.kMaxHeight_pos).inj (hg.level hn) hy
          (le_antisymm hle (hleast n (hg.level hn) hxn))
        exact ⟨k, List.mem_append_right _ (List.mem_singleton_self k), hsame ▸ hk⟩

/-- What an iteration has gone through at its end. -/
theorem Visited.all {s₀ : State Key} {keys : List Key} (hv : Visited cmp s₀ s x keys)
    (hg : s₀.Grows s) (hlast : ∀ n ∈ s.level 0, s.mem.rank cmp n ≤ s.mem.rank cmp x)
    (h₀ : s₀.Shape cmp) : ∀ k ∈ s₀.contents, k ∈ keys := by
  rintro k ⟨n, hn, hne, hk⟩
  obtain ⟨a, ha, hka⟩ := hv.complete n hn hne (hlast n (hg.level hn))
  have hsame : s.mem.key n = some k := (hg.key n (h₀.lt_count hn)).trans hk
  rwa [Option.some.inj (hsame.symm.trans hka)]

/-- An iteration of a list that nobody inserts into goes through its keys in order. -/
theorem Shape.iterate (h : s.Shape cmp) :
    ∃ keys, search (iterate s.mem) (s.count + 1) (head_, []) = some keys ∧
      keys.Pairwise (fun a b => cmp.compare_ a b < 0) ∧ ∀ k, k ∈ keys ↔ k ∈ s.contents := by
  refine search_of_variant
    (Q := fun keys : List Key => keys.Pairwise (fun a b => cmp.compare_ a b < 0) ∧
      ∀ k, k ∈ keys ↔ k ∈ s.contents)
    (I := fun n (c : Node × List Key) => Visited cmp s s c.1 c.2 ∧
      (between cmp s c.1 ⊤).card = n) ?_ ?_ ?_ ⟨.start h, rfl⟩ ?_
  · rintro n ⟨x, keys⟩ ⟨hv, -⟩
    rcases hv.turn h (.refl s) with ⟨y, k, hturn, -, -⟩ | ⟨hturn, -⟩
    · exact ⟨_, hturn⟩
    · exact ⟨_, hturn⟩
  · rintro n ⟨x, keys⟩ c ⟨hv, rfl⟩ hbody
    rcases hv.turn h (.refl s) with ⟨y, k, hturn, hv', hxy⟩ | ⟨hturn, -⟩
    · cases hturn.symm.trans hbody
      exact ⟨_, h.between_card_lt hv'.mem hxy (rank_lt_top _ _), hv', rfl⟩
    · cases hturn.symm.trans hbody
  · rintro n ⟨x, keys⟩ b ⟨hv, -⟩ hbody
    rcases hv.turn h (.refl s) with ⟨y, k, hturn, -, -⟩ | ⟨hturn, hlast⟩
    · cases hturn.symm.trans hbody
    · cases hturn.symm.trans hbody
      exact ⟨hv.sorted, fun k => ⟨hv.sound k, hv.all (.refl s) hlast h k⟩⟩
  · have hcard : (between cmp s head_ ⊤).card < s.count := h.between_card_le
    exact hcard.trans (Nat.lt_succ_self _)

/-! ## One insertion after another -/

/-- One more insertion adds its key. -/
theorem contents_insert (h : s.Sound cmp) (hg : s.Grows s') (hnew : s'.mem.key s.count = some key)
    (hlevel : s'.level 0 = insert s.count (s.level 0)) :
    ∀ k, k ∈ s'.contents ↔ k = key ∨ k ∈ s.contents := by
  intro k
  constructor
  · rintro ⟨n, hn, hne, hk⟩
    rw [hlevel] at hn
    rcases Set.mem_insert_iff.mp hn with rfl | hn
    · exact Or.inl (Option.some.inj (hk.symm.trans hnew))
    · exact Or.inr ⟨n, hn, hne, (hg.key n (h.shape.lt_count hn)).symm.trans hk⟩
  · rintro (rfl | ⟨n, hn, hne, hk⟩)
    · exact ⟨s.count, hlevel ▸ Set.mem_insert .., h.shape.count_pos.ne', hnew⟩
    · exact ⟨n, hg.level hn, hne, (hg.key n (h.shape.lt_count hn)).trans hk⟩

/-- A key that compares equal to none of the list is not in it. -/
theorem Shape.absent (h : s.Shape cmp) (hne : ∀ k ∈ s.contents, cmp.compare_ k key ≠ 0) :
    s.Absent cmp key := by
  intro n hn hrank
  have hhead : n ≠ head_ := ne_head_of_le hrank.ge
  obtain ⟨k, hk, hrank'⟩ := h.exists_key hn hhead
  exact hne k ⟨n, hn, hhead, hk⟩ (cmp.eq_iff_above.mpr (hrank'.symm.trans hrank))

/-- Insertions of keys that compare equal neither to each other nor to a key of the list come to
their end, and add the keys. -/
theorem Sound.insertAll (h : s.Sound cmp) (hpc : s.pc = .idle) {kds : List (Key × (ℕ → ℕ))}
    (hnew : ∀ k ∈ s.contents, ∀ p ∈ kds, cmp.compare_ k p.1 ≠ 0)
    (hdiff : kds.Pairwise fun p q => cmp.compare_ p.1 q.1 ≠ 0) :
    ∃ s', s.insertAll cmp kds = some s' ∧ Reaches (State.step cmp) (State.Permits cmp) s s' ∧
      ∀ k, k ∈ s'.contents ↔ k ∈ kds.map Prod.fst ∨ k ∈ s.contents := by
  induction kds generalizing s with
  | nil => exact ⟨s, rfl, .refl, fun k => by simp⟩
  | cons p kds ih =>
    obtain ⟨key, draws⟩ := p
    obtain ⟨hfirst, hdiff⟩ := List.pairwise_cons.mp hdiff
    have habsent := h.shape.absent fun k hk => hnew k hk _ (List.mem_cons_self ..)
    obtain ⟨s₁, hins, hpc₁, hrun, hlevel, hkey⟩ := h.insert hpc habsent draws
    obtain ⟨hs₁, hg⟩ := h.grows_of_reaches hrun
    have hcontents := contents_insert h hg hkey hlevel
    have hnew₁ : ∀ k ∈ s₁.contents, ∀ q ∈ kds, cmp.compare_ k q.1 ≠ 0 := by
      intro k hk q hq
      rcases (hcontents k).mp hk with rfl | hk
      · exact hfirst q hq
      · exact hnew k hk q (List.mem_cons_of_mem _ hq)
    obtain ⟨s', hall, hrun', hmem⟩ := ih hs₁ hpc₁ hnew₁ hdiff
    refine ⟨s', ?_, hrun.trans hrun', fun k => ?_⟩
    · rw [State.insertAll, hins, Option.bind_some, hall]
    · rw [hmem, hcontents, List.map_cons, List.mem_cons]
      tauto

/-- The assertion of `Insert` fails where a key that compares equal is in the list. -/
theorem Shape.isDuplicate (h : s.Shape cmp) {prev : ℕ → Node}
    (hprev : s.Placed cmp prev (cmp.above key)) (hk : k ∈ s.contents)
    (heq : cmp.compare_ k key = 0) : s.notDuplicate cmp key prev = some false := by
  obtain ⟨x, hx, hhead, hkey⟩ := hk
  have hp := hprev 0 h.max_height_pos
  obtain ⟨o, hload, hnext⟩ := h.next hp.mem
  have hrank : s.mem.rank cmp x = cmp.above key :=
    (rank_of_key hhead hkey).trans (cmp.eq_iff_above.mp heq)
  -- The node of the key is the next one after the last one before it.
  obtain ⟨y, rfl, hyx⟩ := hnext.least hp.lt x hx hrank.ge
  have hy : s.mem.rank cmp y = cmp.above key :=
    le_antisymm (hyx.trans hrank.le) (hp.le_next hnext y rfl)
  obtain ⟨k', hk', hrank'⟩ := h.exists_key hnext.1 (ne_head_of_lt hnext.2.1)
  have hsame : cmp.compare_ key k' = 0 := cmp.eq_iff_above.mpr (hy.symm.trans hrank')
  simp only [State.notDuplicate, hload, Option.bind_eq_bind, Option.bind_some, hk', hsame, ne_eq,
    not_true_eq_false, decide_false, Option.pure_def]

end State

/-- A new list is empty. -/
theorem contents_create {zero : Key} {max_height branching_factor : ℤ}
    (h : create zero max_height branching_factor = some s) (k : Key) : k ∉ s.contents := by
  obtain ⟨-, hpc, -, -, -, -, hheight, -⟩ := create_eq_some h
  rintro ⟨n, hn, hne, -⟩
  rw [State.mem_level, State.linked_of_idle hpc, hheight] at hn
  exact Nat.not_lt_zero _ (hn.trans_eq (if_neg hne))

/-- Insertions of different keys into a new list are part of a history. -/
theorem exists_history {zero : Key} {max_height branching_factor : ℤ} {s₀ : State Key}
    (hcreate : create zero max_height branching_factor = some s₀) {kds : List (Key × (ℕ → ℕ))}
    (hdiff : kds.Pairwise fun p q => cmp.compare_ p.1 q.1 ≠ 0)
    (hall : s₀.insertAll cmp kds = some s) : ∃ H : History cmp, ∃ t, H.state t = s := by
  have hs₀ : s₀.Sound cmp := create_sound hcreate
  obtain ⟨-, hpc, -⟩ := create_eq_some hcreate
  obtain ⟨s', hall', hrun, -⟩ :=
    hs₀.insertAll hpc (fun k hk => absurd hk (contents_create hcreate k)) hdiff
  obtain rfl : s = s' := Option.some.inj (hall.symm.trans hall')
  obtain ⟨tl, h0, t, ht⟩ := Timeline.exists_of_reaches hrun
  exact ⟨⟨tl, zero, max_height, branching_factor, _, hcreate, h0 ▸ .refl⟩, t, ht⟩

/-! ## What the list holds -/

/-- `Insert` comes to its end exactly when no key that compares equal is in the list, whatever the
random numbers are; otherwise it finds the place of the key, and the assertion that the key is not
there fails. The list then holds one key more. -/
theorem insert_spec (h : Reachable cmp s) (hpc : s.pc = .idle) (key : Key) (draws : ℕ → ℕ) :
    ((s.insert cmp key draws).isSome ↔ ∀ k ∈ s.contents, cmp.compare_ k key ≠ 0) ∧
      (s.insert cmp key draws = none →
        ∃ prev, s.locate cmp key = some prev ∧ s.notDuplicate cmp key prev = some false) ∧
      ∀ s', s.insert cmp key draws = some s' → Reachable cmp s' ∧ s'.pc = .idle ∧
        ∀ k, k ∈ s'.contents ↔ k = key ∨ k ∈ s.contents := by
  have hs := h.sound
  by_cases hnew : ∀ k ∈ s.contents, cmp.compare_ k key ≠ 0
  · obtain ⟨s', hins, hpc', hrun, hlevel, hkey⟩ := hs.insert hpc (hs.shape.absent hnew) draws
    rw [hins]
    refine ⟨⟨fun _ => hnew, fun _ => rfl⟩, nofun, fun s'' heq => ?_⟩
    cases heq
    obtain ⟨zero, max_height, branching_factor, s₀, hcreate, hrun₀⟩ := h
    exact ⟨⟨zero, max_height, branching_factor, s₀, hcreate, hrun₀.trans hrun⟩, hpc',
      State.contents_insert hs (hs.grows_of_reaches hrun).2 hkey hlevel⟩
  -- The place is found all the same; it is the test for a duplicate that fails.
  · obtain ⟨k, hk, heq⟩ : ∃ k ∈ s.contents, cmp.compare_ k key = 0 := by
      by_contra hno
      exact hnew fun k hk heq => hno ⟨k, hk, heq⟩
    have hplace := hs.place
    rw [State.Place, hpc] at hplace
    obtain ⟨prev, hloc, hplaced⟩ := hs.shape.locate hpc hplace key
    have hdup := hs.shape.isDuplicate hplaced hk heq
    have hfail : s.insert cmp key draws = none := by
      simp only [State.insert, State.step, hpc, hloc, hdup, Option.bind_eq_bind, Option.bind_some,
        assert_, Bool.false_eq_true, if_false, Option.bind_none]
    rw [hfail]
    exact ⟨⟨fun h => absurd h Bool.false_ne_true, fun hall => absurd hall hnew⟩,
      fun _ => ⟨prev, hloc, hdup⟩, fun s' h => absurd h (Option.some_ne_none s').symm⟩

/-- A key goes into a new list, and not a second time, since the second `Insert` finds it there. -/
theorem insert_spec_twice : ∃ s s' : State SmallInt, create 0 12 4 = some s ∧
    s.insert IntComparator 7 (fun _ => 0) = some s' ∧ 7 ∈ s'.contents ∧
    s'.insert IntComparator 7 (fun _ => 0) = none ∧
    ∃ prev, s'.locate IntComparator 7 = some prev ∧
      s'.notDuplicate IntComparator 7 prev = some false := by
  have hs : Reachable IntComparator _ := ⟨0, 12, 4, _, rfl, .refl⟩
  obtain ⟨-, -, hthen⟩ := insert_spec hs rfl 7 fun _ => 0
  obtain ⟨hreach, hpc, hmem⟩ := hthen _ rfl
  have h7 := (hmem 7).mpr (Or.inl rfl)
  obtain ⟨hiff, hfails, -⟩ := insert_spec hreach hpc 7 fun _ => 0
  have hagain := Option.not_isSome_iff_eq_none.mp fun h => hiff.mp h 7 h7 (by decide)
  exact ⟨_, _, rfl, rfl, h7, hagain, hfails hagain⟩

/-- The fast path of `Insert` finds the same predecessors as `FindLessThan`, at every level that the
list has. -/
theorem fastPath_spec (h : Reachable cmp s) (hpc : s.pc = .idle)
    (hfast : s.fastPath cmp key = some true) :
    ∃ p, s.searchLessThan cmp key (some s.prev) = some (p 0, some p) ∧
      ∀ i < s.mem.max_height, s.fastPrev i = p i := by
  have hs := h.sound
  have hplace := hs.place
  rw [State.Place, hpc] at hplace
  obtain ⟨fast, hfast', hthen⟩ := hs.shape.fastPath hpc hplace key
  obtain rfl : fast = true := Option.some.inj (hfast'.symm.trans hfast)
  obtain ⟨p, hp, hplaced⟩ := hs.shape.searchLessThan key s.prev
  exact ⟨p, hp, fun i hi => (hthen rfl).2.2.unique hs.shape hplaced hi⟩

/-- The last of two nodes is two levels high, in a list of three levels. The fast path is taken for
a key that belongs behind it: it is the predecessor at its two levels, and `head_` at the third. -/
theorem fastPath_spec_tall : ∃ (s₀ s : State SmallInt) (p : ℕ → Node), create 0 12 4 = some s₀ ∧
    s₀.insertAll IntComparator [(5, fun h => if h < 3 then 0 else 2 ^ 31),
      (2, fun h => if h < 2 then 0 else 2 ^ 31)] = some s ∧
    s.mem.max_height = 3 ∧ s.prev_height = 2 ∧ s.fastPath IntComparator 3 = some true ∧
    s.searchLessThan IntComparator 3 (some s.prev) = some (p 0, some p) ∧
    p 0 = 2 ∧ p 1 = 2 ∧ p 2 = head_ := by
  have hcreate : create (0 : SmallInt) 12 4 = some _ := rfl
  have hs₀ : State.Sound IntComparator _ := create_sound hcreate
  have hdiff : [((5 : SmallInt), fun h : ℕ => if h < 3 then 0 else 2 ^ 31),
      (2, fun h => if h < 2 then 0 else 2 ^ 31)].Pairwise
        fun p q => IntComparator.compare_ p.1 q.1 ≠ 0 := by
    decide
  obtain ⟨s, hall, hrun, -⟩ :=
    hs₀.insertAll rfl (fun k hk => absurd hk (contents_create hcreate k)) hdiff
  have hs : Reachable IntComparator s := ⟨0, 12, 4, _, hcreate, hrun⟩
  obtain ⟨hpc, hmax, hheight, hfast, hfirst, hsecond, hthird⟩ : s.pc = .idle ∧
      s.mem.max_height = 3 ∧ s.prev_height = 2 ∧ s.fastPath IntComparator 3 = some true ∧
      s.fastPrev 0 = 2 ∧ s.fastPrev 1 = 2 ∧ s.fastPrev 2 = head_ := by
    cases hall
    exact ⟨rfl, rfl, rfl, rfl, rfl, rfl, rfl⟩
  obtain ⟨p, hp, heq⟩ := fastPath_spec hs hpc hfast
  rw [hmax] at heq
  refine ⟨_, s, p, hcreate, hall, hmax, hheight, hfast, hp, ?_, ?_, ?_⟩
  · rw [← heq 0 (by decide), hfirst]
  · rw [← heq 1 (by decide), hsecond]
  · rw [← heq 2 (by decide), hthird]

/-- What was inserted one after the other, each key different from the others, an iterator goes
through from the smallest key to the greatest, whatever heights the nodes were given. -/
theorem iterate_insertAll {zero : Key} {max_height branching_factor : ℤ} {s₀ : State Key}
    (hcreate : create zero max_height branching_factor = some s₀) {kds : List (Key × (ℕ → ℕ))}
    (hdiff : kds.Pairwise fun p q => cmp.compare_ p.1 q.1 ≠ 0) :
    ∃ s keys, s₀.insertAll cmp kds = some s ∧
      search (iterate s.mem) (s.count + 1) (head_, []) = some keys ∧
      keys.Pairwise (fun a b => cmp.compare_ a b < 0) ∧ keys.Perm (kds.map Prod.fst) := by
  have hs₀ : s₀.Sound cmp := create_sound hcreate
  obtain ⟨-, hpc, -⟩ := create_eq_some hcreate
  have hempty := contents_create hcreate
  obtain ⟨s, hall, hrun, hmem⟩ :=
    hs₀.insertAll hpc (fun k hk => absurd hk (hempty k)) hdiff
  obtain ⟨keys, hiter, hsorted, hkeys⟩ := (hs₀.grows_of_reaches hrun).1.shape.iterate
  refine ⟨s, keys, hall, hiter, hsorted, ?_⟩
  -- Neither list has a key twice, since no key compares to itself as different.
  have hself : ∀ k, cmp.compare_ k k = 0 := fun k => cmp.eq_iff_above.mpr rfl
  have hnd : keys.Nodup := hsorted.imp fun {a b} hlt heq => by
    rw [heq, hself] at hlt
    exact absurd hlt (lt_irrefl _)
  have hnd' : (kds.map Prod.fst).Nodup :=
    List.pairwise_map.mpr (hdiff.imp fun {p q} hne heq => hne (by rw [heq, hself]))
  refine (List.perm_ext_iff_of_nodup hnd hnd').mpr fun k => ?_
  rw [hkeys, hmem]
  exact ⟨fun h => h.resolve_right (hempty k), Or.inl⟩

/-- Three keys, the second one smaller than the first. -/
theorem iterate_insertAll_three : ∃ (s₀ s : State SmallInt) (keys : List SmallInt),
    create 0 12 4 = some s₀ ∧
    s₀.insertAll IntComparator [(30, fun _ => 0), (2, fun _ => 2 ^ 31), (9, fun _ => 0)] = some s ∧
    search (iterate s.mem) (s.count + 1) (head_, []) = some keys ∧ keys.Perm [30, 2, 9] := by
  have hcreate : create (0 : SmallInt) 12 4 = some _ := rfl
  obtain ⟨s, keys, hall, hiter, -, hperm⟩ :=
    @iterate_insertAll SmallInt ℤ _ IntComparator _ _ _ _ hcreate
    [(30, fun _ => 0), (2, fun _ => 2 ^ 31), (9, fun _ => 0)] (by decide)
  exact ⟨_, s, keys, rfl, hall, hiter, hperm⟩

end CPStudy.SkipList

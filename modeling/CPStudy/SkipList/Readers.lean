import CPStudy.SkipList.Insert

/-!
# Searching while another thread inserts

A `History` is what one thread after another does to the list by `Insert`, store by store, from the
constructor on. A thread that searches meanwhile sees the list through loads that lag behind
(`Lib.Timeline`); only the height of the list is loaded without any order, and so may be that of any
time. A search answers for the list as it is at its last load: whatever was inserted before that
load was published is in the answer, and nothing else.
-/

namespace CPStudy.SkipList

open Lib State

variable {Key β : Type} [LinearOrder β] {cmp : Comparator Key β} {key : Key}

/-- The history of a list, from its constructor on. -/
structure History (cmp : Comparator Key β) extends
    Timeline (State.step cmp) (State.Permits cmp) where
  /-- It begins in a state that the list can come to. -/
  reachable : Reachable cmp (state 0)

/-- A key that compares equal is in the list. -/
def State.Holds (cmp : Comparator Key β) (s : State Key) (key : Key) : Prop :=
  ∃ x ∈ s.level 0, x ≠ head_ ∧ ∃ k, s.mem.key x = some k ∧ cmp.compare_ key k = 0

namespace State

variable {s s' : State Key} {x : Node}

/-- A key is in the list when a node has its rank. -/
theorem Shape.holds_iff (h : s.Shape cmp) :
    s.Holds cmp key ↔ ∃ x ∈ s.level 0, s.mem.rank cmp x = cmp.above key := by
  constructor
  · rintro ⟨x, hx, hhead, k, hk, heq⟩
    exact ⟨x, hx, (rank_of_key hhead hk).trans (cmp.eq_iff_above.mp heq).symm⟩
  · rintro ⟨x, hx, hrank⟩
    have hhead : x ≠ head_ := ne_head_of_le hrank.ge
    obtain ⟨k, hk, hrank'⟩ := h.exists_key hx hhead
    exact ⟨x, hx, hhead, k, hk, cmp.eq_iff_above.mpr (hrank.symm.trans hrank')⟩

/-- What is in the list stays there. -/
theorem Grows.holds (hg : s.Grows s') (h : s.Shape cmp) (hkey : s.Holds cmp key) :
    s'.Holds cmp key := by
  obtain ⟨x, hx, hhead, k, hk, heq⟩ := hkey
  exact ⟨x, hg.level hx, hhead, k, (hg.key x (h.lt_count hx)).trans hk, heq⟩

/-- The answer of `Contains` is right for the list in which the node was the first one from the key
on. -/
theorem Shape.contains (h : s.Shape cmp) {o : Option Node}
    (ho : IsFrom (s.mem.rank cmp) (s.level 0) (cmp.above key) o) :
    ∃ b, s.mem.contains cmp key o = some b ∧ (b = true ↔ s.Holds cmp key) := by
  rw [h.holds_iff, ho.exists_iff]
  cases o with
  | none => exact ⟨false, rfl, by simp⟩
  | some y =>
    obtain ⟨k, hk, hrank⟩ := h.exists_key ho.1 (ne_head_of_le ho.2.1)
    refine ⟨decide (cmp.compare_ key k = 0), ?_, ?_⟩
    · simp only [Memory.contains, hk, Option.map_some]
    · rw [decide_eq_true_iff, cmp.eq_iff_above, ← hrank]
      constructor
      · exact fun heq => ⟨y, rfl, heq.symm⟩
      · rintro ⟨y', hy', heq⟩
        cases hy'
        exact heq.symm

end State

namespace History

variable (H : History cmp) {s t v tm n : ℕ} {c c₀ : Cursor} {r : Rank β}

/-- The invariant holds at every time. -/
theorem sound (t : ℕ) : (H.state t).Sound cmp :=
  (H.reachable.sound.grows_of_reaches (H.reaches (Nat.zero_le t))).1

/-- The list can come to its state at every time. -/
theorem reachable_at (t : ℕ) : Reachable cmp (H.state t) := by
  obtain ⟨zero, max_height, branching_factor, s₀, hcreate, hrun⟩ := H.reachable
  exact ⟨zero, max_height, branching_factor, s₀, hcreate,
    hrun.trans (H.reaches (Nat.zero_le t))⟩

/-- The list grows with time. -/
theorem grows (h : s ≤ t) : (H.state s).Grows (H.state t) :=
  ((H.sound s).grows_of_reaches (H.reaches h)).2

/-- The height of the list at any time is within the bound of any other time. -/
theorem max_height_le (s t : ℕ) : (H.state s).mem.getMaxHeight ≤ (H.state t).mem.kMaxHeight := by
  have hs := (H.grows (Nat.zero_le s)).kMaxHeight
  have ht := (H.grows (Nat.zero_le t)).kMaxHeight
  exact (H.sound s).shape.max_height_le.trans_eq (hs.trans ht.symm)

/-- `FindGreaterOrEqual` of a thread that searches. -/
abbrev greaterOrEqual (cmp : Comparator Key β) (key : Key) (s : State Key) :
    Cursor → Option (Pass Cursor (Option Node)) :=
  findGreaterOrEqual cmp key s.mem

/-- `FindLessThan` of a thread that searches. -/
abbrev lessThan (cmp : Comparator Key β) (key : Key) (s : State Key) :
    Cursor × Option (ℕ → Node) →
      Option (Pass (Cursor × Option (ℕ → Node)) (Node × Option (ℕ → Node))) :=
  findLessThan cmp key s.mem

/-- The cursor that a search begins with which has loaded the height of the list of a time. -/
abbrev startAt (tm : ℕ) : Cursor := .start (H.state tm).mem.getMaxHeight

/-- A search stands before its key, and its turns are within what it had to do at first, in the
list as it will be at any later time. -/
structure Underway (r : Rank β) (c₀ : Cursor) (t : ℕ) (c : Cursor) (n : ℕ) : Prop where
  /-- It stands before its key. -/
  before : Before cmp (H.state t) r c
  /-- It has been making progress. -/
  turns : ∀ T, t ≤ T → n + work cmp (H.state T) r c ≤ work cmp (H.state T) r c₀

/-- A search begins. -/
theorem underway_start (hr : ⊥ < r) (v tm : ℕ) :
    H.Underway r (H.startAt tm) v (H.startAt tm) 0 :=
  ⟨Before.start (H.sound v).shape (H.max_height_le tm v) (by rwa [rank_head]),
    fun _ _ => (Nat.zero_add _).le⟩

variable {H}

/-- The list grows while a search is under way. -/
theorem Underway.later (h : H.Underway r c₀ s c n) (hle : s ≤ t) : H.Underway r c₀ t c n :=
  ⟨h.before.later (H.sound s).shape (H.grows hle), fun T hT => h.turns T (hle.trans hT)⟩

/-- A search goes on. -/
theorem Underway.goes {c' : Cursor} (h : H.Underway r c₀ t c n)
    (hgo : Goes cmp (H.state t) r c c') : H.Underway r c₀ t c' (n + 1) := by
  refine ⟨hgo.before h.before, fun T hT => ?_⟩
  have hlt := hgo.work_lt (H.sound t).shape (H.sound T).shape (H.grows hT) h.before
  have hle := h.turns T hT
  omega

variable (H)

/-- What a search has to do at first. -/
theorem work_start (tm t : ℕ) : work cmp (H.state t) r (H.startAt tm) + 1 =
    (H.state tm).mem.getMaxHeight + (between cmp (H.state t) head_ r).card := by
  have hpos : 0 < (H.state tm).mem.getMaxHeight := (H.sound tm).shape.max_height_pos
  simp only [work, Cursor.start, Option.getD_some]
  omega

/-- A loop that searches for the rank `r`: each turn, in the list as it is at any time, goes on with
less to do or leaves with a result of which `Q` holds at that time. `cur` is the cursor among the
local variables and `J` what holds of the others. -/
structure Searches {γ δ : Type} (H : History cmp) (r : Rank β)
    (body : State Key → γ → Option (Pass γ δ)) (cur : γ → Cursor) (J : γ → Prop)
    (Q : ℕ → δ → Prop) : Prop where
  /-- There is something to search. -/
  bot_lt : ⊥ < r
  /-- What a turn does. -/
  turn : ∀ t c, J c → Before cmp (H.state t) r (cur c) →
    (∃ c', body (H.state t) c = some (.again c') ∧ Goes cmp (H.state t) r (cur c) (cur c') ∧ J c') ∨
    ∃ b, body (H.state t) c = some (.leave b) ∧ Q t b

namespace Searches

variable {H} {γ δ : Type} {body : State Key → γ → Option (Pass γ δ)} {cur : γ → Cursor}
  {J : γ → Prop} {Q : ℕ → δ → Prop} {d : γ} {rd : Reader γ}

/-- What holds while the loop goes on. -/
theorem reads (h : Searches H r body cur J Q) (hd : cur d = H.startAt tm) (hJ : J d)
    (hrd : H.Reads body d v rd) :
    v ≤ rd.view ∧ H.Underway r (H.startAt tm) rd.view (cur rd.cursor) rd.loads ∧ J rd.cursor := by
  refine hrd.invariant (I := fun t c n => H.Underway r (H.startAt tm) t (cur c) n ∧ J c)
    ⟨hd ▸ H.underway_start h.bot_lt v tm, hJ⟩ (fun t t' c n _ hle hI => ⟨hI.1.later hle, hI.2⟩) ?_
  rintro t c c' n - ⟨hI, hJ⟩ hbody
  rcases h.turn t c hJ hI.before with ⟨c₁, hturn, hgo, hJ'⟩ | ⟨b, hturn, -⟩
  · cases hturn.symm.trans hbody
    exact ⟨hI.goes hgo, hJ'⟩
  · cases hturn.symm.trans hbody

/-- No turn fails, and the turns so far are fewer than the levels of the list and the nodes before
the rank. -/
theorem pass (h : Searches H r body cur J Q) (hd : cur d = H.startAt tm) (hJ : J d)
    (hrd : H.Reads body d v rd) (ht : rd.view ≤ t) :
    (∃ p, body (H.state t) rd.cursor = some p) ∧
      rd.loads < (H.state tm).mem.getMaxHeight + (between cmp (H.state t) head_ r).card := by
  obtain ⟨-, hI, hJ'⟩ := h.reads hd hJ hrd
  constructor
  · rcases h.turn t rd.cursor hJ' (hI.later ht).before with ⟨c', hturn, -⟩ | ⟨b, hturn, -⟩
    · exact ⟨_, hturn⟩
    · exact ⟨_, hturn⟩
  · have hturns := hI.turns t ht
    have hstart := H.work_start (r := r) tm t
    omega

/-- What holds of the result holds of it at the time of the last load. -/
theorem returns {b : δ} (h : Searches H r body cur J Q) (hd : cur d = H.startAt tm) (hJ : J d)
    (hret : H.Returns body d v b t n) : v ≤ t ∧ Q t b := by
  obtain ⟨rd, hrd, hle, -, hbody⟩ := hret
  obtain ⟨hv, hI, hJ'⟩ := h.reads hd hJ hrd
  refine ⟨hv.trans hle, ?_⟩
  rcases h.turn t rd.cursor hJ' (hI.later hle).before with ⟨c', hturn, -⟩ | ⟨b', hturn, hQ⟩
  · cases hturn.symm.trans hbody
  · cases hturn.symm.trans hbody
    exact hQ

end Searches

/-! ## The searches -/

/-- `FindGreaterOrEqual` finds the first node from the key on. -/
theorem searches_greaterOrEqual (key : Key) : Searches H (cmp.above key) (greaterOrEqual cmp key) id
    (fun _ => True) fun t o =>
      IsFrom ((H.state t).mem.rank cmp) ((H.state t).level 0) (cmp.above key) o where
  bot_lt := cmp.bot_lt_above
  turn t c _ hc := by
    rcases (H.sound t).shape.findGreaterOrEqual_turn hc with ⟨c', hturn, hgo⟩ | hleave
    · exact Or.inl ⟨c', hturn, hgo, trivial⟩
    · exact Or.inr hleave

/-- `FindLessThan` finds the last node before the key; `head_` where there is none. -/
theorem searches_lessThan (key : Key) : Searches H (cmp.above key) (lessThan cmp key) Prod.fst
    (fun c => c.2 = none) fun t b => b.2 = none ∧
      IsPrev ((H.state t).mem.rank cmp) ((H.state t).level 0) b.1 (cmp.above key) where
  bot_lt := cmp.bot_lt_above
  turn := by
    rintro t ⟨c, prev⟩ rfl hc
    rcases (H.sound t).shape.findLessThan_turn hc none with
      ⟨c', hturn, hgo, -⟩ | ⟨x, hx, ⟨-, c', hturn, hgo, -⟩ | ⟨hlevel, hturn⟩⟩
    · exact Or.inl ⟨_, hturn, hgo, rfl⟩
    · exact Or.inl ⟨_, hturn, hgo, rfl⟩
    · rw [hlevel] at hx
      exact Or.inr ⟨_, hturn, rfl, hx⟩

/-- `FindLast` finds the last node; `head_` where there is none. -/
theorem searches_last : Searches H ⊤ (fun s => findLast s.mem) id (fun _ => True) fun t x =>
    IsPrev ((H.state t).mem.rank cmp) ((H.state t).level 0) x ⊤ where
  bot_lt := WithBot.bot_lt_coe _
  turn t c _ hc := by
    rcases (H.sound t).shape.findLast_turn hc with ⟨c', hturn, hgo⟩ | hleave
    · exact Or.inl ⟨c', hturn, hgo, trivial⟩
    · exact Or.inr hleave

end History

end CPStudy.SkipList

import CPStudy.SkipList.Contents

/-!
# Iterators, while another thread inserts

`Seek`, `SeekToLast` and `Prev` are one search each, `SeekForPrev` any number of them: it retreats
as long as it stands beyond its target, since the nodes that it comes to may have been inserted
after it began. `State.IsAtMost` is what it is to find.
-/

namespace CPStudy.SkipList

open Lib State

variable {Key β : Type} [LinearOrder β] {cmp : Comparator Key β} {key target : Key}

/-- The position is that of the last node whose key satisfies `p`, and invalid where there is
none. -/
def State.IsLast (cmp : Comparator Key β) (s : State Key) (p : Key → Prop) : Option Node → Prop
  | none => ∀ k ∈ s.contents, ¬ p k
  | some x => ∃ k, s.mem.key x = some k ∧ k ∈ s.contents ∧ p k ∧
      ∀ k' ∈ s.contents, p k' → ¬ cmp.compare_ k k' < 0

/-- The position is that of the last node whose key is not greater than the target. -/
abbrev State.IsAtMost (cmp : Comparator Key β) (s : State Key) (target : Key) :
    Option Node → Prop :=
  s.IsLast cmp fun k => ¬ cmp.compare_ target k < 0

namespace State

variable {s s' : State Key} {x : Node} {k : Key}

/-- The keys of the list through its nodes. -/
theorem exists_rank_of_mem_contents (cmp : Comparator Key β) (hk : k ∈ s.contents) :
    ∃ n ∈ s.level 0, s.mem.rank cmp n = cmp.above k := by
  obtain ⟨n, hn, hne, hkey⟩ := hk
  exact ⟨n, hn, rank_of_key hne hkey⟩

/-- The last node before a rank is the last one of what is before that rank. -/
theorem Shape.isLast_of_isPrev (h : s.Shape cmp) {r : Rank β} {p : Key → Prop}
    (hx : IsPrev (s.mem.rank cmp) (s.level 0) x r) (hlt : ∀ k, p k → cmp.above k < r)
    (hp : ∀ k, s.mem.rank cmp x = cmp.above k → p k) : s.IsLast cmp p (positionOf x) := by
  have hbelow : ∀ k ∈ s.contents, p k → cmp.above k ≤ s.mem.rank cmp x := by
    intro k hk hpk
    obtain ⟨n, hn, hrank⟩ := exists_rank_of_mem_contents cmp hk
    exact hrank ▸ hx.le hn (hrank.trans_lt (hlt k hpk))
  unfold positionOf
  split
  case isTrue hhead =>
    intro k hk hpk
    have hbot := hbelow k hk hpk
    rw [hhead, rank_head] at hbot
    exact absurd hbot (not_le.mpr cmp.bot_lt_above)
  case isFalse hhead =>
    obtain ⟨k, hk, hrank⟩ := h.exists_key hx.mem hhead
    refine ⟨k, hk, ⟨x, hx.mem, hhead, hk⟩, hp k hrank, fun k' hk' hpk' hlt' => ?_⟩
    exact absurd (cmp.neg_iff_above.mp hlt') (not_lt.mpr (hrank ▸ hbelow k' hk' hpk'))

/-- The last node before a rank, when the target is before that rank and not before the node. -/
theorem Shape.isAtMost_of_isPrev (h : s.Shape cmp) {r : Rank β}
    (hx : IsPrev (s.mem.rank cmp) (s.level 0) x r) (hr : cmp.above target < r)
    (hle : s.mem.rank cmp x ≤ cmp.above target) : s.IsAtMost cmp target (positionOf x) := by
  refine h.isLast_of_isPrev hx (fun k hk => ?_) fun k hrank hlt => ?_
  · exact (not_lt.mp fun hlt => hk (cmp.neg_iff_above.mpr hlt)).trans_lt hr
  · exact absurd (cmp.neg_iff_above.mp hlt) (not_lt.mpr (hrank ▸ hle))

/-- A node of the key of the target. -/
theorem Shape.isAtMost_of_eq (h : s.Shape cmp) (hx : x ∈ s.level 0)
    (heq : s.mem.rank cmp x = cmp.above target) : s.IsAtMost cmp target (some x) := by
  have hhead : x ≠ head_ := ne_head_of_le heq.ge
  obtain ⟨k, hk, hrank⟩ := h.exists_key hx hhead
  have hkt : cmp.above k = cmp.above target := hrank.symm.trans heq
  refine ⟨k, hk, ⟨x, hx, hhead, hk⟩, fun hlt => ?_, fun k' _ hle hlt => hle ?_⟩
  · exact (cmp.neg_iff_above.mp hlt).ne' hkt
  · exact cmp.neg_iff_above.mpr (hkt ▸ cmp.neg_iff_above.mp hlt)

end State

namespace History

variable (H : History cmp)

/-- `LessThan(target, key())` of an iterator at the node, at a time. -/
def beyond (target : Key) (t : ℕ) (x : Node) : Option Bool :=
  ((H.state t).mem.key x).map fun k => decide (cmp.compare_ target k < 0)

/-- What `SeekForPrev` that begins at the time `v` can come to: a time, the position of the
iterator, and the number of calls of `Prev` so far. -/
inductive Retreats (target : Key) (v : ℕ) : ℕ → Option Node → ℕ → Prop
  /-- `Seek` finds a node. -/
  | found {tm t m : ℕ} {x : Node}
      (hseek : H.Returns (greaterOrEqual cmp target) (H.startAt tm) v (some x) t m) :
      Retreats target v t (some x) 0
  /-- `Seek` finds nothing, and the iterator goes to the last node. -/
  | last {tm t m tm' t' m' : ℕ} {x : Node}
      (hseek : H.Returns (greaterOrEqual cmp target) (H.startAt tm) v none t m)
      (hlast : H.Returns (fun s => findLast s.mem) (H.startAt tm') t x t' m') :
      Retreats target v t' (positionOf x) 0
  /-- `Prev`: the iterator is beyond the target and goes to the last node before its key. -/
  | prev {tm t t' m n : ℕ} {x p : Node} {k : Key} {q : Option (ℕ → Node)}
      (h : Retreats target v t (some x) n) (hkey : H.beyond target t x = some true)
      (hk : (H.state t).mem.key x = some k)
      (hfind : H.Returns (lessThan cmp k) (H.startAt tm, none) t (p, q) t' m) :
      Retreats target v t' (positionOf p) (n + 1)

/-- `SeekForPrev` that begins at the time `v` ends: the iterator is not valid, or not beyond the
target. -/
def SeeksForPrev (target : Key) (v t : ℕ) (o : Option Node) : Prop :=
  (∃ n, H.Retreats target v t o n) ∧ ∀ x ∈ o, H.beyond target t x = some false

variable {H}

/-- Where the loop of `SeekForPrev` stands: at the answer for some time since the time `v`, or
beyond the target. -/
inductive Standing (H : History cmp) (target : Key) (v t : ℕ) : Option Node → Prop
  /-- It stands at the answer. -/
  | answer {u : ℕ} {o : Option Node} (hv : v ≤ u) (ht : u ≤ t)
      (ho : (H.state u).IsAtMost cmp target o) : Standing H target v t o
  /-- It stands beyond the target. -/
  | beyond {x : Node} (hv : v ≤ t) (hx : x ∈ (H.state t).level 0)
      (hlt : cmp.above target < (H.state t).mem.rank cmp x) : Standing H target v t (some x)

variable {v t n : ℕ} {o : Option Node} {x : Node}

/-- The last node before a rank beyond the target is the answer, or beyond the target itself. -/
theorem standing_of_isPrev (hv : v ≤ t) {r : Rank β}
    (hx : IsPrev ((H.state t).mem.rank cmp) ((H.state t).level 0) x r) (hr : cmp.above target < r) :
    Standing H target v t (positionOf x) := by
  rcases le_or_gt ((H.state t).mem.rank cmp x) (cmp.above target) with hle | hlt
  · exact .answer hv le_rfl ((H.sound t).shape.isAtMost_of_isPrev hx hr hle)
  · rw [positionOf, if_neg (ne_head_of_lt hlt)]
    exact .beyond hv hx.mem hlt

/-- `SeekForPrev` stands at the answer or beyond the target all the time. -/
theorem Retreats.standing (h : H.Retreats target v t o n) : v ≤ t ∧ Standing H target v t o := by
  induction h with
  | @found tm t m x hseek =>
    obtain ⟨hv, hmem, hle, -⟩ := (H.searches_greaterOrEqual target).returns rfl trivial hseek
    refine ⟨hv, ?_⟩
    rcases hle.eq_or_lt with heq | hlt
    · exact .answer hv le_rfl ((H.sound t).shape.isAtMost_of_eq hmem heq.symm)
    · exact .beyond hv hmem hlt
  | last hseek hlast =>
    obtain ⟨hv, -⟩ := (H.searches_greaterOrEqual target).returns rfl trivial hseek
    obtain ⟨hv', hx⟩ := H.searches_last.returns rfl trivial hlast
    exact ⟨hv.trans hv', standing_of_isPrev (hv.trans hv') hx
      (WithBot.coe_lt_coe.mpr (WithTop.coe_lt_top _))⟩
  | prev h hkey hk hfind ih =>
    rw [History.beyond, hk, Option.map_some, Option.some.injEq, decide_eq_true_iff] at hkey
    obtain ⟨hle, -, hp⟩ := (H.searches_lessThan _).returns rfl rfl hfind
    have hv := ih.1.trans hle
    exact ⟨hv, standing_of_isPrev hv hp (cmp.neg_iff_above.mp hkey)⟩

/-- There are fewer nodes before a node of the list than before what is beyond it, also in the list
as it will be. -/
theorem between_card_lt {T : ℕ} {r : Rank β} (hT : t ≤ T) (hx : x ∈ (H.state t).level 0)
    (hhead : x ≠ head_) (hlt : (H.state T).mem.rank cmp x < r) :
    (between cmp (H.state T) head_ ((H.state T).mem.rank cmp x)).card <
      (between cmp (H.state T) head_ r).card := by
  have hmem := (H.grows hT).level hx
  obtain ⟨k, -, hrank⟩ := (H.sound T).shape.exists_key hmem hhead
  refine (H.sound T).shape.between_rank_card_lt hmem ?_ hlt
  rw [rank_head, hrank]
  exact cmp.bot_lt_above

/-- The nodes that are left before the position, and the calls of `Prev` so far, are within the
nodes of the list as it will be. -/
def Within (H : History cmp) (t n : ℕ) : Option Node → Prop
  | none => ∀ T, t ≤ T → n ≤ (between cmp (H.state T) head_ ⊤).card
  | some x => x ∈ (H.state t).level 0 ∧ x ≠ head_ ∧ ∀ T, t ≤ T →
      n + (between cmp (H.state T) head_ ((H.state T).mem.rank cmp x)).card <
        (between cmp (H.state T) head_ ⊤).card

/-- Each call of `Prev` leaves a node behind. -/
theorem Retreats.within (h : H.Retreats target v t o n) : Within H t n o := by
  induction h with
  | @found tm t m x hseek =>
    obtain ⟨-, hmem, hle, -⟩ := (H.searches_greaterOrEqual target).returns rfl trivial hseek
    have hhead : x ≠ head_ := ne_head_of_le hle
    refine ⟨hmem, hhead, fun T hT => ?_⟩
    rw [Nat.zero_add]
    exact between_card_lt hT hmem hhead (rank_lt_top _ _)
  | @last tm t m tm' t' m' x hseek hlast =>
    obtain ⟨-, hx⟩ := H.searches_last.returns rfl trivial hlast
    by_cases hhead : x = head_
    · rw [positionOf, if_pos hhead]
      exact fun T _ => Nat.zero_le _
    · rw [positionOf, if_neg hhead]
      refine ⟨hx.mem, hhead, fun T hT => ?_⟩
      rw [Nat.zero_add]
      exact between_card_lt hT hx.mem hhead (rank_lt_top _ _)
  | @prev tm t t' m n x p k q h hkey hk hfind ih =>
    obtain ⟨hx, hhead, hturns⟩ := ih
    obtain ⟨hle, -, hp⟩ := (H.searches_lessThan k).returns rfl rfl hfind
    by_cases hhead' : p = head_
    · rw [positionOf, if_pos hhead']
      exact fun T hT => (Nat.le_add_right _ _).trans_lt (hturns T (hle.trans hT))
    · rw [positionOf, if_neg hhead']
      refine ⟨hp.mem, hhead', fun T hT => ?_⟩
      -- The node `p` is before the node `x`, which `Prev` has left.
      have hp : IsPrev ((H.state t').mem.rank cmp) ((H.state t').level 0) p (cmp.above k) := hp
      have hrank : (H.state T).mem.rank cmp p < (H.state T).mem.rank cmp x := by
        rw [(H.grows hT).rank ((H.sound t').shape.lt_count hp.mem),
          (H.grows (hle.trans hT)).rank ((H.sound t).shape.lt_count hx), rank_of_key hhead hk]
        exact hp.lt
      have hfewer := between_card_lt hT hp.mem hhead' hrank
      have hsofar := hturns T (hle.trans hT)
      omega

/-- `SeekForPrev` finds the last node whose key is not greater than the target, for the list as it
is at some time during the call, whatever is inserted meanwhile. It calls `Prev` fewer times than
the list has nodes, and neither the comparison with the target nor a call of `Prev` fails. -/
theorem seekForPrev_spec :
    (∀ o t, H.SeeksForPrev target v t o → ∃ u, v ≤ u ∧ u ≤ t ∧ (H.state u).IsAtMost cmp target o) ∧
    (∀ o t n, H.Retreats target v t o n → n < (H.state t).count ∧
      ∀ x ∈ o, ∃ k, (H.state t).mem.key x = some k ∧ (H.beyond target t x).isSome ∧
        ∀ tm r T, H.Reads (lessThan cmp k) (H.startAt tm, none) t r → r.view ≤ T →
          (∃ p, lessThan cmp k (H.state T) r.cursor = some p) ∧
            r.loads < (H.state tm).mem.getMaxHeight + (H.state T).count) := by
  constructor
  · rintro o t ⟨⟨n, h⟩, hstop⟩
    obtain ⟨-, hstand⟩ := h.standing
    cases hstand with
    | answer hv ht ho => exact ⟨_, hv, ht, ho⟩
    | @beyond x hv hx hlt =>
      -- The loop does not end beyond the target.
      have hkey := hstop x rfl
      obtain ⟨k, hk, hrank⟩ := (H.sound t).shape.exists_key hx (ne_head_of_lt hlt)
      rw [History.beyond, hk, Option.map_some, Option.some.injEq, decide_eq_false_iff_not] at hkey
      exact absurd (cmp.neg_iff_above.mpr (hrank ▸ hlt)) hkey
  · intro o t n h
    have hwithin := h.within
    have hcard := (H.sound t).shape.between_card_le (x := head_) (r := ⊤)
    cases o with
    | none => exact ⟨(hwithin t le_rfl).trans_lt hcard, nofun⟩
    | some x =>
      obtain ⟨hx, hhead, hturns⟩ := hwithin
      have hfewer := hturns t le_rfl
      refine ⟨by omega, fun y hy => ?_⟩
      cases hy
      obtain ⟨k, hk, -⟩ := (H.sound t).shape.exists_key hx hhead
      refine ⟨k, hk, by rw [History.beyond, hk]; rfl, fun tm r T hr hT => ?_⟩
      obtain ⟨hp, hlt⟩ := (H.searches_lessThan k).pass rfl rfl hr hT
      exact ⟨hp, hlt.trans (Nat.add_lt_add_left (H.sound T).shape.between_card_le _)⟩

/-- Three keys are inserted, and then a thread searches. -/
theorem exists_three : ∃ (H : History IntComparator) (t : ℕ) (s : State SmallInt), H.state t = s ∧
    (create (0 : SmallInt) 12 4).bind (fun s => s.insertAll IntComparator
      [(30, fun _ => 0), (2, fun _ => 2 ^ 31), (9, fun _ => 0)]) = some s := by
  have hcreate : create (0 : SmallInt) 12 4 = some _ := rfl
  have hdiff : [((30 : SmallInt), fun _ : ℕ => 0), (2, fun _ => 2 ^ 31), (9, fun _ => 0)].Pairwise
      fun p q => IntComparator.compare_ p.1 q.1 ≠ 0 := by decide
  obtain ⟨H, t, ht⟩ := exists_history hcreate hdiff rfl
  exact ⟨H, t, _, ht, rfl⟩

/-- A target between two keys. -/
theorem seekForPrev_spec_between : ∃ (H : History IntComparator) (t : ℕ),
    H.SeeksForPrev 10 t t (some 3) ∧ ∃ u, (H.state u).IsAtMost IntComparator 10 (some 3) := by
  obtain ⟨H, t, s, ht, hs⟩ := exists_three
  -- `FindGreaterOrEqual` comes to the key 30, and one `Prev` leads from there to 9.
  have hseek : search (greaterOrEqual IntComparator 10 (H.state t)) 20
      (.start (H.state t).mem.getMaxHeight) = some (some 1) := by
    rw [ht]
    cases hs
    rfl
  have hprev : search (lessThan IntComparator 30 (H.state t)) 20
      (.start (H.state t).mem.getMaxHeight, none) = some (3, none) := by
    rw [ht]
    cases hs
    rfl
  have hkeys : (H.state t).mem.key 1 = some 30 ∧ (H.state t).mem.key 3 = some 9 := by
    rw [ht]
    cases hs
    exact ⟨rfl, rfl⟩
  obtain ⟨n, hfound⟩ := Timeline.returns_of_search .refl hseek
  obtain ⟨n', hback⟩ := Timeline.returns_of_search .refl hprev
  have h : H.SeeksForPrev 10 t t (some 3) := by
    refine ⟨⟨1, .prev (.found hfound) ?_ hkeys.1 hback⟩, fun x hx => ?_⟩
    · rw [beyond, hkeys.1]
      rfl
    · cases hx
      rw [beyond, hkeys.2]
      rfl
  obtain ⟨u, -, -, hu⟩ := seekForPrev_spec.1 (some 3) t h
  exact ⟨H, t, h, u, hu⟩

/-! ## The searches, for the list as it is at their last load -/

/-- `Prev` goes to the last node before the key that it was at, for the list as it is at its last
load; the iterator is not valid any more where there is none. `SeekToLast` goes to the last node of
all. -/
theorem prev_spec {tm n : ℕ} {p : Node} :
    (∀ key q, H.Returns (lessThan cmp key) (H.startAt tm, none) v (p, q) t n →
      v ≤ t ∧ (H.state t).IsLast cmp (fun k => cmp.compare_ k key < 0) (positionOf p)) ∧
    (H.Returns (fun s => findLast s.mem) (H.startAt tm) v p t n →
      v ≤ t ∧ (H.state t).IsLast cmp (fun _ => True) (positionOf p)) := by
  constructor
  · intro key q h
    obtain ⟨hv, -, hp⟩ := (H.searches_lessThan key).returns rfl rfl h
    refine ⟨hv, (H.sound t).shape.isLast_of_isPrev hp (fun k hk => cmp.neg_iff_above.mp hk) ?_⟩
    exact fun k hrank => cmp.neg_iff_above.mpr (hrank ▸ hp.lt)
  · intro h
    obtain ⟨hv, hp⟩ := H.searches_last.returns rfl trivial h
    exact ⟨hv, (H.sound t).shape.isLast_of_isPrev hp
      (fun k _ => WithBot.coe_lt_coe.mpr (WithTop.coe_lt_top _)) fun _ _ => trivial⟩

/-- The entry before the greatest one, and the greatest one. -/
theorem prev_spec_three : ∃ (H : History IntComparator) (t : ℕ),
    (H.state t).IsLast IntComparator (fun k => IntComparator.compare_ k 30 < 0) (some 3) ∧
      (H.state t).IsLast IntComparator (fun _ => True) (some 1) := by
  obtain ⟨H, t, s, ht, hs⟩ := exists_three
  have hprev : search (lessThan IntComparator 30 (H.state t)) 20
      (.start (H.state t).mem.getMaxHeight, none) = some (3, none) := by
    rw [ht]
    cases hs
    rfl
  have hlast : search (findLast (H.state t).mem) 20
      (.start (H.state t).mem.getMaxHeight) = some 1 := by
    rw [ht]
    cases hs
    rfl
  obtain ⟨n, hback⟩ := Timeline.returns_of_search .refl hprev
  have hend : ∃ n, H.Returns (fun s => findLast s.mem) (H.startAt t) t 1 t n :=
    Timeline.returns_of_search .refl hlast
  obtain ⟨n', hend⟩ := hend
  exact ⟨H, t, (prev_spec.1 30 none hback).2, (prev_spec.2 hend).2⟩

/-- `Contains` answers for the list as it is at its last load. So it finds every key that was in the
list when it began, and no key that is not in the list when it ends. -/
theorem contains_spec {tm n : ℕ}
    (h : H.Returns (greaterOrEqual cmp key) (H.startAt tm) v o t n) :
    v ≤ t ∧ ∃ b, (H.state t).mem.contains cmp key o = some b ∧
      (b = true ↔ (H.state t).Holds cmp key) ∧ ((H.state v).Holds cmp key → b = true) := by
  obtain ⟨hv, ho⟩ := (H.searches_greaterOrEqual key).returns rfl trivial h
  obtain ⟨b, hb, hiff⟩ := (H.sound t).shape.contains ho
  exact ⟨hv, b, hb, hiff, fun hholds => hiff.mpr ((H.grows hv).holds (H.sound v).shape hholds)⟩

/-- A key that was inserted is found. -/
theorem contains_spec_found : ∃ (H : History IntComparator) (t n : ℕ) (o : Option Node),
    H.Returns (greaterOrEqual IntComparator 9) (H.startAt t) t o t n ∧
      (H.state t).mem.contains IntComparator 9 o = some true ∧
      (H.state t).Holds IntComparator 9 := by
  obtain ⟨H, t, s, ht, hs⟩ := exists_three
  have hsearch : search (greaterOrEqual IntComparator 9 (H.state t)) 20
      (.start (H.state t).mem.getMaxHeight) = some (some 3) := by
    rw [ht]
    cases hs
    rfl
  obtain ⟨n, hret⟩ := Timeline.returns_of_search .refl hsearch
  have htrue : (H.state t).mem.contains IntComparator 9 (some 3) = some true := by
    rw [ht]
    cases hs
    rfl
  obtain ⟨-, b, hb, hiff, -⟩ := contains_spec hret
  exact ⟨H, t, n, some 3, hret, htrue, hiff.mp (Option.some.inj (hb.symm.trans htrue))⟩

/-- No search fails, whatever is inserted meanwhile: no assertion, no null pointer, no link that
holds nothing yet. And none goes on for ever while the list does not: it has loaded fewer links than
the list has levels and nodes. -/
theorem search_progress {tm : ℕ} :
    (∀ r, H.Reads (greaterOrEqual cmp key) (H.startAt tm) v r → r.view ≤ t →
      (∃ p, greaterOrEqual cmp key (H.state t) r.cursor = some p) ∧
        r.loads < (H.state tm).mem.getMaxHeight + (H.state t).count) ∧
    (∀ r, H.Reads (lessThan cmp key) (H.startAt tm, none) v r → r.view ≤ t →
      (∃ p, lessThan cmp key (H.state t) r.cursor = some p) ∧
        r.loads < (H.state tm).mem.getMaxHeight + (H.state t).count) ∧
    (∀ r, H.Reads (fun s => findLast s.mem) (H.startAt tm) v r → r.view ≤ t →
      (∃ p, findLast (H.state t).mem r.cursor = some p) ∧
        r.loads < (H.state tm).mem.getMaxHeight + (H.state t).count) := by
  have hcard : ∀ r : Rank β, (between cmp (H.state t) head_ r).card < (H.state t).count :=
    fun _ => (H.sound t).shape.between_card_le
  refine ⟨fun r hr ht => ?_, fun r hr ht => ?_, fun r hr ht => ?_⟩
  · obtain ⟨hp, hlt⟩ := (H.searches_greaterOrEqual key).pass rfl trivial hr ht
    exact ⟨hp, hlt.trans (Nat.add_lt_add_left (hcard _) _)⟩
  · obtain ⟨hp, hlt⟩ := (H.searches_lessThan key).pass rfl rfl hr ht
    exact ⟨hp, hlt.trans (Nat.add_lt_add_left (hcard _) _)⟩
  · obtain ⟨hp, hlt⟩ := H.searches_last.pass rfl trivial hr ht
    exact ⟨hp, hlt.trans (Nat.add_lt_add_left (hcard _) _)⟩

/-- Each search of three keys goes on after two loads: by the first it goes past a node, by the
second down a level, or past another node. -/
theorem search_progress_three : ∃ (H : History IntComparator) (t : ℕ),
    (∃ r p, H.Reads (greaterOrEqual IntComparator 10) (H.startAt t) t r ∧ r.loads = 2 ∧
      greaterOrEqual IntComparator 10 (H.state t) r.cursor = some p) ∧
    (∃ r p, H.Reads (lessThan IntComparator 10) (H.startAt t, none) t r ∧ r.loads = 2 ∧
      lessThan IntComparator 10 (H.state t) r.cursor = some p) ∧
    ∃ r p, H.Reads (fun s => findLast s.mem) (H.startAt t) t r ∧ r.loads = 2 ∧
      findLast (H.state t).mem r.cursor = some p := by
  obtain ⟨H, t, s, ht, hs⟩ := exists_three
  have hstart : H.startAt t = ⟨some head_, 11, none⟩ := by
    rw [startAt, ht]
    cases hs
    rfl
  -- Each search makes two turns from `head_`, in the list of the keys 30, 2 and 9.
  have hge : greaterOrEqual IntComparator 10 (H.state t) ⟨some head_, 11, none⟩ =
        some (.again ⟨some 3, 11, none⟩) ∧
      greaterOrEqual IntComparator 10 (H.state t) ⟨some 3, 11, none⟩ =
        some (.again ⟨some 3, 10, some 1⟩) := by
    rw [ht]
    cases hs
    exact ⟨rfl, rfl⟩
  have hlt : lessThan IntComparator 10 (H.state t) (⟨some head_, 11, none⟩, none) =
        some (.again (⟨some 3, 11, none⟩, none)) ∧
      lessThan IntComparator 10 (H.state t) (⟨some 3, 11, none⟩, none) =
        some (.again (⟨some 3, 10, some 1⟩, none)) := by
    rw [ht]
    cases hs
    exact ⟨rfl, rfl⟩
  have hend : findLast (H.state t).mem ⟨some head_, 11, none⟩ = some (.again ⟨some 3, 11, none⟩) ∧
      findLast (H.state t).mem ⟨some 3, 11, none⟩ = some (.again ⟨some 1, 11, none⟩) := by
    rw [ht]
    cases hs
    exact ⟨rfl, rfl⟩
  have hge₀ : H.Reads (greaterOrEqual IntComparator 10) (H.startAt t) t ⟨H.startAt t, t, 0⟩ := .refl
  have hlt₀ : H.Reads (lessThan IntComparator 10) (H.startAt t, none) t
      ⟨(H.startAt t, none), t, 0⟩ := .refl
  have hend₀ : H.Reads (fun s => findLast s.mem) (H.startAt t) t ⟨H.startAt t, t, 0⟩ := .refl
  have hge₂ := (hge₀.again le_rfl (hstart ▸ hge.1)).again le_rfl hge.2
  have hlt₂ := (hlt₀.again le_rfl (hstart ▸ hlt.1)).again le_rfl hlt.2
  have hend₂ := (hend₀.again le_rfl (hstart ▸ hend.1)).again le_rfl hend.2
  obtain ⟨⟨p, hp⟩, -⟩ := search_progress.1 _ hge₂ le_rfl
  obtain ⟨⟨q, hq⟩, -⟩ := search_progress.2.1 _ hlt₂ le_rfl
  obtain ⟨⟨x, hx⟩, -⟩ := (@search_progress _ _ _ _ 10 H _ _ _).2.2 _ hend₂ le_rfl
  exact ⟨H, t, ⟨_, p, hge₂, rfl, hp⟩, ⟨_, q, hlt₂, rfl, hq⟩, _, x, hend₂, rfl, hx⟩

/-- An iteration from `SeekToFirst` on, by `Next`, goes through keys in strict order, misses none
that was in the list when it began, and comes to none that is not in the list when it ends. None of
its loads fails, and before it ends it has done fewer than the list has nodes. -/
theorem iterate_spec :
    (∀ keys t n, H.Returns (fun s => iterate s.mem) (head_, []) v keys t n →
      v ≤ t ∧ keys.Pairwise (fun a b => cmp.compare_ a b < 0) ∧
        (∀ k ∈ (H.state v).contents, k ∈ keys) ∧ (∀ k ∈ keys, k ∈ (H.state t).contents)) ∧
    (∀ r t, H.Reads (fun s => iterate s.mem) (head_, []) v r → r.view ≤ t →
      (∃ p, iterate (H.state t).mem r.cursor = some p) ∧ r.loads < (H.state t).count) := by
  -- What holds of an iteration under way: each load leaves a node behind.
  let I : ℕ → Node × List Key → ℕ → Prop := fun t c n =>
    v ≤ t ∧ Visited cmp (H.state v) (H.state t) c.1 c.2 ∧ ∀ T, t ≤ T →
      n + (between cmp (H.state T) c.1 ⊤).card ≤ (between cmp (H.state T) head_ ⊤).card
  have hstart : I v (head_, []) 0 :=
    ⟨le_rfl, .start (H.sound v).shape, fun T _ => (Nat.zero_add _).le⟩
  have htime : ∀ t t' c n, v ≤ t → t ≤ t' → I t c n → I t' c n := fun t t' c n _ hle hI =>
    ⟨hI.1.trans hle, hI.2.1.later (H.sound t).shape (H.grows hI.1) (H.grows hle),
      fun T hT => hI.2.2 T (hle.trans hT)⟩
  have hpass : ∀ t c c' n, v ≤ t → I t c n → iterate (H.state t).mem c = some (.again c') →
      I t c' (n + 1) := by
    rintro t ⟨x, keys⟩ c n hv ⟨-, hI, hturns⟩ hbody
    rcases hI.turn (H.sound t).shape (H.grows hv) with ⟨y, k, hturn, hI', hxy⟩ | ⟨hturn, -⟩
    · cases hturn.symm.trans hbody
      refine ⟨hv, hI', fun T hT => ?_⟩
      have hx : x ∈ (H.state t).level 0 := hI.mem
      have hrx : (H.state T).mem.rank cmp x = (H.state t).mem.rank cmp x :=
        (H.grows hT).rank ((H.sound t).shape.lt_count hx)
      have hry : (H.state T).mem.rank cmp y = (H.state t).mem.rank cmp y :=
        (H.grows hT).rank ((H.sound t).shape.lt_count hI'.mem)
      have hfewer := (H.sound T).shape.between_card_lt ((H.grows hT).level hI'.mem)
        (hrx.trans_lt (hxy.trans_eq hry.symm)) (rank_lt_top (H.state T).mem y)
      have hsofar := hturns T hT
      dsimp only at hsofar ⊢
      omega
    · cases hturn.symm.trans hbody
  constructor
  · intro keys t n h
    refine h.of_invariant (I := I)
      (Q := fun t (keys : List Key) (_ : ℕ) => keys.Pairwise (fun a b => cmp.compare_ a b < 0) ∧
        (∀ k ∈ (H.state v).contents, k ∈ keys) ∧ (∀ k ∈ keys, k ∈ (H.state t).contents))
      hstart htime hpass ?_
    rintro t ⟨x, keys⟩ b n hv ⟨-, hI, -⟩ hbody
    rcases hI.turn (H.sound t).shape (H.grows hv) with ⟨y, k, hturn, -, -⟩ | ⟨hturn, hlast⟩
    · cases hturn.symm.trans hbody
    · cases hturn.symm.trans hbody
      exact ⟨hI.sorted, hI.all (H.grows hv) hlast (H.sound v).shape, hI.sound⟩
  · intro r t hr ht
    obtain ⟨hv, hI⟩ := hr.invariant hstart htime hpass
    obtain ⟨hvt, hvisited, hturns⟩ := htime _ t _ _ hv ht hI
    constructor
    · rcases hvisited.turn (H.sound t).shape (H.grows hvt) with ⟨y, k, hturn, -, -⟩ | ⟨hturn, -⟩
      · exact ⟨_, hturn⟩
      · exact ⟨_, hturn⟩
    · have hcard := (H.sound t).shape.between_card_le (x := head_) (r := ⊤)
      have hsofar := hturns t le_rfl
      omega

/-- The keys that were inserted, in order. -/
theorem iterate_spec_three : ∃ (H : History IntComparator) (t n : ℕ),
    H.Returns (fun s => iterate s.mem) (head_, []) t [2, 9, 30] t n ∧
      ∀ k ∈ (H.state t).contents, k ∈ [(2 : SmallInt), 9, 30] := by
  obtain ⟨H, t, s, ht, hs⟩ := exists_three
  have hsearch : search (iterate (H.state t).mem) 20 (head_, []) = some [2, 9, 30] := by
    rw [ht]
    cases hs
    rfl
  have hret : ∃ n, H.Returns (fun s => iterate s.mem) (head_, []) t [2, 9, 30] t n :=
    Timeline.returns_of_search .refl hsearch
  obtain ⟨n, hret⟩ := hret
  exact ⟨H, t, n, hret, (iterate_spec.1 _ t n hret).2.2.1⟩

end History

end CPStudy.SkipList

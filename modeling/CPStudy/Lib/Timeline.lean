import CPStudy.Lib.Loop
import CPStudy.Lib.Transition
import Mathlib.Order.Basic
import Mathlib.Order.Monotone.Basic

/-!
# One writer, and readers that lag behind

A store that only one party writes has a single history, a `Timeline`: its state at each time, with
one step of the writer, or nothing, between two times. A reader sees the store through loads. An
acquiring load may see it as it was at any time that is not before the reader's `view`, and the
view then moves up to that time: whatever the writer did up to there is seen from now on. For a
writer that publishes by release stores and readers that follow pointers by acquire loads this is
what the memory model promises; a reader that always sees the latest state is one that always picks
the present. The readers change nothing, so that any number of them is one reader at a time.

`Reads` is what a search of the store can come to, `Returns` what it can answer, and
`Reads.invariant` the induction over its loads: an invariant that the passing of time keeps, and
that each pass over the body of the search keeps.
-/

namespace CPStudy.Lib

variable {σ α γ δ : Type*} {step : σ → α → Option σ} {ok : σ → α → Prop}

/-- The history of a store that only one party writes. -/
structure Timeline (step : σ → α → Option σ) (ok : σ → α → Prop) where
  /-- The store at each time. -/
  state : ℕ → σ
  /-- Between two times the writer does one step, or nothing. -/
  next : ∀ t, state (t + 1) = state t ∨
    ∃ a, ok (state t) a ∧ step (state t) a = some (state (t + 1))

/-- A reader between two loads. -/
structure Reader (γ : Type*) where
  /-- Where its search has come to. -/
  cursor : γ
  /-- The time that it has seen the store at. -/
  view : ℕ
  /-- The number of loads so far. -/
  loads : ℕ

namespace Timeline

variable (tl : Timeline step ok) (body : σ → γ → Option (Pass γ δ))

/-- One load at the time `t`, after which the search goes on. -/
def load (r : Reader γ) (t : ℕ) : Option (Reader γ) :=
  if r.view ≤ t then
    match body (tl.state t) r.cursor with
    | some (.again c) => some ⟨c, t, r.loads + 1⟩
    | _ => none
  else none

/-- What a search from the cursor `c` can come to for a reader that has seen the time `v`. -/
def Reads (c : γ) (v : ℕ) : Reader γ → Prop := Reaches (tl.load body) (fun _ _ => True) ⟨c, v, 0⟩

/-- The search returns `b` by a load at the time `t`, its `n`-th. -/
def Returns (c : γ) (v : ℕ) (b : δ) (t n : ℕ) : Prop :=
  ∃ r, tl.Reads body c v r ∧ r.view ≤ t ∧ r.loads + 1 = n ∧
    body (tl.state t) r.cursor = some (.leave b)

variable {tl body} {c : γ} {v s t n : ℕ} {b : δ} {r : Reader γ} {P : σ → Prop}

/-- The store is at each time what a run of the writer reaches. -/
theorem reaches (h : s ≤ t) : Reaches step ok (tl.state s) (tl.state t) := by
  induction t, h using Nat.le_induction with
  | base => exact .refl
  | succ t _ ih =>
    rcases tl.next t with h | ⟨a, hok, hstep⟩
    · rwa [h]
    · exact ih.tail hok hstep

/-- A reader's load, taken apart. -/
theorem load_eq_some {r' : Reader γ} (h : tl.load body r t = some r') :
    r.view ≤ t ∧ ∃ c', body (tl.state t) r.cursor = some (.again c') ∧
      r' = ⟨c', t, r.loads + 1⟩ := by
  obtain ⟨hle, h⟩ := Option.ite_none_right_eq_some.mp h
  refine ⟨hle, ?_⟩
  split at h
  case h_1 c' hc => exact ⟨c', hc, (Option.some.inj h).symm⟩
  case h_2 => cases h

/-- A reader goes on by a load at a time that is not before its view. -/
theorem Reads.again {c' : γ} (h : tl.Reads body c v r) (hle : r.view ≤ t)
    (hbody : body (tl.state t) r.cursor = some (.again c')) :
    tl.Reads body c v ⟨c', t, r.loads + 1⟩ := by
  refine h.tail (a := t) trivial ?_
  rw [load, if_pos hle]
  simp only [hbody]

/-- Induction over the loads of a search. `I t c n` is about the store at the time `t`, the cursor
and the number of loads. -/
theorem Reads.invariant {I : ℕ → γ → ℕ → Prop} (h : tl.Reads body c v r) (h0 : I v c 0)
    (htime : ∀ t t' c n, v ≤ t → t ≤ t' → I t c n → I t' c n)
    (hpass : ∀ t c c' n, v ≤ t → I t c n → body (tl.state t) c = some (.again c') →
      I t c' (n + 1)) :
    v ≤ r.view ∧ I r.view r.cursor r.loads := by
  refine Reaches.invariant (I := fun r => v ≤ r.view ∧ I r.view r.cursor r.loads)
    ⟨le_rfl, h0⟩ ?_ h
  rintro r t r' ⟨hv, hI⟩ - hload
  obtain ⟨hle, c', hbody, rfl⟩ := load_eq_some hload
  exact ⟨hv.trans hle, hpass t _ _ _ (hv.trans hle) (htime _ _ _ _ hv hle hI) hbody⟩

/-- What the invariant of a search gives of its answer. -/
theorem Returns.of_invariant {I : ℕ → γ → ℕ → Prop} {Q : ℕ → δ → ℕ → Prop}
    (h : tl.Returns body c v b t n) (h0 : I v c 0)
    (htime : ∀ t t' c n, v ≤ t → t ≤ t' → I t c n → I t' c n)
    (hpass : ∀ t c c' n, v ≤ t → I t c n → body (tl.state t) c = some (.again c') →
      I t c' (n + 1))
    (hleave : ∀ t c b n, v ≤ t → I t c n → body (tl.state t) c = some (.leave b) → Q t b (n + 1)) :
    v ≤ t ∧ Q t b n := by
  obtain ⟨r, hreads, hle, rfl, hbody⟩ := h
  obtain ⟨hv, hI⟩ := hreads.invariant h0 htime hpass
  exact ⟨hv.trans hle, hleave t _ _ _ (hv.trans hle) (htime _ _ _ _ hv hle hI) hbody⟩

/-- Every run of the writer is part of a history. -/
theorem exists_of_reaches {s₀ s : σ} (h : Reaches step ok s₀ s) :
    ∃ tl : Timeline step ok, tl.state 0 = s₀ ∧ ∃ t, tl.state t = s := by
  induction h with
  | refl => exact ⟨⟨fun _ => s₀, fun _ => Or.inl rfl⟩, rfl, 0, rfl⟩
  | @tail s u a _ hok hstep ih =>
    obtain ⟨tl, h0, t, ht⟩ := ih
    -- The history is cut off at the end of the run so far, and goes on with the last step.
    refine ⟨⟨fun t' => if t' ≤ t then tl.state t' else u, fun t' => ?_⟩,
      by simpa only [Nat.zero_le, if_true] using h0, t + 1, if_neg (Nat.not_succ_le_self t)⟩
    rcases Nat.lt_trichotomy t' t with hlt | rfl | hgt
    · rw [if_pos (show t' + 1 ≤ t from hlt), if_pos hlt.le]
      exact tl.next t'
    · rw [if_neg (by omega), if_pos le_rfl, ht]
      exact Or.inr ⟨a, hok, hstep⟩
    · rw [if_neg (by omega), if_neg (by omega)]
      exact Or.inl rfl

end Timeline

/-! ## Searches of a store at rest -/

/-- A pass that may go wrong, as a pass of a loop that then leaves without a result. -/
def Pass.orFail : Option (Pass γ δ) → Pass γ (Option δ)
  | none => .leave none
  | some (.again c) => .again c
  | some (.leave b) => .leave (some b)

/-- The search of a store that nobody writes meanwhile, with at most `fuel` loads. It gives `none`
where that is not enough, and where a pass goes wrong. -/
def search (body : γ → Option (Pass γ δ)) (fuel : ℕ) (c : γ) : Option δ :=
  (loop (fun c => Pass.orFail (body c)) fuel c).join

/-- A pass after which the search goes on. -/
theorem search_again {body : γ → Option (Pass γ δ)} {fuel : ℕ} {c c' : γ}
    (h : body c = some (.again c')) : search body (fuel + 1) c = search body fuel c' := by
  rw [search, loop_again (by rw [h]; rfl), search]

/-- A search of the store as it is at a time is one that a reader can do which sees that time. -/
theorem Timeline.returns_of_search {tl : Timeline step ok} {body : σ → γ → Option (Pass γ δ)}
    {t v k fuel : ℕ} {c c₀ : γ} {b : δ} (hr : tl.Reads body c₀ v ⟨c, t, k⟩)
    (h : search (body (tl.state t)) fuel c = some b) : ∃ n, tl.Returns body c₀ v b t n := by
  induction fuel generalizing c k with
  | zero => cases h
  | succ fuel ih =>
    cases hb : body (tl.state t) c with
    | none =>
      have hloop : loop (fun c => Pass.orFail (body (tl.state t) c)) (fuel + 1) c = some none :=
        loop_leave (by rw [hb]; rfl)
      rw [search, hloop] at h
      cases h
    | some p =>
      cases p with
      | again c' =>
        rw [search_again hb] at h
        exact ih (hr.again le_rfl hb) h
      | leave b' =>
        have hloop : loop (fun c => Pass.orFail (body (tl.state t) c)) (fuel + 1) c =
            some (some b') := loop_leave (by rw [hb]; rfl)
        rw [search, hloop, Option.join_some] at h
        cases h
        exact ⟨_, _, hr, le_rfl, rfl, hb⟩

/-- Total correctness of a search: no pass goes wrong while `I n` holds, and `n` is the number of
further passes. -/
theorem search_of_variant {body : γ → Option (Pass γ δ)} {I : ℕ → γ → Prop} {Q : δ → Prop}
    {n fuel : ℕ} {c : γ} (hpass : ∀ n c, I n c → ∃ p, body c = some p)
    (hagain : ∀ n c c', I n c → body c = some (.again c') → ∃ m < n, I m c')
    (hleave : ∀ n c b, I n c → body c = some (.leave b) → Q b) (hc : I n c) (hfuel : n < fuel) :
    ∃ b, search body fuel c = some b ∧ Q b := by
  have key : ∃ b, loop (fun c => Pass.orFail (body c)) fuel c = some b ∧
      ∃ b', b = some b' ∧ Q b' := by
    refine loop_of_variant (I := I) ?_ ?_ hc hfuel
    · intro n c c' hI h
      obtain ⟨p, hp⟩ := hpass n c hI
      rw [hp] at h
      cases p with
      | again c'' =>
        obtain rfl : c'' = c' := by simpa [Pass.orFail] using h
        exact hagain n c c'' hI hp
      | leave b => cases h
    · intro n c b hI h
      obtain ⟨p, hp⟩ := hpass n c hI
      rw [hp] at h
      cases p with
      | again c' => cases h
      | leave b' =>
        obtain rfl : some b' = b := by simpa [Pass.orFail] using h
        exact ⟨b', rfl, hleave n c b' hI hp⟩
  obtain ⟨_, hloop, b, rfl, hQ⟩ := key
  exact ⟨b, by rw [search, hloop, Option.join_some], hQ⟩

end CPStudy.Lib

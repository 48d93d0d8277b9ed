import CPStudy.Lib.Count
import CPStudy.MsgQueue.WakeUp

/-!
# The message queue comes to rest

A thread that is in a call and cannot go on waits for a mutex or sleeps. Whoever holds a mutex can
go on, except for the consumer that sleeps with `get_mutex`, so that a queue in which nobody can go
on has either its consumers waiting for a message that is not there or its producers waiting for
room that is not there, never both (`rest`). And it does come to that: `work` bounds what is left
to do of the calls that have begun, each notification paid for by the thread that makes it.
-/

namespace CPStudy.MsgQueue

open Function (update)
open Lib (sumOf sumOf_update sumOf_le)

variable {ι : Type*} {q : Config} {s s' : State ι} {a : Action ι} {t u : ι} {p p' : Pc}

/-- A thread that cannot go on, with what it waits for. -/
def Blocked (s : State ι) : Pc → Prop
  | .idle => True
  | .putLock _ => s.put_mutex ≠ none
  | .putWait _ notified => notified = true → s.put_mutex ≠ none
  | .getLock => s.get_mutex ≠ none
  | .swapLock _ => s.put_mutex ≠ none
  | .swapWait _ notified => notified = true → s.put_mutex ≠ none
  | .nbLock => s.put_mutex ≠ none
  | _ => False

/-- A thread that cannot go on does not hold `put_mutex`. -/
theorem Blocked.holdsPut (h : Blocked s p) : p.holdsPut = false := by
  cases p <;> trivial

/-- Where a thread stands that cannot go on although `put_mutex` is free. -/
theorem Blocked.cases (h : Blocked s p) (hfree : s.put_mutex = none) :
    p = .idle ∨ p.asleepPut = true ∨ p.asleepGet = true ∨ (p = .getLock ∧ s.get_mutex ≠ none) := by
  cases p with
  | idle => exact .inl rfl
  | putLock => exact absurd hfree h
  | putWait msg notified =>
    cases notified with
    | false => exact .inr (.inl rfl)
    | true => exact absurd hfree (h rfl)
  | getLock => exact .inr (.inr (.inr ⟨rfl, h⟩))
  | swapLock => exact absurd hfree h
  | swapWait o notified =>
    cases notified with
    | false => exact .inr (.inr (.inl rfl))
    | true => exact absurd hfree (h rfl)
  | nbLock => exact absurd hfree h
  | _ => exact h.elim

section Rest

variable [DecidableEq ι]

/-- `put_mutex` can be locked unless somebody holds it. -/
theorem lockPut_eq_none (h : lockPut s t p = none) : s.put_mutex ≠ none := by
  intro hfree
  unfold lockPut at h
  rw [hfree] at h
  cases h

variable [Fintype ι]

/-- A signal can be made whether or not somebody waits for it. -/
theorem exists_signalGet (s : State ι) : ∃ w, signalGet s w ≠ none := by
  by_cases hex : ∃ w, (s.pc w).asleepGet = true
  · obtain ⟨w, hw⟩ := hex
    refine ⟨some w, ?_⟩
    dsimp only [signalGet]
    cases hpc : s.pc w with
    | swapWait o notified =>
      rw [hpc] at hw
      cases notified with
      | false => exact Option.some_ne_none _
      | true => cases hw
    | _ =>
      rw [hpc] at hw
      cases hw
  · refine ⟨none, ?_⟩
    unfold signalGet
    rw [if_pos fun w => (Bool.not_eq_true _).mp fun hw => hex ⟨w, hw⟩]
    exact Option.some_ne_none _

/-- A thread with no step is in no call, waits for a mutex or sleeps. -/
theorem blocked_of_runCall (h : ∀ w, runCall q s t w = none) : Blocked s (s.pc t) := by
  have hnone := h none
  -- A signal can always be made: it wakes `w`, or there is nobody to wake.
  obtain ⟨w, hw⟩ := exists_signalGet s
  have hsignal := h w
  unfold runCall at hnone hsignal
  cases hpc : s.pc t with
  | idle => trivial
  | putLock msg =>
    rw [hpc] at hnone
    exact lockPut_eq_none hnone
  | putWait msg notified =>
    rw [hpc] at hnone
    intro hn
    exact lockPut_eq_none ((if_pos hn).symm.trans hnone)
  | putCheck msg =>
    rw [hpc] at hnone
    dsimp only at hnone
    split at hnone <;> cases hnone
  -- So no thread is stuck before a signal, and at the tests both branches go on.
  | putSignal =>
    rw [hpc] at hsignal
    exact absurd (Option.map_eq_none_iff.mp hsignal) hw
  -- Only a mutex that is held stops a thread that is not asleep.
  | getLock =>
    rw [hpc] at hnone
    intro hfree
    dsimp only at hnone
    rw [hfree] at hnone
    cases hnone
  | swapLock o =>
    rw [hpc] at hnone
    exact lockPut_eq_none hnone
  | swapCheck o =>
    rw [hpc] at hnone
    dsimp only at hnone
    split at hnone <;> cases hnone
  | swapWait o notified =>
    rw [hpc] at hnone
    intro hn
    exact lockPut_eq_none ((if_pos hn).symm.trans hnone)
  | nbLock =>
    rw [hpc] at hnone
    exact lockPut_eq_none hnone
  | nbSignal =>
    rw [hpc] at hsignal
    exact absurd (Option.map_eq_none_iff.mp hsignal) hw
  | _ =>
    rw [hpc] at hnone
    cases hnone

/-- In a queue in which nobody can go on nobody holds `put_mutex`. -/
theorem put_mutex_of_rest (hk : Locked s) (hrest : ∀ t w, runCall q s t w = none) :
    s.put_mutex = none := by
  by_contra hne
  obtain ⟨t, ht⟩ := hk.put.exists_of_ne_none hne
  rw [Locked.holdsPut_spot rfl, (blocked_of_runCall (hrest t)).holdsPut] at ht
  cases ht

/-- Nobody is in a call, or the queue blocks, everything that was put was taken and the threads in
a call are consumers that wait for a message, or the queue blocks, is full and the threads in a
call are producers that wait for room. -/
def AtRest (q : Config) (s : State ι) : Prop :=
  (∀ t, s.pc t = .idle) ∨
    (s.nonblock = false ∧ s.gets = s.puts ∧
      ∀ t, s.pc t = .idle ∨ s.pc t = .getLock ∨ (s.pc t).asleepGet = true) ∨
    (s.nonblock = false ∧ q.full s.msg_cnt = true ∧
      ∀ t, s.pc t = .idle ∨ (s.pc t).asleepPut = true)

/-- There is no deadlock: where nobody in a call can go on the queue is at rest. -/
theorem rest (h : Reachable q s) (hrest : ∀ t w, runCall q s t w = none) : AtRest q s := by
  have hk := locked_of_reachable h
  have hw := wakes_of_reachable h
  have hfree := put_mutex_of_rest hk hrest
  have hpc : ∀ t, s.pc t = .idle ∨ (s.pc t).asleepPut = true ∨ (s.pc t).asleepGet = true ∨
      (s.pc t = .getLock ∧ s.get_mutex ≠ none) :=
    fun t => (blocked_of_runCall (hrest t)).cases hfree
  -- Nobody is on the way to wake anybody.
  have hquiet : ∀ b : Pc → Bool, b .idle = false → b .getLock = false →
      (∀ p, b p = true → p.asleepPut = false ∧ p.asleepGet = false) → ¬ ∃ u, b (s.pc u) = true := by
    rintro b hidle hget hawake ⟨u, hu⟩
    rcases hpc u with heq | hput | hasleep | ⟨heq, -⟩
    · rw [heq, hidle] at hu
      cases hu
    · rw [(hawake _ hu).1] at hput
      cases hput
    · rw [(hawake _ hu).2] at hasleep
      cases hasleep
    · rw [heq, hget] at hu
      cases hu
  have hput : ¬ ∃ u, (s.pc u).hasPut = true :=
    hquiet _ rfl rfl fun p hp => by cases p <;> first | exact ⟨rfl, rfl⟩ | cases hp
  have hsignal : ¬ ∃ u, (s.pc u).willSignal = true :=
    hquiet _ rfl rfl fun p hp => by cases p <;> first | exact ⟨rfl, rfl⟩ | cases hp
  have hbroadcast : ¬ ∃ u, (s.pc u).willBroadcast = true :=
    hquiet _ rfl rfl fun p hp => by cases p <;> first | exact ⟨rfl, rfl⟩ | cases hp
  by_cases hsleep : ∃ t, (s.pc t).asleepGet = true
  · obtain ⟨t, ht⟩ := hsleep
    have hcnt : s.msg_cnt = 0 := by
      by_contra hne
      exact hput (hw.get_cnt t ht hne)
    right; left
    refine ⟨?_, ?_, fun u => ?_⟩
    · by_contra hset
      exact hsignal (hw.get_nonblock t ht ((Bool.not_eq_false _).mp hset))
    · obtain ⟨front, g, l, hq⟩ := queued_of_reachable h
      obtain ⟨o, ho⟩ := Pc.exists_local_head ht
      have hlocal : (s.spot t).local_head = some o := by
        rw [State.spot, Pc.local_head_forget, ho]
      obtain ⟨-, rfl, -⟩ := hq.swapping t o hlocal
      have hl : l = [] := List.length_eq_zero_iff.mp (hq.cnt.symm.trans hcnt)
      rw [hq.order, hl]
      simp only [List.append_nil]
    · rcases hpc u with heq | hfull | hasleep | ⟨heq, -⟩
      · exact .inl heq
      · have hfull := hw.put_full u hfull
        rw [hcnt, q.full_zero] at hfull
        cases hfull
      · exact .inr (.inr hasleep)
      · exact .inr (.inl heq)
  · -- With no consumer asleep nobody holds `get_mutex` either, and no consumer waits for it.
    have hget : s.get_mutex = none := by
      by_contra hne
      obtain ⟨t, ht⟩ := hk.get.exists_of_ne_none hne
      rw [Locked.holdsGet_spot rfl] at ht
      rcases hpc t with heq | hput | hasleep | ⟨heq, -⟩
      · rw [heq] at ht
        cases ht
      · rw [Pc.holdsGet_of_asleepPut hput] at ht
        cases ht
      · exact hsleep ⟨t, hasleep⟩
      · rw [heq] at ht
        cases ht
    have hpc' : ∀ t, s.pc t = .idle ∨ (s.pc t).asleepPut = true := by
      intro t
      rcases hpc t with heq | hput | hasleep | ⟨-, hne⟩
      · exact .inl heq
      · exact .inr hput
      · exact absurd ⟨t, hasleep⟩ hsleep
      · exact absurd hget hne
    by_cases hasleep : ∃ t, (s.pc t).asleepPut = true
    · obtain ⟨t, ht⟩ := hasleep
      right; right
      refine ⟨?_, hw.put_full t ht, hpc'⟩
      by_contra hset
      exact hbroadcast (hw.put_nonblock t ht ((Bool.not_eq_false _).mp hset))
    · left
      intro t
      rcases hpc' t with heq | hput
      · exact heq
      · exact absurd ⟨t, hput⟩ hasleep

end Rest

/-- What a thread has left to do of its call, where `n` threads may be woken by a broadcast: every
step takes one off, and who wakes a thread pays for the two steps that it then takes before it
sleeps again. -/
def Pc.work (n : ℕ) : Pc → ℕ
  | .idle => 0
  | .putInit _ => 8
  | .putLock _ => 7
  | .putCheck _ => 6
  | .putWait _ notified => if notified then 7 else 5
  | .putLink _ => 5
  | .putUnlock => 4
  | .putSignal => 3
  | .getLock => 11 + n * 2
  | .getTest => 10 + n * 2
  | .swapHead => 9 + n * 2
  | .swapLock _ => 8 + n * 2
  | .swapCheck _ => 7 + n * 2
  | .swapWait _ notified => if notified then 8 + n * 2 else 6 + n * 2
  | .swapLists _ => 6 + n * 2
  | .swapUnlock _ => 5
  | .getMsg => 4
  | .getNext _ => 3
  | .getStore _ _ => 2
  | .getUnlock _ => 1
  | .nbLock => 6 + n * 2
  | .nbSignal => 5 + n * 2
  | .nbBroadcast => 2 + n * 2
  | .nbUnlock => 1

/-- Locking `put_mutex` is a step. -/
theorem Locks.work_lt {n : ℕ} (h : Locks p p') : p'.work n < p.work n := by
  cases h <;> simp only [Pc.work] <;> grind

/-- Unlocking it is one. -/
theorem Unlocks.work_lt {n : ℕ} (h : Unlocks p p') : p'.work n < p.work n := by
  cases h <;> simp only [Pc.work] <;> omega

/-- A signal pays for the thread that it wakes. -/
theorem Signals.work_lt {n : ℕ} (h : Signals p p') : p'.work n + 2 < p.work n := by
  cases h <;> simp only [Pc.work] <;> omega

/-- Who is woken by a broadcast has two steps more to take. -/
theorem work_wakeAllPut (pc : ι → Pc) (n : ℕ) (t : ι) :
    (wakeAllPut pc t).work n ≤ (pc t).work n + 2 := by
  rcases wakeAllPut_cases pc t with ⟨msg, b, hpc, heq⟩ | ⟨-, heq⟩
  · rw [heq, hpc]
    cases b <;> simp [Pc.work]
  · rw [heq]
    omega

section Work

variable [Fintype ι]

/-- What is left to do of the calls that have begun. -/
def work (s : State ι) : ℕ := sumOf (Pc.work (Fintype.card ι)) s.pc

variable [DecidableEq ι]

/-- One thread goes on. -/
theorem work_lt_of_update (hpc : s.pc t = p) (hpc' : s'.pc = update s.pc t p')
    (hlt : p'.work (Fintype.card ι) < p.work (Fintype.card ι)) : work s' < work s := by
  have hsum := sumOf_update s.pc (Pc.work (Fintype.card ι)) t p'
  rw [← hpc', hpc] at hsum
  change work s' + _ = work s + _ at hsum
  omega

/-- One thread goes on and may wake the producers. -/
theorem work_lt_of_wakeAllPut {b : Bool} (hpc : s.pc t = p) (hp : p.holdsPut = true)
    (hpc' : s'.pc = update (if b then wakeAllPut s.pc else s.pc) t p')
    (hlt : p'.work (Fintype.card ι) + Fintype.card ι * 2 < p.work (Fintype.card ι)) :
    work s' < work s := by
  have hwake : sumOf (Pc.work (Fintype.card ι)) (if b then wakeAllPut s.pc else s.pc) ≤
      work s + Fintype.card ι * 2 := by
    apply sumOf_le
    intro u
    cases b with
    | true => exact work_wakeAllPut s.pc _ u
    | false => exact Nat.le_add_right _ 2
  have hself : (if b then wakeAllPut s.pc else s.pc) t = p := by
    cases b with
    | false => exact hpc
    | true =>
      rcases wakeAllPut_cases s.pc t with ⟨msg, n, hwait, -⟩ | ⟨-, heq⟩
      · -- A producer that waits does not hold the mutex.
        rw [hpc] at hwait
        rw [hwait] at hp
        cases hp
      · exact heq.trans hpc
  have hsum := sumOf_update (if b then wakeAllPut s.pc else s.pc) (Pc.work (Fintype.card ι)) t p'
  rw [← hpc', hself] at hsum
  change work s' + _ = _ at hsum
  omega

/-- One thread goes on and wakes a consumer. -/
theorem work_lt_of_signal {w : ι} {o : ℤ} (hpc : s.pc t = p) (hs : Signals p p')
    (hw : s.pc w = .swapWait o false) :
    work ((s.goto w (.swapWait o true)).goto t p') < work s := by
  have hne : t ≠ w := by
    rintro rfl
    rw [hw] at hpc
    subst hpc
    cases hs
  have hlt := hs.work_lt (n := Fintype.card ι)
  have hsum := sumOf_update s.pc (Pc.work (Fintype.card ι)) w (.swapWait o true)
  have hsum' := sumOf_update (update s.pc w (.swapWait o true)) (Pc.work (Fintype.card ι)) t p'
  rw [Function.update_of_ne hne, hpc] at hsum'
  rw [hw] at hsum
  change work ((s.goto w (.swapWait o true)).goto t p') + _ = _ at hsum'
  change _ = work s + _ at hsum
  simp only [Pc.work, Bool.false_eq_true, if_false, if_true] at hsum
  omega

/-- Every step of a call leaves less to do. -/
theorem work_lt {w : Option ι} (h : runCall q s t w = some s') : work s' < work s := by
  cases effect_runCall h with
  | init hpc => exact work_lt_of_update hpc rfl (by simp only [Pc.work]; omega)
  | lock hpc hl => exact work_lt_of_update hpc rfl hl.work_lt
  | unlock hpc hl => exact work_lt_of_update hpc rfl hl.work_lt
  | sleepPut hpc => exact work_lt_of_update hpc rfl (by simp [Pc.work])
  | passPut hpc => exact work_lt_of_update hpc rfl (by simp [Pc.work])
  | link hpc => exact work_lt_of_update hpc rfl (by simp [Pc.work])
  | signal hpc hs hw => exact work_lt_of_signal hpc hs hw
  | lost hpc hs =>
    have hlt := hs.work_lt (n := Fintype.card ι)
    exact work_lt_of_update hpc rfl (by omega)
  | lockGet hpc => exact work_lt_of_update hpc rfl (by simp [Pc.work])
  | found hpc => exact work_lt_of_update hpc rfl (by simp only [Pc.work]; omega)
  | notFound hpc => exact work_lt_of_update hpc rfl (by simp [Pc.work])
  | swapHead hpc => exact work_lt_of_update hpc rfl (by simp [Pc.work])
  | sleepGet hpc => exact work_lt_of_update hpc rfl (by simp [Pc.work])
  | passGet hpc => exact work_lt_of_update hpc rfl (by simp [Pc.work])
  | swapLists hpc => exact work_lt_of_wakeAllPut hpc rfl rfl (by simp only [Pc.work]; omega)
  | readMsg hpc => exact work_lt_of_update hpc rfl (by simp [Pc.work])
  | readNext hpc => exact work_lt_of_update hpc rfl (by simp [Pc.work])
  | take hpc => exact work_lt_of_update hpc rfl (by simp [Pc.work])
  | unlockGet hpc => exact work_lt_of_update hpc rfl (by simp [Pc.work])
  | broadcast hpc =>
    exact work_lt_of_wakeAllPut (b := true) hpc rfl rfl (by simp only [Pc.work]; omega)

/-- The steps of the calls that have begun. -/
def IsRun (_ : State ι) (a : Action ι) : Prop := ∃ t w, a = .run t w

/-- Left to themselves the calls that have begun come to rest, in whatever order their threads go
on: no run of their steps is longer than `work`, where such a run cannot go on the queue is at
rest, and from every state some run comes there. -/
theorem comes_to_rest (h : Reachable q s) :
    (∀ n s', Lib.Steps (step q) IsRun s n s' →
      n ≤ work s ∧ ((∀ t w, runCall q s' t w = none) → AtRest q s')) ∧
      ∃ s', Lib.Reaches (step q) IsRun s s' ∧ ∀ t w, runCall q s' t w = none := by
  have hdec : ∀ (s : State ι) a s', IsRun s a → step q s a = some s' → work s' < work s := by
    rintro s a s' ⟨t, w, rfl⟩ hstep
    exact work_lt hstep
  constructor
  · intro n s' hrun
    have hle := hrun.add_le hdec
    refine ⟨by omega, fun hrest => rest ?_ hrest⟩
    obtain ⟨hne, h1, h2, mem, hs⟩ := h
    refine ⟨hne, h1, h2, mem, hs.trans (hrun.reaches.mono ?_)⟩
    rintro s a ⟨t, w, rfl⟩
    trivial
  · obtain ⟨s', hrun, hrest⟩ := Lib.Reaches.exists_rest hdec s
    exact ⟨s', hrun, fun t w => hrest (.run t w) ⟨t, w, rfl⟩⟩

/-- A producer and a consumer are in their calls. -/
theorem comes_to_rest_two : ∃ s : State (Fin 2), s.pc 0 = .putInit 100 ∧ s.pc 1 = .getLock ∧
    (∀ n s', Lib.Steps (step ⟨16, 24, 8, 1⟩) IsRun s n s' → n ≤ work s ∧
      ((∀ t w, runCall ⟨16, 24, 8, 1⟩ s' t w = none) → AtRest ⟨16, 24, 8, 1⟩ s')) ∧
      ∃ s', Lib.Reaches (step ⟨16, 24, 8, 1⟩) IsRun s s' ∧
        ∀ t w, runCall ⟨16, 24, 8, 1⟩ s' t w = none := by
  obtain ⟨s, hs, hp⟩ := exists_reachable (ι := Fin 2) (q := ⟨16, 24, 8, 1⟩) (fun _ => 0)
    (by decide) [.put 0 100, .get 1]
    (fun s => decide (s.pc 0 = .putInit 100 ∧ s.pc 1 = .getLock)) (by decide +kernel)
  obtain ⟨hput, hget⟩ := of_decide_eq_true hp
  exact ⟨s, hput, hget, comes_to_rest hs⟩

end Work

end CPStudy.MsgQueue

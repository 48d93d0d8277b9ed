import CPStudy.MsgQueue.WakeUp

/-!
# How much the message queue holds in blocking mode

While nobody calls `msgqueue_set_nonblock` a message is linked in only where there was room, and
nobody changes that between the test and the store, which are made under `put_mutex`. The
producers' list has at most `msg_max` messages then, and so has the consumers' list, which is what
the producers' one was at the last swap: together twice `msg_max`, as the header says. A consumer
swaps the lists only where there is something to take, so that `msgqueue_get` never returns `NULL`.
-/

namespace CPStudy.MsgQueue

open Function (update)

variable {ι : Type*} {q : Config} {s s' : State ι} {a : Action ι} {t u : ι} {p p' : Pc} {n n' : ℕ}

/-- The action is the call of `msgqueue_set_nonblock`. -/
def Action.setsNonblock : Action ι → Bool
  | .setNonblock _ => true
  | _ => false

/-- What a thread has tested, while the queue blocks. -/
def Tested (q : Config) (msg_cnt : ℕ) : Pc → Prop
  | .putLink _ => q.full msg_cnt = false
  | .swapLists _ => msg_cnt ≠ 0
  | .swapUnlock cnt => cnt ≠ 0
  | .getUnlock none => False
  | _ => True

/-- Without `put_mutex` a thread has tested nothing about `msg_cnt`. -/
theorem Tested.of_holdsPut (h : Tested q n p) (hp : p.holdsPut = false) : Tested q n' p := by
  cases p with
  | getUnlock msg => cases msg <;> exact h
  | _ => first | exact h | cases hp

/-- What was tested does not depend on the notification. -/
theorem Tested.forget (h : Tested q n p) : Tested q n p.forget := by
  cases p <;> exact h

/-- The queue in blocking mode. -/
structure Bounded (q : Config) (s : State ι) : Prop where
  /-- Nobody has set `nonblock`. -/
  block : s.nonblock = false
  /-- What the threads have tested. -/
  tested : ∀ t, Tested q s.msg_cnt (s.spot t)
  /-- The producers' list. -/
  cnt : q.msg_max ≠ 0 → s.msg_cnt ≤ q.msg_max
  /-- The consumers' list. -/
  held : q.msg_max ≠ 0 → s.puts.length ≤ s.gets.length + s.msg_cnt + q.msg_max

/-- Where there is room there is room for one more. -/
theorem Config.succ_le_of_room (h : q.full n = false) (hmax : q.msg_max ≠ 0) :
    n + 1 ≤ q.msg_max := by
  unfold Config.full at h
  rw [if_neg hmax] at h
  have hle := of_decide_eq_false h
  omega

namespace Bounded

/-- The new queue is empty. -/
theorem init (mem : ℤ → ℤ) : Bounded q (State.init ι q mem) where
  block := rfl
  tested := fun _ => trivial
  cnt := fun _ => Nat.zero_le _
  held := fun _ => Nat.zero_le _

/-- Only the places of the threads, the numbers and the history count. -/
theorem congr (h : Bounded q s) (hspot : s'.spot = s.spot) (hnb : s'.nonblock = false)
    (hsame : s'.msg_cnt = s.msg_cnt ∧ s'.puts = s.puts ∧ s'.gets = s.gets) : Bounded q s' := by
  obtain ⟨hcnt, hputs, hgets⟩ := hsame
  constructor
  case block => exact hnb
  case tested => rw [hspot, hcnt]; exact h.tested
  case cnt => rw [hcnt]; exact h.cnt
  case held => rw [hcnt, hputs, hgets]; exact h.held

variable [DecidableEq ι]

/-- A thread goes on, and no message comes or goes. -/
theorem goOn (h : Bounded q s) (hspot : s'.spot = update s.spot t p'.forget)
    (hnb : s'.nonblock = s.nonblock)
    (hsame : s'.msg_cnt = s.msg_cnt ∧ s'.puts = s.puts ∧ s'.gets = s.gets)
    (hp : Tested q s.msg_cnt p') : Bounded q s' := by
  obtain ⟨hcnt, hputs, hgets⟩ := hsame
  constructor
  case block => rw [hnb, h.block]
  case tested =>
    intro u
    rw [hcnt]
    -- Only the thread that goes on can have tested something new, since the count is the same.
    rcases Queued.spot_cases hspot u with ⟨-, hu⟩ | ⟨-, hu⟩
    · rw [hu]
      exact hp.forget
    · rw [hu]
      exact h.tested u
  case cnt => rw [hcnt]; exact h.cnt
  case held => rw [hcnt, hputs, hgets]; exact h.held

/-- What the threads have tested after a step of the holder of `put_mutex`. -/
theorem tested_of_holder (h : Bounded q s) (hk : Locked s) (hpc : s.pc t = p)
    (hp : p.holdsPut = true) (hspot : s'.spot = update s.spot t p')
    (hp' : Tested q s'.msg_cnt p') : ∀ u, Tested q s'.msg_cnt (s'.spot u) := by
  intro u
  rcases Queued.spot_cases hspot u with ⟨-, hu⟩ | ⟨hut, hu⟩
  · rw [hu]
    exact hp'
  -- The others are outside `put_mutex`, so that they have tested nothing about the count.
  · rw [hu]
    exact (h.tested u).of_holdsPut (hk.put.eq_false_of_ne ((Locked.holdsPut_spot hpc).trans hp) hut)

/-- A message is linked in where there was room. -/
theorem link (h : Bounded q s) (hk : Locked s) {msg : ℤ} (hpc : s.pc t = .putLink msg) :
    Bounded q ({ s with
      mem := update s.mem s.put_tail (q.link msg)
      put_tail := q.link msg
      msg_cnt := s.msg_cnt + 1
      puts := s.puts ++ [msg] }.goto t .putUnlock) where
  block := h.block
  tested := h.tested_of_holder hk hpc rfl (spot_goto _ t _) trivial
  cnt := by
    intro hmax
    -- There was room when the thread tested, and the count has not changed since.
    have htested := h.tested t
    rw [spot_eq hpc] at htested
    exact Config.succ_le_of_room htested hmax
  held := by
    intro hmax
    have hheld := h.held hmax
    change (s.puts ++ [msg]).length ≤ s.gets.length + (s.msg_cnt + 1) + q.msg_max
    rw [List.length_append, List.length_singleton]
    omega

/-- The lists are swapped, and the consumers have as many messages as the producers had. -/
theorem swapLists (h : Bounded q s) (hk : Locked s) {front : ℤ} {g l : List ℤ}
    (hq : Queued q s front g l) {o : ℤ} {b : Bool} (hpc : s.pc t = .swapLists o) :
    Bounded q ({ s with
      pc := if b then wakeAllPut s.pc else s.pc
      put_head := o
      put_tail := o
      msg_cnt := 0 }.goto t (.swapUnlock s.msg_cnt)) where
  block := h.block
  tested := by
    have htested := h.tested t
    rw [spot_eq hpc] at htested
    exact h.tested_of_holder hk hpc rfl (spot_wakeAllPut (p := .swapUnlock s.msg_cnt) rfl) htested
  cnt := fun _ => Nat.zero_le _
  held := by
    intro hmax
    have hle := h.cnt hmax
    have hlocal : (s.spot t).local_head = some o := by
      rw [spot_eq hpc]
      rfl
    -- The consumers had none left: what is in the queue is what the producers had.
    obtain ⟨-, rfl, -⟩ := hq.swapping t o hlocal
    change s.puts.length ≤ s.gets.length + 0 + q.msg_max
    rw [hq.order, List.nil_append, List.length_append, ← hq.cnt]
    omega

/-- A message is taken out. -/
theorem take (h : Bounded q s) {msg next : ℤ} :
    Bounded q ({ s with
      mem := update s.mem s.get_head next
      gets := s.gets ++ [msg] }.goto t (.getUnlock (some msg))) where
  block := h.block
  tested := by
    intro u
    rcases Queued.spot_cases (spot_goto { s with
      mem := update s.mem s.get_head next
      gets := s.gets ++ [msg] } t (.getUnlock (some msg))) u with ⟨-, hu⟩ | ⟨-, hu⟩
    · rw [hu]
      trivial
    · rw [hu]
      exact h.tested u
  cnt := h.cnt
  held := by
    intro hmax
    have hheld := h.held hmax
    change s.puts.length ≤ (s.gets ++ [msg]).length + s.msg_cnt + q.msg_max
    rw [List.length_append, List.length_singleton]
    omega

/-- Every step but the call of `msgqueue_set_nonblock` keeps the queue within its bounds. -/
theorem step (h : Bounded q s) (hk : Locked s) {front : ℤ} {g l : List ℤ}
    (hq : Queued q s front g l) (ha : a.setsNonblock = false) (he : Effect q s a s') :
    Bounded q s' := by
  cases he with
  | put hpc => exact h.goOn (spot_goto _ _ _) rfl ⟨rfl, rfl, rfl⟩ trivial
  | get hpc => exact h.goOn (spot_goto _ _ _) rfl ⟨rfl, rfl, rfl⟩ trivial
  -- The one step that is excluded.
  | setNonblock hpc => cases ha
  | setBlock => exact h.congr rfl rfl ⟨rfl, rfl, rfl⟩
  | init hpc => exact h.goOn (spot_goto _ _ _) rfl ⟨rfl, rfl, rfl⟩ trivial
  | lock hpc hl =>
    refine h.goOn (spot_goto _ _ _) rfl ⟨rfl, rfl, rfl⟩ ?_
    cases hl <;> trivial
  | @unlock t w p p' hpc hl =>
    refine h.goOn (spot_goto _ _ _) rfl ⟨rfl, rfl, rfl⟩ ?_
    cases hl with
    -- Nobody comes to unlock with the count `0`: there was something to take.
    | swapNull =>
      have htested := h.tested t
      rw [spot_eq hpc] at htested
      exact htested rfl
    | _ => trivial
  | sleepPut hpc => exact h.goOn (spot_goto _ _ _) rfl ⟨rfl, rfl, rfl⟩ trivial
  -- `nonblock` is clear, so the loop was left because of the count, here and in `passGet`.
  | passPut hpc hroom =>
    refine h.goOn (spot_goto _ _ _) rfl ⟨rfl, rfl, rfl⟩ (hroom.resolve_right fun hset => ?_)
    rw [h.block] at hset
    cases hset
  | link hpc => exact h.link hk hpc
  | signal hpc hs hw =>
    refine h.goOn (spot_signal hw) rfl ⟨rfl, rfl, rfl⟩ ?_
    cases hs <;> trivial
  | lost hpc hs =>
    refine h.goOn (spot_goto _ _ _) rfl ⟨rfl, rfl, rfl⟩ ?_
    cases hs <;> trivial
  | lockGet hpc => exact h.goOn (spot_goto _ _ _) rfl ⟨rfl, rfl, rfl⟩ trivial
  | found hpc => exact h.goOn (spot_goto _ _ _) rfl ⟨rfl, rfl, rfl⟩ trivial
  | notFound hpc => exact h.goOn (spot_goto _ _ _) rfl ⟨rfl, rfl, rfl⟩ trivial
  | swapHead hpc => exact h.goOn (spot_goto _ _ _) rfl ⟨rfl, rfl, rfl⟩ trivial
  | sleepGet hpc => exact h.goOn (spot_goto _ _ _) rfl ⟨rfl, rfl, rfl⟩ trivial
  | passGet hpc hcnt =>
    refine h.goOn (spot_goto _ _ _) rfl ⟨rfl, rfl, rfl⟩ (hcnt.resolve_right fun hset => ?_)
    rw [h.block] at hset
    cases hset
  | swapLists hpc => exact h.swapLists hk hq hpc
  | readMsg hpc => exact h.goOn (spot_goto _ _ _) rfl ⟨rfl, rfl, rfl⟩ trivial
  | readNext hpc => exact h.goOn (spot_goto _ _ _) rfl ⟨rfl, rfl, rfl⟩ trivial
  | take hpc => exact h.take
  | unlockGet hpc => exact h.goOn (spot_goto _ _ _) rfl ⟨rfl, rfl, rfl⟩ trivial
  | broadcast hpc =>
    exact h.goOn (spot_wakeAllPut (b := true) rfl) rfl ⟨rfl, rfl, rfl⟩ trivial
  | spuriousPut hpc => exact h.congr (spot_notify (by rw [hpc]; rfl)) h.block ⟨rfl, rfl, rfl⟩
  | spuriousGet hpc => exact h.congr (spot_notify (by rw [hpc]; rfl)) h.block ⟨rfl, rfl, rfl⟩
  | write => exact h.congr rfl h.block ⟨rfl, rfl, rfl⟩

end Bounded

variable [DecidableEq ι] [Fintype ι]

/-- What the callers keep to while the queue blocks. -/
def Blocking (q : Config) (s : State ι) (a : Action ι) : Prop :=
  Permits q s a ∧ a.setsNonblock = false

/-- The states that the queue can come to while nobody calls `msgqueue_set_nonblock`. -/
def BlockingReachable (q : Config) (s : State ι) : Prop :=
  q.head1 ≠ q.head2 ∧ q.head1 ≠ 0 ∧ q.head2 ≠ 0 ∧
    ∃ mem, Lib.Reaches (step q) (Blocking q) (State.init ι q mem) s

/-- They are reachable. -/
theorem BlockingReachable.reachable (h : BlockingReachable q s) : Reachable q s := by
  obtain ⟨hne, h1, h2, mem, hrun⟩ := h
  exact ⟨hne, h1, h2, mem, hrun.mono fun _ _ hok => hok.1⟩

/-- The queue is within its bounds. -/
theorem bounded_of_reachable (h : BlockingReachable q s) : Bounded q s := by
  obtain ⟨hne, h1, h2, mem, hrun⟩ := h
  refine Lib.Reaches.invariant_of (J := Reachable q) (I := Bounded q) ?_ (Bounded.init mem) ?_ hrun
  · exact fun s hs => BlockingReachable.reachable ⟨hne, h1, h2, mem, hs⟩
  · intro s a s' hr hs hok hstep
    obtain ⟨front, g, l, hq⟩ := queued_of_reachable hr
    exact hs.step (locked_of_reachable hr) hq hok.2 (effect_of_step hok.1 hstep)

/-- A list of actions that the queue and its callers can take, as a run. -/
theorem exists_blockingReachable (mem : ℤ → ℤ)
    (hq : q.head1 ≠ q.head2 ∧ q.head1 ≠ 0 ∧ q.head2 ≠ 0) (as : List (Action ι))
    (f : State ι → Bool)
    (h : (Lib.replay (MsgQueue.step q)
      (fun s a => decide (Permits q s a) && !a.setsNonblock)
      (State.init ι q mem) as).any f = true) :
    ∃ s, BlockingReachable q s ∧ f s = true := by
  obtain ⟨s, hs, hf⟩ := Lib.exists_reaches (MsgQueue.step q)
    (fun s a => decide (Permits q s a) && !a.setsNonblock) (State.init ι q mem) as f h
  refine ⟨s, ⟨hq.1, hq.2.1, hq.2.2, mem, hs.mono ?_⟩, hf⟩
  intro s a hok
  obtain ⟨hpermits, hset⟩ := Bool.and_eq_true_iff.mp hok
  rw [Bool.not_eq_true'] at hset
  exact ⟨of_decide_eq_true hpermits, hset⟩

/-- In blocking mode at most `msg_max` messages wait in the producers' list and at most twice as
many in the queue. Where `msg_max` is `0` the test for room never fails, and no producer ever
sleeps. -/
theorem capacity (h : BlockingReachable q s) :
    (q.msg_max ≠ 0 → s.msg_cnt ≤ q.msg_max ∧ s.puts.length ≤ s.gets.length + 2 * q.msg_max) ∧
      (q.msg_max = 0 → ∀ t, (s.pc t).asleepPut = false) := by
  have hb := bounded_of_reachable h
  constructor
  · intro hmax
    have hcnt := hb.cnt hmax
    have hheld := hb.held hmax
    exact ⟨hcnt, by omega⟩
  · intro hmax t
    by_contra hsleep
    have hfull := (wakes_of_reachable h.reachable).put_full t ((Bool.not_eq_false _).mp hsleep)
    unfold Config.full at hfull
    rw [if_pos hmax] at hfull
    cases hfull

/-- With room for one message there can be two in the queue. -/
theorem capacity_two : ∃ s : State (Fin 2), s.puts = [100, 200] ∧ s.gets = [] ∧ s.msg_cnt ≤ 1 ∧
    s.puts.length ≤ s.gets.length + 2 * 1 := by
  obtain ⟨s, hs, hp⟩ := exists_blockingReachable (ι := Fin 2) (q := ⟨16, 24, 8, 1⟩)
    (fun _ => 0) (by decide)
    (.put 0 100 :: List.replicate 6 (.run 0 none) ++ .get 1 :: List.replicate 7 (.run 1 none) ++
      .put 0 200 :: List.replicate 6 (.run 0 none))
    (fun s => decide (s.puts = [100, 200] ∧ s.gets = [])) (by decide +kernel)
  obtain ⟨hputs, hgets⟩ := of_decide_eq_true hp
  exact ⟨s, hputs, hgets, (capacity hs).1 (by decide)⟩

/-- In blocking mode `msgqueue_get` never returns `NULL`. -/
theorem get_ne_null (h : BlockingReachable q s) (t : ι) : s.pc t ≠ .getUnlock none := by
  intro hpc
  have htested := (bounded_of_reachable h).tested t
  rw [spot_eq hpc] at htested
  exact htested

/-- A consumer that has slept, and was woken once while there was nothing to take, is about to
return what the producer has put. -/
theorem get_ne_null_one : ∃ s : State (Fin 2), s.pc 1 = .getUnlock (some 100) ∧
    s.pc 1 ≠ .getUnlock none := by
  obtain ⟨s, hs, hp⟩ := exists_blockingReachable (ι := Fin 2) (q := ⟨16, 24, 8, 1⟩)
    (fun _ => 0) (by decide)
    (.get 1 :: List.replicate 5 (.run 1 none) ++ .spurious 1 :: List.replicate 2 (.run 1 none) ++
      .put 0 100 :: List.replicate 5 (.run 0 none) ++ .run 0 (some 1) ::
      List.replicate 7 (.run 1 none))
    (fun s => decide (s.pc 1 = .getUnlock (some 100))) (by decide +kernel)
  exact ⟨s, of_decide_eq_true hp, get_ne_null hs 1⟩

end CPStudy.MsgQueue

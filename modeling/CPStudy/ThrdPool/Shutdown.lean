import CPStudy.ThrdPool.Effect

/-!
# Shutdown of the C thread pool

After the `pthread_cond_broadcast` of some `__nonblock` no worker is waiting any more. A worker
that is about to wait has read `block` as 1 and holds the mutex since, and `block` is cleared under
the mutex; so once it is cleared no worker is about to wait, and those that wait already are woken
by the broadcast that follows (`NoSleep`). And once `quit` is set, each worker pops at most one
more task: only a worker that is past its test of `quit` can pop at all.
-/

namespace CPStudy.ThrdPool

open Function (update)

variable {n : ℕ} {P A H X : Type*}

/-- The worker has the mutex at its program point. -/
def WorkerPc.hasMutex : WorkerPc A H X → Prop
  | .blockTest => True
  | .unlockNull => True
  | .condWait => True
  | .unlock => True
  | _ => False

/-- The thread has the mutex at its program point in a call. -/
def CallPc.hasMutex : CallPc A H X → Prop
  | .termBlock => True
  | .termUnlock => True
  | _ => False

/-- Who owns the mutex. -/
structure Locked (s : State n P A H X) : Prop where
  /-- A worker with the mutex is its owner. -/
  worker : ∀ w, (s.worker w).hasMutex → s.owner = some (.inl w)
  /-- A thread with the mutex in a call is its owner. -/
  call : ∀ t, (s.call t).hasMutex → s.owner = some t
  /-- A worker in a call is inside a handler. -/
  running : ∀ w, s.call (.inl w) ≠ .idle → ∃ post, s.worker w = .running post

/-- What `block` says about the workers that wait. -/
structure NoSleep (s : State n P A H X) : Prop where
  /-- Once `block` is cleared no worker is about to wait. -/
  nobody : s.block = false → ∀ w, s.worker w ≠ .condWait
  /-- `block` is cleared before the broadcast. -/
  cleared : ∀ t, s.call t = .termUnlock ∨ s.call t = .termBroadcast → s.block = false
  /-- After the broadcast nobody waits. -/
  awake : s.broadcasted = true → s.block = false ∧ ∀ w, s.worker w ≠ .waiting

variable {s s' : State n P A H X} [DecidableEq A] [DecidableEq P] {a : Action n P A H X}

omit [DecidableEq A] [DecidableEq P] in
/-- Only one worker has the mutex, and no thread has it in a call meanwhile. -/
theorem Locked.worker_alone (h : Locked s) {w : Fin n} (hw : (s.worker w).hasMutex) :
    (∀ w', (s.worker w').hasMutex → w' = w) ∧ ∀ t, ¬(s.call t).hasMutex := by
  have hown := h.worker w hw
  constructor
  · intro w' hw'
    have hown' := h.worker w' hw'
    rw [hown] at hown'
    simpa using hown'.symm
  · intro t ht
    have hown' := h.call t ht
    rw [hown] at hown'
    obtain rfl : t = .inl w := by simpa using hown'.symm
    -- A worker in a call is inside a handler, without the mutex.
    obtain ⟨post, hpost⟩ := h.running w (by rintro heq; simp [heq, CallPc.hasMutex] at ht)
    simp [hpost, WorkerPc.hasMutex] at hw

omit [DecidableEq A] [DecidableEq P] in
/-- A thread that has the mutex in a call is the only one in a call that has it, and no worker has
it in its loop. -/
theorem Locked.call_alone (h : Locked s) {t : Thread n P} (ht : (s.call t).hasMutex) :
    (∀ w, ¬(s.worker w).hasMutex) ∧ ∀ t', (s.call t').hasMutex → t' = t := by
  refine ⟨fun w hw => (h.worker_alone hw).2 t ht, fun t' ht' => ?_⟩
  have hown := h.call t ht
  rw [h.call t' ht'] at hown
  simpa using hown

omit [DecidableEq A] [DecidableEq P] in
/-- A worker that runs no handler is in no call. -/
theorem Locked.idle (h : Locked s) {w : Fin n} (hw : ∀ post, s.worker w ≠ .running post) :
    s.call (.inl w) = .idle := by
  by_contra hc
  obtain ⟨post, hpost⟩ := h.running w hc
  exact hw post hpost

omit [DecidableEq A] [DecidableEq P] in
/-- The owner, after a step of a worker that does not lock the mutex. -/
theorem Locked.worker_move (h : Locked s) {w : Fin n} {pc : WorkerPc A H X}
    (hpc : pc.hasMutex → (s.worker w).hasMutex) (v : Fin n)
    (hv : (update s.worker w pc v).hasMutex) : s.owner = some (.inl v) := by
  by_cases hvw : v = w
  · subst hvw
    exact h.worker v (hpc (by simpa using hv))
  · exact h.worker v (by simpa [hvw] using hv)

omit [DecidableEq A] [DecidableEq P] in
/-- The workers in a call, after a step of one that is in none. -/
theorem Locked.running_move (h : Locked s) {w : Fin n} {pc : WorkerPc A H X}
    (hw : s.call (.inl w) = .idle) (v : Fin n) (hv : s.call (.inl v) ≠ .idle) :
    ∃ post, update s.worker w pc v = .running post := by
  have hvw : v ≠ w := by
    rintro rfl
    exact hv hw
  rw [Function.update_of_ne hvw]
  exact h.running v hv

omit [DecidableEq A] in
/-- The owner, after a step of a call that does not lock the mutex. -/
theorem Locked.call_move (h : Locked s) {t : Thread n P} {pc : CallPc A H X}
    (hpc : pc.hasMutex → (s.call t).hasMutex) (u : Thread n P)
    (hu : (update s.call t pc u).hasMutex) : s.owner = some u := by
  by_cases hut : u = t
  · subst hut
    exact h.call u (hpc (by simpa using hu))
  · exact h.call u (by simpa [hut] using hu)

omit [DecidableEq A] in
/-- The workers in a call, after a step of a thread that may be in one. -/
theorem Locked.running_call (h : Locked s) {t : Thread n P} {pc : CallPc A H X}
    (ht : ∀ w, t = .inl w → ∃ post, s.worker w = .running post) (w : Fin n)
    (hw : update s.call t pc (.inl w) ≠ .idle) : ∃ post, s.worker w = .running post := by
  by_cases hwt : .inl w = t
  · exact ht w hwt.symm
  · exact h.running w (by simpa [hwt] using hw)

omit [DecidableEq A] [DecidableEq P] in
/-- A thread in a call may be in one. -/
theorem Locked.running_of_call (h : Locked s) {t : Thread n P} (ht : s.call t ≠ .idle) (w : Fin n)
    (hw : t = .inl w) : ∃ post, s.worker w = .running post :=
  h.running w (hw ▸ ht)

/-- Every step keeps the mutex with its owner. -/
theorem Locked.step (h : Locked s) (heff : Effect s a s') : Locked s' := by
  cases heff with
  | leave w hw | sleep w hw | unlock w hw =>
    -- The worker releases the mutex, which nobody else has.
    obtain ⟨hw', ht'⟩ := h.worker_alone (w := w) (by rw [hw]; trivial)
    refine { worker := fun v hv => ?_, call := fun t ht => absurd ht (ht' t),
             running := h.running_move (h.idle (by simp [hw])) }
    by_cases hvw : v = w
    · subst hvw
      simp [WorkerPc.hasMutex] at hv
    · simp only [Function.update_of_ne hvw] at hv
      exact absurd (hw' v hv) hvw
  | termUnlock t hc =>
    -- The thread releases the mutex, which nobody else has.
    obtain ⟨hw', ht'⟩ := h.call_alone (t := t) (by rw [hc]; trivial)
    refine { worker := fun w hw => absurd hw (hw' w), call := fun u hu => ?_,
             running := h.running_call (h.running_of_call (by simp [hc])) }
    by_cases hut : u = t
    · subst hut
      simp [CallPc.hasMutex] at hu
    · simp only [Function.update_of_ne hut] at hu
      exact absurd (ht' u hu) hut
  | broadcast t hc =>
    have hwake := wakeAll_cases s.worker
    refine { worker := fun w hm => h.worker w ?_, call := h.call_move (by simp [CallPc.hasMutex]),
             running := fun w hw => ?_ }
    · have hm' : (wakeAll s.worker w).hasMutex := hm
      rcases hwake w with ⟨-, heq⟩ | ⟨-, heq⟩ <;> rw [heq] at hm'
      · exact hm'.elim
      · exact hm'
    · obtain ⟨post, hpost⟩ := h.running_call (h.running_of_call (by simp [hc])) w hw
      exact ⟨post, by simp [wakeAll, hpost]⟩
  | lock w hw ho | relock w hw ho =>
    -- Nobody has the mutex before.
    refine { worker := fun v hv => ?_, call := fun t ht => ?_,
             running := h.running_move (h.idle (by simp [hw])) }
    · by_cases hvw : v = w
      · rw [hvw]
      · have hown := h.worker v (by simpa [hvw] using hv)
        rw [ho] at hown
        cases hown
    · have hown := h.call t ht
      rw [ho] at hown
      cases hown
  | termLock t hc ho =>
    -- Nobody has the mutex before.
    refine { worker := fun w hw => ?_, call := fun u hu => ?_,
             running := h.running_call (h.running_of_call (by simp [hc])) }
    · have hown := h.worker w hw
      rw [ho] at hown
      cases hown
    · by_cases hut : u = t
      · rw [hut]
      · have hown := h.call u (by simpa [hut] using hu)
        rw [ho] at hown
        cases hown
  | quitSeen w hw | quitPassed w hw | popNull w queue hw | pop w queue task hw | blocking w hw
  | nonblocking w hw | read w id task t hw | free w id task func ctx hw
  | invoke w id func ctx hw | spurious w hw =>
    exact { worker := h.worker_move (by simp [hw, WorkerPc.hasMutex]), call := h.call,
            running := h.running_move (h.idle (by simp [hw])) }
  | finish w id hw hc =>
    exact { worker := h.worker_move (by simp [WorkerPc.hasMutex]), call := h.call,
            running := h.running_move hc }
  | signal t id w hc hl hw =>
    refine { worker := h.worker_move (by simp [WorkerPc.hasMutex]),
             call := h.call_move (by simp [CallPc.hasMutex]), running := fun v hv => ?_ }
    obtain ⟨post, hpost⟩ := h.running_call (h.running_of_call (by simp [hc])) v hv
    have hvw : v ≠ w := by
      rintro rfl
      rw [hw] at hpost
      cases hpost
    exact ⟨post, (Function.update_of_ne hvw _ _).trans hpost⟩
  | post t func arg hc hr | terminate t hc hr =>
    exact { worker := h.worker, call := h.call_move (by simp [CallPc.hasMutex]),
            running := h.running_call hr }
  | refuse t id func arg hc | accept t id func arg hc | mallocNull t id func arg hc
  | malloc t id func arg task junk hc | append t id task queue hc | signalLost t id hc
  | setQuit t hc | setNonblock t hc =>
    exact { worker := h.worker, call := h.call_move (by simp [hc, CallPc.hasMutex]),
            running := h.running_call (h.running_of_call (by simp [hc])) }
  | waitdone | join | joined | drainNull | drain | discard | destroy | freePool => exact { h with }

omit [DecidableEq A] [DecidableEq P] in
/-- The workers about to wait, after a step of one that is not. -/
theorem NoSleep.nobody_move (h : NoSleep s) {w : Fin n} {pc : WorkerPc A H X}
    (hpc : pc ≠ .condWait) (hb : s.block = false) (v : Fin n) :
    update s.worker w pc v ≠ .condWait := by
  by_cases hvw : v = w
  · simpa [hvw] using hpc
  · simpa [hvw] using h.nobody hb v

omit [DecidableEq A] [DecidableEq P] in
/-- The workers that wait, after a step of one that does not. -/
theorem NoSleep.awake_move (h : NoSleep s) {w : Fin n} {pc : WorkerPc A H X}
    (hpc : pc ≠ .waiting) (hbr : s.broadcasted = true) :
    s.block = false ∧ ∀ v, update s.worker w pc v ≠ .waiting := by
  refine ⟨(h.awake hbr).1, fun v => ?_⟩
  by_cases hvw : v = w
  · simpa [hvw] using hpc
  · simpa [hvw] using (h.awake hbr).2 v

omit [DecidableEq A] in
/-- A thread that takes a step in a call and has not cleared `block`. -/
theorem NoSleep.call_move (h : NoSleep s) {t : Thread n P} {pc : CallPc A H X}
    (hpc : pc ≠ .termUnlock) (hpc' : pc ≠ .termBroadcast) (u : Thread n P)
    (hu : update s.call t pc u = .termUnlock ∨ update s.call t pc u = .termBroadcast) :
    s.block = false := by
  by_cases hut : u = t
  · subst hut
    simp [hpc, hpc'] at hu
  · exact h.cleared u (by simpa [hut] using hu)

/-- Every step keeps what `block` says. -/
theorem NoSleep.step (h : NoSleep s) (hl : Locked s) (heff : Effect s a s') : NoSleep s' := by
  have hnobody := h.nobody
  have hcleared := h.cleared
  have hawake := h.awake
  cases heff with
  | setNonblock t hc =>
    -- A worker about to wait would have the mutex.
    obtain ⟨hw, -⟩ := hl.call_alone (t := t) (by rw [hc]; trivial)
    have hno : ∀ w, s.worker w ≠ .condWait := by
      intro w heq
      exact hw w (by rw [heq]; trivial)
    exact { nobody := fun _ => hno, cleared := fun _ _ => rfl,
            awake := fun hb => ⟨rfl, (hawake hb).2⟩ }
  | broadcast t hc =>
    have hb : s.block = false := hcleared t (.inr hc)
    have hwake := wakeAll_cases s.worker
    refine { nobody := fun _ w => ?_, cleared := fun _ _ => hb,
             awake := fun _ => ⟨hb, fun w => ?_⟩ }
    · show wakeAll s.worker w ≠ .condWait
      rcases hwake w with ⟨-, heq⟩ | ⟨-, heq⟩ <;> rw [heq]
      · simp
      · exact hnobody hb w
    · show wakeAll s.worker w ≠ .waiting
      rcases hwake w with ⟨-, heq⟩ | ⟨hne, heq⟩ <;> rw [heq]
      · simp
      · exact hne
  | blocking w hw hb =>
    refine { nobody := fun hb' => absurd (hb.symm.trans hb') (by simp), cleared := hcleared,
             awake := fun hbr => absurd (hb.symm.trans (hawake hbr).1) (by simp) }
  | sleep w hw =>
    -- The worker has read `block` as 1, and so it still is.
    have hb : s.block ≠ false := fun hb => hnobody hb w hw
    exact { nobody := fun hb' => absurd hb' hb, cleared := hcleared,
            awake := fun hbr => absurd (hawake hbr).1 hb }
  | termUnlock t hc =>
    have hb : s.block = false := hcleared t (.inl hc)
    exact { nobody := hnobody, cleared := fun _ _ => hb, awake := hawake }
  | quitSeen w | quitPassed w | popNull w | pop w | lock w | nonblocking w | leave w | relock w
  | unlock w | read w | free w | invoke w | finish w | spurious w =>
    exact { nobody := h.nobody_move (by simp), cleared := hcleared,
            awake := h.awake_move (by simp) }
  | signal t id w =>
    exact { nobody := h.nobody_move (by simp), cleared := h.call_move (by simp) (by simp),
            awake := h.awake_move (by simp) }
  | post | refuse | accept | mallocNull | malloc | append | signalLost | terminate | setQuit
  | termLock =>
    exact { nobody := hnobody, cleared := h.call_move (by simp) (by simp), awake := hawake }
  | waitdone | join | joined | drainNull | drain | discard | destroy | freePool => exact { h with }

/-- The two invariants hold in every run. -/
theorem locked_of_reaches {ok : State n P A H X → Action n P A H X → Prop}
    (h : Lib.Reaches step ok (State.init n P A H X) s) : Locked s ∧ NoSleep s := by
  refine invariant_of_effect (fun s => Locked s ∧ NoSleep s) h ⟨?_, ?_⟩
    fun t a u ⟨hl, hn⟩ _ heff => ⟨hl.step heff, hn.step hl heff⟩
  · exact { worker := fun _ hw => hw.elim, call := fun _ hc => hc.elim,
            running := fun _ hne => absurd rfl hne }
  · exact { nobody := fun hb => by cases hb
            cleared := fun _ hc => by rcases hc with hc | hc <;> cases hc
            awake := fun hb => by cases hb }

/-- Whether a worker may pop a task before its next test of `quit`. -/
def WorkerPc.mayPop : WorkerPc A H X → ℕ
  | .popTask => 1
  | .lock => 1
  | .blockTest => 1
  | .condWait => 1
  | .waiting => 1
  | .woken => 1
  | .unlock => 1
  | _ => 0

/-- Once `quit` is set, no step raises the number of tasks that a worker has popped or may still
pop. -/
theorem Effect.pops_le (heff : Effect s a s') (hq : s.quit = true) (w : Fin n) :
    s'.quit = true ∧
      s'.pops w + (s'.worker w).mayPop ≤ s.pops w + (s.worker w).mayPop := by
  cases heff with
  | quitPassed v hv hq' =>
    rw [hq] at hq'
    cases hq'
  | pop v queue task hv hp =>
    -- The worker was past its test of `quit`, and after the pop it has to come to it again.
    refine ⟨hq, ?_⟩
    by_cases hvw : w = v
    · subst hvw
      simp [hv, WorkerPc.mayPop]
    · simp [hvw]
  | quitSeen v hv | popNull v queue hv | lock v hv | blocking v hv | nonblocking v hv | leave v hv
  | sleep v hv | relock v hv | unlock v hv | read v post task t hv | free v post task func ctx hv
  | invoke v post func ctx hv | finish v post hv | spurious v hv
  | signal t post v hc hl hv =>
    refine ⟨hq, ?_⟩
    by_cases hvw : w = v
    · subst hvw
      simp [hv, WorkerPc.mayPop]
    · simp [hvw]
  | broadcast t hc =>
    refine ⟨hq, ?_⟩
    rcases wakeAll_cases s.worker w with ⟨hw, heq⟩ | ⟨-, heq⟩ <;> simp [heq]
    simp [hw, WorkerPc.mayPop]
  | setQuit => exact ⟨rfl, le_rfl⟩
  | post | refuse | accept | mallocNull | malloc | append | signalLost | terminate | termLock
  | setNonblock | termUnlock | waitdone | join | joined | drainNull | drain | discard | destroy
  | freePool => exact ⟨hq, le_rfl⟩

/-- Shutdown is prompt and leaves no worker asleep. In every reachable state after a broadcast of
`__nonblock` no worker is waiting un-signalled, and from every reachable state where `quit` is set
each worker pops at most one more task. -/
theorem shutdown_prompt (h : Lib.Reaches step (fun _ _ => True) (State.init n P A H X) s) :
    (s.broadcasted = true → ∀ w, s.worker w ≠ .waiting) ∧
      (s.quit = true → ∀ s', Lib.Reaches step (fun _ _ => True) s s' →
        ∀ w, s'.pops w ≤ s.pops w + 1) := by
  refine ⟨fun hb => ((locked_of_reaches h).2.awake hb).2, fun hq s' hrun w => ?_⟩
  have hle : s'.quit = true ∧
      s'.pops w + (s'.worker w).mayPop ≤ s.pops w + (s.worker w).mayPop := by
    refine hrun.invariant (I := fun u => u.quit = true ∧
      u.pops w + (u.worker w).mayPop ≤ s.pops w + (s.worker w).mayPop) ⟨hq, le_rfl⟩ ?_
    rintro t a u ⟨hqt, ht⟩ - hstep
    obtain ⟨hqu, hu⟩ := (effect_of_step hstep).pops_le hqt w
    exact ⟨hqu, hu.trans ht⟩
  have hone : (s.worker w).mayPop ≤ 1 := by
    cases s.worker w <;> simp [WorkerPc.mayPop]
  omega

/-- A worker waits, and another thread terminates the pool. -/
def terminateRun (w : Fin n) (t : Thread n P) : List (Action n P ℕ ℕ ℕ) :=
  workSteps w 5 ++ terminateCall t

/-- After the broadcast neither worker is waiting. -/
theorem shutdown_prompt_broadcast : ∃ s : State 2 (Fin 1) ℕ ℕ ℕ,
    s.broadcasted = true ∧ ∀ w, s.worker w ≠ .waiting := by
  obtain ⟨s, hs, hp⟩ := exists_run (fun _ _ => True)
    (terminateRun (n := 2) (P := Fin 1) 0 (.inr 0)) (fun s => s.broadcasted) (by decide)
  exact ⟨s, hp, (shutdown_prompt hs).1 hp⟩

end CPStudy.ThrdPool

import CPStudy.Lib.Mutex
import CPStudy.MsgQueue.Effect

/-!
# Who holds the mutexes of the message queue

Where a thread stands says which of the two mutexes it holds, and the mutexes agree: `Locked` is
kept by every step. A consumer keeps `get_mutex` while it waits for `put_mutex` and while it sleeps
on `get_cond`, so that at most one consumer sleeps there.
-/

namespace CPStudy.MsgQueue

open Function (update)
open Lib (Guards)

variable {ι : Type*} {q : Config} {s s' : State ι} {a : Action ι} {t u : ι} {p p' : Pc}

/-- Where a thread stands, from its program point. -/
theorem spot_eq (hpc : s.pc t = p) : s.spot t = p.forget := by rw [State.spot, hpc]

/-- A notification changes no thread's place. -/
theorem forget_wakeAllPut (pc : ι → Pc) (t : ι) : (wakeAllPut pc t).forget = (pc t).forget := by
  unfold wakeAllPut
  cases pc t <;> rfl

section

variable [DecidableEq ι]

/-- Where the threads stand after one of them went on. -/
theorem spot_goto (s : State ι) (t : ι) (p : Pc) :
    (s.goto t p).spot = update s.spot t p.forget :=
  Function.comp_update Pc.forget s.pc t p

/-- Where the threads stand after one of them changed no more than its notification. -/
theorem spot_notify {w : ι} (hw : (s.pc w).forget = p.forget) : (s.goto w p).spot = s.spot := by
  rw [spot_goto, ← hw]
  exact Function.update_eq_self w s.spot

/-- Where the threads stand after one of them woke a consumer and went on. -/
theorem spot_signal {w : ι} {o : ℤ} (hw : s.pc w = .swapWait o false) :
    ((s.goto w (.swapWait o true)).goto t p).spot = update s.spot t p.forget := by
  rw [spot_goto, spot_notify (by rw [hw]; rfl)]

/-- Where the threads stand after `put_cond` was broadcast, or not, and one of them went on. -/
theorem spot_wakeAllPut {b : Bool} (hs : s'.pc = update (if b then wakeAllPut s.pc else s.pc) t p) :
    s'.spot = update s.spot t p.forget := by
  -- Forgetting the notifications undoes the broadcast.
  have hwake : Pc.forget ∘ (if b then wakeAllPut s.pc else s.pc) = s.spot := by
    funext u
    cases b with
    | false => rfl
    | true => exact forget_wakeAllPut s.pc u
  rw [← hwake, ← Function.comp_update, ← hs]
  rfl

end

/-- The mutexes are held by the threads that stand where they are held. -/
structure Locked (s : State ι) : Prop where
  /-- `get_mutex`. -/
  get : Guards s.get_mutex (Pc.holdsGet ∘ s.spot)
  /-- `put_mutex`. -/
  put : Guards s.put_mutex (Pc.holdsPut ∘ s.spot)

namespace Locked

/-- Nobody holds a mutex of the new queue. -/
theorem init (mem : ℤ → ℤ) : Locked (State.init ι q mem) where
  get := Guards.free
  put := Guards.free

/-- Whether a thread holds `get_mutex` is the same for its place and for its program point. -/
theorem holdsGet_spot (hpc : s.pc t = p) : (Pc.holdsGet ∘ s.spot) t = p.holdsGet := by
  rw [Function.comp_apply, spot_eq hpc, Pc.holdsGet_forget]

/-- So is whether it holds `put_mutex`. -/
theorem holdsPut_spot (hpc : s.pc t = p) : (Pc.holdsPut ∘ s.spot) t = p.holdsPut := by
  rw [Function.comp_apply, spot_eq hpc, Pc.holdsPut_forget]

/-- Two holders of `get_mutex` are one. -/
theorem get_unique (h : Locked s) (ht : (s.pc t).holdsGet = true) (hu : (s.pc u).holdsGet = true) :
    t = u :=
  h.get.unique ((holdsGet_spot rfl).trans ht) ((holdsGet_spot rfl).trans hu)

/-- Where nobody's place and no mutex changes. -/
theorem congr (h : Locked s) (hspot : s'.spot = s.spot) (hg : s'.get_mutex = s.get_mutex)
    (hp : s'.put_mutex = s.put_mutex) : Locked s' where
  get := by
    rw [hg, hspot]
    exact h.get
  put := by
    rw [hp, hspot]
    exact h.put

/-- While one thread holds `get_mutex`, nobody else stands where it is held. -/
theorem elsewhere (h : Locked s) (hpc : s.pc t = p) (hp : p.holdsGet = true) (hu : u ≠ t) :
    (s.spot u).holdsGet = false :=
  h.get.eq_false_of_ne ((holdsGet_spot hpc).trans hp) hu

variable [DecidableEq ι]

section Moves

variable (h : Locked s) (hpc : s.pc t = p) (hspot : s'.spot = update s.spot t p'.forget)
include h hpc hspot

/-- A thread goes on with the mutexes it has. -/
theorem stay (hg : s'.get_mutex = s.get_mutex) (hp : s'.put_mutex = s.put_mutex)
    (hgp : p'.holdsGet = p.holdsGet) (hpp : p'.holdsPut = p.holdsPut) : Locked s' where
  get := by
    rw [hg, hspot, Function.comp_update, Pc.holdsGet_forget]
    exact h.get.keep (hgp.trans (holdsGet_spot hpc).symm)
  put := by
    rw [hp, hspot, Function.comp_update, Pc.holdsPut_forget]
    exact h.put.keep (hpp.trans (holdsPut_spot hpc).symm)

/-- A thread locks `get_mutex`. -/
theorem acquireGet (hfree : s.get_mutex = none) (hg : s'.get_mutex = some t)
    (hp : s'.put_mutex = s.put_mutex) (hgp : p'.holdsGet = true)
    (hpp : p'.holdsPut = p.holdsPut) : Locked s' where
  get := by
    rw [hg, hspot, Function.comp_update, Pc.holdsGet_forget]
    have hget := h.get
    rw [hfree] at hget
    exact hget.acquire hgp
  put := by
    rw [hp, hspot, Function.comp_update, Pc.holdsPut_forget]
    exact h.put.keep (hpp.trans (holdsPut_spot hpc).symm)

/-- A thread unlocks `get_mutex`. -/
theorem releaseGet (hg : s'.get_mutex = none) (hp : s'.put_mutex = s.put_mutex)
    (hgp : p.holdsGet = true) (hgp' : p'.holdsGet = false) (hpp : p'.holdsPut = p.holdsPut) :
    Locked s' where
  get := by
    rw [hg, hspot, Function.comp_update, Pc.holdsGet_forget]
    exact h.get.release ((holdsGet_spot hpc).trans hgp) hgp'
  put := by
    rw [hp, hspot, Function.comp_update, Pc.holdsPut_forget]
    exact h.put.keep (hpp.trans (holdsPut_spot hpc).symm)

/-- A thread locks `put_mutex`. -/
theorem acquirePut (hfree : s.put_mutex = none) (hg : s'.get_mutex = s.get_mutex)
    (hp : s'.put_mutex = some t) (hgp : p'.holdsGet = p.holdsGet)
    (hpp : p'.holdsPut = true) : Locked s' where
  get := by
    rw [hg, hspot, Function.comp_update, Pc.holdsGet_forget]
    exact h.get.keep (hgp.trans (holdsGet_spot hpc).symm)
  put := by
    rw [hp, hspot, Function.comp_update, Pc.holdsPut_forget]
    have hput := h.put
    rw [hfree] at hput
    exact hput.acquire hpp

/-- A thread unlocks `put_mutex`. -/
theorem releasePut (hg : s'.get_mutex = s.get_mutex) (hp : s'.put_mutex = none)
    (hgp : p'.holdsGet = p.holdsGet) (hpp : p.holdsPut = true) (hpp' : p'.holdsPut = false) :
    Locked s' where
  get := by
    rw [hg, hspot, Function.comp_update, Pc.holdsGet_forget]
    exact h.get.keep (hgp.trans (holdsGet_spot hpc).symm)
  put := by
    rw [hp, hspot, Function.comp_update, Pc.holdsPut_forget]
    exact h.put.release ((holdsPut_spot hpc).trans hpp) hpp'

end Moves

/-- Every step keeps the mutexes right. -/
theorem step (h : Locked s) (he : Effect q s a s') : Locked s' := by
  cases he with
  | put hpc => exact h.stay hpc (spot_goto _ _ _) rfl rfl rfl rfl
  | get hpc => exact h.stay hpc (spot_goto _ _ _) rfl rfl rfl rfl
  | setNonblock hpc => exact h.stay hpc (spot_goto _ _ _) rfl rfl rfl rfl
  | setBlock => exact h.congr rfl rfl rfl
  | init hpc => exact h.stay hpc (spot_goto _ _ _) rfl rfl rfl rfl
  -- `put_mutex` is locked here, and unlocked here or by falling asleep on one of the conditions.
  | lock hpc hl hfree =>
    exact h.acquirePut hpc (spot_goto _ _ _) hfree rfl rfl hl.holdsGet hl.holdsPut
  | unlock hpc hl =>
    exact h.releasePut hpc (spot_goto _ _ _) rfl rfl hl.holdsGet hl.holdsPut.1 hl.holdsPut.2
  | sleepPut hpc => exact h.releasePut hpc (spot_goto _ _ _) rfl rfl rfl rfl rfl
  | passPut hpc => exact h.stay hpc (spot_goto _ _ _) rfl rfl rfl rfl
  | link hpc => exact h.stay hpc (spot_goto _ _ _) rfl rfl rfl rfl
  -- A signal, like a wake-up and a broadcast, changes no thread's place but that of its caller.
  | signal hpc hs hw =>
    have hsame := hs.holds
    exact h.stay hpc (spot_signal hw) rfl rfl hsame.1 hsame.2
  | lost hpc hs hw =>
    have hsame := hs.holds
    exact h.stay hpc (spot_goto _ _ _) rfl rfl hsame.1 hsame.2
  -- `get_mutex` is locked here and unlocked in `unlockGet`, and nowhere else.
  | lockGet hpc hfree => exact h.acquireGet hpc (spot_goto _ _ _) hfree rfl rfl rfl rfl
  | found hpc => exact h.stay hpc (spot_goto _ _ _) rfl rfl rfl rfl
  | notFound hpc => exact h.stay hpc (spot_goto _ _ _) rfl rfl rfl rfl
  | swapHead hpc => exact h.stay hpc (spot_goto _ _ _) rfl rfl rfl rfl
  | sleepGet hpc => exact h.releasePut hpc (spot_goto _ _ _) rfl rfl rfl rfl rfl
  | passGet hpc => exact h.stay hpc (spot_goto _ _ _) rfl rfl rfl rfl
  | swapLists hpc => exact h.stay hpc (spot_wakeAllPut rfl) rfl rfl rfl rfl
  | readMsg hpc => exact h.stay hpc (spot_goto _ _ _) rfl rfl rfl rfl
  | readNext hpc => exact h.stay hpc (spot_goto _ _ _) rfl rfl rfl rfl
  | take hpc => exact h.stay hpc (spot_goto _ _ _) rfl rfl rfl rfl
  | unlockGet hpc => exact h.releaseGet hpc (spot_goto _ _ _) rfl rfl rfl rfl rfl
  | broadcast hpc => exact h.stay hpc (spot_wakeAllPut (b := true) rfl) rfl rfl rfl rfl
  | spuriousPut hpc => exact h.congr (spot_notify (by rw [hpc]; rfl)) rfl rfl
  | spuriousGet hpc => exact h.congr (spot_notify (by rw [hpc]; rfl)) rfl rfl
  | write => exact h.congr rfl rfl rfl

end Locked

end CPStudy.MsgQueue

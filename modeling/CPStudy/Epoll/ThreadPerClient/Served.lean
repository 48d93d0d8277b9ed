import Mathlib.Data.List.ReduceOption
import CPStudy.Lib.Handle
import CPStudy.Epoll.ThreadPerClient.Model

/-!
# Which connections the threads serve

Between `accept` and the first read of `clientfd` a connection is in the hands of `clientfd`, from
then on in those of the thread that has read it, so that `Lib.Handles` holds as long as the next
descriptor is not stored there before, and no second thread reads it. A thread that is created after
an `accept` that failed reads the descriptor that `clientfd` holds by then, and so one such thread
may stand in for one that `pthread_create` did not create (`HandedOver`). Otherwise a connection is
lost or is read twice (`served_of_handedOver`).
-/

namespace CPStudy.Epoll.ThreadPerClient

open Function (update)
open Multiplex (Listening)
open Lib (Handles)

variable {p : Listening} {garbage : ℤ} {s s' u : State} {a : Action} {t id : ℕ} {c : Client}

/-- The connection whose descriptor is in `clientfd`, if no thread has read it. -/
def pending (s : State) : Option ℕ :=
  s.cell.id.bind fun id => if some id ∈ s.reads then none else some id

/-- Each connection is served by one thread. -/
structure ServedOnce (s : State) : Prop where
  /-- No descriptor is read twice. -/
  read : ∀ id < s.kernel.accepted, s.reads.count (some id) ≤ 1
  /-- One that was not read is in `clientfd`, for a thread to read it. -/
  waits : ∀ id < s.kernel.accepted, some id ∉ s.reads →
    s.cell.id = some id ∧ (s.main = .create ∨ ∃ t < s.created, s.thread t = .started)
  /-- No two threads have the same descriptor. -/
  alone : ∀ t t' c c', (s.thread t).client = some c → (s.thread t').client = some c' →
    0 ≤ c.clientfd → c.clientfd = c'.clientfd → t = t'
  /-- The descriptor stands for the connection for which it was returned. -/
  serves : ∀ t c, (s.thread t).client = some c →
    fileOf s.kernel c.clientfd = c.id.map File.conn
  /-- A thread closes the connection that it has served. -/
  closes : ∀ c ∈ s.closes, c.target = c.id.map File.conn
  /-- No connection is closed twice. -/
  once : (s.closes.map Close.id).reduceOption.Nodup

/-- `accept` returns when the threads have read the descriptor before, if there was one, and it
returns a descriptor when at most one thread is left that has not read `clientfd` since an `accept`
that failed. `pthread_create` succeeds exactly where no thread has read the new descriptor or is
left to read it. -/
def HandedOver (s : State) : Action → Prop
  | .accept clientfd =>
    (s.cell.id ≠ none → ∀ t < s.created, s.thread t ≠ .started) ∧
      (0 ≤ clientfd → ∀ t < s.created, ∀ t' < s.created, s.thread t = .started →
        s.thread t' = .started → t = t')
  | .create success => s.cell.id ≠ none →
    (success = true ↔ s.cell.id ∉ s.reads ∧ ∀ t < s.created, s.thread t ≠ .started)
  | .read _ => True
  | .recv _ _ => True
  | .send _ _ => True
  | .close _ => True
  | .finish _ => True

instance (s : State) (a : Action) : Decidable (HandedOver s a) :=
  match a with
  | .accept clientfd => inferInstanceAs (Decidable
      ((s.cell.id ≠ none → ∀ t < s.created, s.thread t ≠ .started) ∧
        (0 ≤ clientfd → ∀ t < s.created, ∀ t' < s.created, s.thread t = .started →
          s.thread t' = .started → t = t')))
  | .create success => inferInstanceAs (Decidable (s.cell.id ≠ none →
      (success = true ↔ s.cell.id ∉ s.reads ∧ ∀ t < s.created, s.thread t ≠ .started)))
  | .read _ => isTrue trivial
  | .recv _ _ => isTrue trivial
  | .send _ _ => isTrue trivial
  | .close _ => isTrue trivial
  | .finish _ => isTrue trivial

/-- A descriptor stands for its connection; without one it is -1. -/
def Points (k : Kernel) (c : Client) : Prop :=
  match c.id with
  | none => c.clientfd < 0
  | some id => ∃ fd : ℕ, c.clientfd = fd ∧ k.file fd = some (.conn id)

namespace Points

variable {k k' : Kernel} {fd : ℕ}

/-- What the descriptor stands for. -/
theorem fileOf_eq (h : Points k c) : fileOf k c.clientfd = c.id.map File.conn := by
  unfold Points at h
  unfold fileOf
  split at h
  case h_1 hid =>
    rw [if_pos h, hid]
    rfl
  case h_2 id hid =>
    obtain ⟨fd, hfd, hfile⟩ := h
    rw [hfd, if_neg (by omega), hid]
    exact hfile

/-- A descriptor of the kernel has a connection. -/
theorem exists_id (h : Points k c) (hfd : 0 ≤ c.clientfd) :
    ∃ id, c.id = some id ∧ k.file c.clientfd.toNat = some (.conn id) := by
  unfold Points at h
  split at h
  case h_1 => omega
  case h_2 id hid =>
    obtain ⟨fd, hfd, hfile⟩ := h
    refine ⟨id, hid, ?_⟩
    rw [hfd]
    exact hfile

/-- It depends on the open descriptors only. -/
theorem congr (h : Points k c) (hfile : k'.file = k.file) : Points k' c := by
  unfold Points at h ⊢
  rw [hfile]
  exact h

/-- A change of one descriptor leaves the others alone. -/
theorem update_of_ne {f : Option File} (h : Points k c)
    (hfile : k'.file = update k.file fd f) (hne : ∀ id, c.id = some id →
      k.file fd ≠ some (.conn id)) : Points k' c := by
  unfold Points at h ⊢
  split at h
  case h_1 hid => exact h
  case h_2 id hid =>
    obtain ⟨i, hi, hconn⟩ := h
    have hi' : i ≠ fd := by
      rintro rfl
      exact hne id hid hconn
    refine ⟨i, hi, ?_⟩
    rw [hfile, Function.update_of_ne hi']
    exact hconn

end Points

/-- Who holds a connection: `clientfd`, or a thread. -/
def holder (s : State) : Option ℕ → Option ℕ
  | none => pending s
  | some t => (s.thread t).client.bind Client.id

/-- What holds in every state as long as descriptors are handed over. -/
structure Sound (s : State) : Prop where
  /-- The threads that do not exist yet. -/
  unborn : ∀ t, s.created ≤ t → s.thread t = .unborn
  /-- Of the threads that have to read a descriptor there is at most one. -/
  single : s.cell.id ≠ none → ∀ t t', s.thread t = .started → s.thread t' = .started → t = t'
  /-- There is none once it was read. -/
  fresh : s.cell.id ≠ none → s.cell.id ∈ s.reads → ∀ t, s.thread t ≠ .started
  /-- There is one after `pthread_create` until it was read. -/
  taken : s.cell.id ≠ none → s.main = .accept → s.cell.id ∉ s.reads → ∃ t, s.thread t = .started
  /-- The connections are read in the order in which they are accepted. -/
  reads : s.reads.reduceOption ++ (pending s).toList = List.range s.kernel.accepted
  /-- Each of them is held by one, or was closed once. -/
  handles : Handles (holder s) s.kernel.accepted (s.closes.map Close.id).reduceOption
  /-- What is in `clientfd` for a thread. -/
  cell : (s.main = .create ∨ ∃ t, s.thread t = .started) → pending s = s.cell.id →
    Points s.kernel s.cell
  /-- What a thread has read. -/
  client : ∀ t c, (s.thread t).client = some c → Points s.kernel c
  /-- What was closed. -/
  closes : ∀ c ∈ s.closes, c.target = c.id.map File.conn

/-- What is in `clientfd` is pending until it was read. -/
theorem pending_of_notMem (h : s.cell.id ∉ s.reads) : pending s = s.cell.id := by
  unfold pending
  cases hid : s.cell.id with
  | none => rfl
  | some id =>
    rw [hid] at h
    exact if_neg h

/-- It is not once it was read. -/
theorem pending_of_mem (h : s.cell.id ∈ s.reads) : pending s = none := by
  unfold pending
  cases hid : s.cell.id with
  | none => rfl
  | some id =>
    rw [hid] at h
    exact if_pos h

/-- Without a descriptor nothing is pending. -/
theorem pending_of_none (h : s.cell.id = none) : pending s = none := by
  unfold pending
  rw [h]
  rfl

/-- What is pending is in `clientfd` and was not read. -/
theorem of_pending (h : pending s = some id) : s.cell.id = some id ∧ some id ∉ s.reads := by
  unfold pending at h
  obtain ⟨k, hk, h⟩ := Option.bind_eq_some_iff.mp h
  obtain ⟨hno, h⟩ := Option.ite_none_left_eq_some.mp h
  cases h
  exact ⟨hk, hno⟩

/-- A thread that goes on after the read changes nothing for the threads that have to read. -/
theorem started_update {thread : Thread} (ht : s.thread t ≠ .started) (hthread : thread ≠ .started)
    (i : ℕ) : update s.thread t thread i = .started ↔ s.thread i = .started := by
  rcases eq_or_ne i t with rfl | hne
  · rw [Function.update_self]
    exact iff_of_false hthread ht
  · rw [Function.update_of_ne hne]

/-- A thread with a descriptor has read it. -/
theorem ne_started {thread : Thread} (h : thread.client = some c) : thread ≠ .started := by
  rintro rfl
  cases h

/-- Who holds a connection, when one thread changes. -/
theorem handles_of_update {thread : Thread} {made : ℕ} {gone : List ℕ}
    (hthread : s'.thread = update s.thread t thread)
    (h : Handles (update (update (holder s) (some t) (thread.client.bind Client.id)) none
      (pending s')) made gone) : Handles (holder s') made gone := by
  have hholder : holder s' =
      update (update (holder s) (some t) (thread.client.bind Client.id)) none (pending s') := by
    funext i
    cases i with
    | none =>
      rw [Function.update_self]
      rfl
    | some i =>
      rw [Function.update_of_ne (by nofun)]
      show (s'.thread i).client.bind Client.id = _
      rw [hthread]
      rcases eq_or_ne i t with rfl | hne
      · rw [Function.update_self, Function.update_self]
      · rw [Function.update_of_ne hne, Function.update_of_ne (by simpa using hne)]
        rfl
  rw [hholder]
  exact h

/-- Who holds a connection, when no thread takes or closes one. -/
theorem handles_of_client {made : ℕ} {gone : List ℕ}
    (hthread : ∀ t, (s'.thread t).client = (s.thread t).client)
    (h : Handles (update (holder s) none (pending s')) made gone) :
    Handles (holder s') made gone := by
  have hholder : holder s' = update (holder s) none (pending s') := by
    funext i
    cases i with
    | none =>
      rw [Function.update_self]
      rfl
    | some i =>
      rw [Function.update_of_ne (by nofun)]
      exact congrArg (Option.bind · Client.id) (hthread i)
  rw [hholder]
  exact h

/-- Who holds a connection, when nothing changes in that. -/
theorem handles_of_eq {made : ℕ} {gone : List ℕ}
    (hthread : ∀ t, (s'.thread t).client = (s.thread t).client) (hpending : pending s' = pending s)
    (h : Handles (holder s) made gone) : Handles (holder s') made gone := by
  refine handles_of_client hthread ?_
  have hsame : update (holder s) none (pending s') = holder s := by
    rw [hpending]
    exact Function.update_eq_self none (holder s)
  rw [hsame]
  exact h

namespace Sound

/-- Before the loop. -/
theorem init (p : Listening) (garbage : ℤ) : Sound (State.init p garbage) := by
  have hholder : holder (State.init p garbage) = fun _ => none := by
    funext i
    cases i <;> rfl
  constructor
  case unborn => exact fun _ _ => rfl
  case single | fresh | taken => exact fun hid => absurd rfl hid
  case reads => rfl
  case handles =>
    rw [hholder]
    exact Handles.init
  case cell =>
    rintro (hcon | ⟨t, hcon⟩)
    · cases hcon
    · cases hcon
  case client => nofun
  case closes => nofun

/-- A thread that has not read its descriptor exists. -/
theorem lt_created (h : Sound s) (ht : s.thread t = .started) : t < s.created := by
  by_contra hle
  rw [h.unborn t (by omega)] at ht
  cases ht

/-- Nothing is pending where `main` calls `accept` and the threads have read what there was. -/
theorem pending_eq_none (h : Sound s) {clientfd : ℤ} (hok : HandedOver s (.accept clientfd))
    (hmain : s.main = .accept) : pending s = none := by
  by_cases hid : s.cell.id = none
  · exact pending_of_none hid
  · refine pending_of_mem ?_
    by_contra hmem
    obtain ⟨t, ht⟩ := h.taken hid hmain hmem
    exact hok.1 hid t (h.lt_created ht) ht

/-- A thread that holds a connection is the only one. -/
theorem ne_of_holder (h : Sound s) {t' : ℕ} {c' : Client} (hne : t ≠ t')
    (hc : (s.thread t).client = some c) (hc' : (s.thread t').client = some c')
    (hid : c.id = some id) : c'.id ≠ some id := by
  intro hid'
  have hholder : holder s (some t) = some id := by
    show (s.thread t).client.bind Client.id = some id
    rw [hc]
    exact hid
  have hholder' : holder s (some t') = some id := by
    show (s.thread t').client.bind Client.id = some id
    rw [hc']
    exact hid'
  exact hne (Option.some.inj (h.handles.unique hholder hholder'))

/-- A thread with a descriptor is not one of those that do not exist yet. -/
theorem unborn_update (h : Sound s) {thread : Thread} (hc : (s.thread t).client = some c) :
    ∀ i, s.created ≤ i → update s.thread t thread i = .unborn := by
  intro i hi
  have hne : i ≠ t := by
    rintro rfl
    rw [h.unborn i hi] at hc
    cases hc
  rw [Function.update_of_ne hne]
  exact h.unborn i hi

/-- `accept` fails. -/
theorem failed (h : Sound s) {clientfd : ℤ} (hok : HandedOver s (.accept clientfd))
    (hmain : s.main = .accept) (hneg : clientfd < 0) :
    Sound { s with main := .create, cell := { clientfd := clientfd, id := none } } := by
  have hpending : pending { s with
      main := .create, cell := { clientfd := clientfd, id := none } } = pending s :=
    (pending_of_none rfl).trans (h.pending_eq_none hok hmain).symm
  constructor
  case unborn => exact h.unborn
  case single | fresh | taken => exact fun hid => absurd rfl hid
  case reads =>
    rw [hpending]
    exact h.reads
  case handles => exact handles_of_eq (s := s) (fun _ => rfl) hpending h.handles
  case cell => exact fun _ _ => hneg
  case client => exact h.client
  case closes => exact h.closes

/-- A connection is accepted. -/
theorem accepted (h : Sound s) {fd : ℕ} (hok : HandedOver s (.accept fd))
    (hmain : s.main = .accept) (hfile : s.kernel.file fd = none) :
    Sound { s with
      main := .create
      kernel := s.kernel.accept fd
      cell := { clientfd := fd, id := some s.kernel.accepted } } := by
  have hnone := h.pending_eq_none hok hmain
  have hreads := h.reads
  rw [hnone, Option.toList_none, List.append_nil] at hreads
  -- The connections are numbered anew, so that the new one was not read.
  have hnew : some s.kernel.accepted ∉ s.reads := by
    intro hmem
    have hlt := List.reduceOption_mem_iff.mpr hmem
    rw [hreads] at hlt
    exact Nat.lt_irrefl _ (List.mem_range.mp hlt)
  have hpending : pending { s with
      main := .create
      kernel := s.kernel.accept fd
      cell := { clientfd := fd, id := some s.kernel.accepted } } = some s.kernel.accepted :=
    pending_of_notMem hnew
  constructor
  case unborn => exact h.unborn
  case single =>
    exact fun _ t t' ht ht' => hok.2 (Int.natCast_nonneg fd) t (h.lt_created ht) t'
      (h.lt_created ht') ht ht'
  case fresh => exact fun _ hmem => absurd hmem hnew
  case taken => exact fun _ hm => absurd hm nofun
  case reads =>
    rw [hpending, Option.toList_some]
    dsimp only [Kernel.accept]
    rw [hreads, List.range_succ]
  case handles =>
    refine handles_of_client (s := s) (fun _ => rfl) ?_
    rw [hpending]
    exact h.handles.make hnone
  case cell => exact fun _ _ => ⟨fd, rfl, Function.update_self ..⟩
  case client =>
    -- The new descriptor is not that of a thread, since it was not open.
    refine fun t c hc => (h.client t c hc).update_of_ne rfl fun id _ => ?_
    rw [hfile]
    exact nofun
  case closes => exact h.closes

/-- A thread is created. -/
theorem created (h : Sound s) (hok : HandedOver s (.create true)) (hmain : s.main = .create) :
    Sound { s with
      main := .accept
      thread := update s.thread s.created .started
      created := s.created + 1 } := by
  have hunborn := h.unborn s.created le_rfl
  -- Where a connection is in `clientfd` the thread is the only one that has to read it.
  have hfree : s.cell.id ≠ none → s.cell.id ∉ s.reads ∧ ∀ t, s.thread t ≠ .started := by
    intro hid
    obtain ⟨hread, hno⟩ := (hok hid).mp rfl
    exact ⟨hread, fun t ht => hno t (h.lt_created ht) ht⟩
  have hstarted : s.cell.id ≠ none → ∀ i,
      update s.thread s.created .started i = .started → i = s.created := by
    intro hid i hi
    by_contra hne
    rw [Function.update_of_ne hne] at hi
    exact (hfree hid).2 i hi
  have hclient : ∀ i, (update s.thread s.created .started i).client = (s.thread i).client := by
    intro i
    rcases eq_or_ne i s.created with rfl | hne
    · rw [Function.update_self, hunborn]
      rfl
    · rw [Function.update_of_ne hne]
  constructor
  case unborn =>
    intro i hi
    dsimp only at hi ⊢
    rw [Function.update_of_ne (by omega)]
    exact h.unborn i (by omega)
  case single =>
    exact fun hid i j hi hj => (hstarted hid i hi).trans (hstarted hid j hj).symm
  case fresh => exact fun hid hmem => absurd hmem (hfree hid).1
  case taken => exact fun _ _ _ => ⟨s.created, Function.update_self ..⟩
  case reads => exact h.reads
  case handles => exact handles_of_eq (s := s) hclient rfl h.handles
  case cell => exact fun _ hid => h.cell (.inl hmain) hid
  case client =>
    intro i c hc
    dsimp only at hc
    rw [hclient] at hc
    exact h.client i c hc
  case closes => exact h.closes

/-- A thread is not created. -/
theorem refused (h : Sound s) (hok : HandedOver s (.create false)) (hmain : s.main = .create) :
    Sound { s with main := .accept } := by
  constructor
  case unborn => exact h.unborn
  case single => exact h.single
  case fresh => exact h.fresh
  case taken =>
    -- A thread that is left from an `accept` that failed reads the descriptor.
    intro hid _ hmem
    by_contra hno
    have hcon := (hok hid).mpr ⟨hmem, fun t _ ht => hno ⟨t, ht⟩⟩
    cases hcon
  case reads => exact h.reads
  case handles => exact handles_of_eq (s := s) (fun _ => rfl) rfl h.handles
  case cell => exact fun _ hid => h.cell (.inl hmain) hid
  case client => exact h.client
  case closes => exact h.closes

/-- A thread reads its descriptor. -/
theorem read (h : Sound s) (ht : s.thread t = .started) :
    Sound { s with
      thread := update s.thread t (.receiving s.cell)
      reads := s.reads ++ [s.cell.id] } := by
  -- Where there is a connection, it was not read, and the thread is the only one to read it.
  have hunread : s.cell.id ≠ none → s.cell.id ∉ s.reads :=
    fun hid hmem => h.fresh hid hmem t ht
  have hpending : pending s = s.cell.id := by
    by_cases hid : s.cell.id = none
    · rw [pending_of_none hid, hid]
    · exact pending_of_notMem (hunread hid)
  have hpending' : pending { s with
      thread := update s.thread t (.receiving s.cell)
      reads := s.reads ++ [s.cell.id] } = none :=
    pending_of_mem (List.mem_append_right _ (.head _))
  have hpoints : Points s.kernel s.cell := h.cell (.inr ⟨t, ht⟩) hpending
  have hno : s.cell.id ≠ none → ∀ i, update s.thread t (.receiving s.cell) i ≠ .started := by
    intro hid i hi
    rcases eq_or_ne i t with rfl | hne
    · rw [Function.update_self] at hi
      cases hi
    · rw [Function.update_of_ne hne] at hi
      exact hne (h.single hid i t hi ht)
  constructor
  case unborn =>
    intro i hi
    have hlt := h.lt_created ht
    dsimp only at hi ⊢
    rw [Function.update_of_ne (by omega)]
    exact h.unborn i hi
  case single => exact fun hid i _ hi => absurd hi (hno hid i)
  case fresh => exact fun hid _ => hno hid
  case taken => exact fun _ _ hmem => absurd (List.mem_append_right _ (.head _)) hmem
  case reads =>
    rw [hpending', Option.toList_none, List.append_nil, List.reduceOption_append, ← h.reads,
      hpending]
    rfl
  case handles =>
    refine handles_of_update (s := s) rfl ?_
    rw [hpending']
    have hholder : holder s (some t) = none := by
      show (s.thread t).client.bind Client.id = none
      rw [ht]
      rfl
    -- What `clientfd` holds passes to the thread.
    have hpass := h.handles.pass (i := none) (j := some t) nofun hholder
    rw [show holder s none = s.cell.id from hpending] at hpass
    exact hpass
  case cell => exact fun _ _ => hpoints
  case client =>
    intro i c hc
    dsimp only at hc
    rcases eq_or_ne i t with rfl | hne
    · rw [Function.update_self] at hc
      cases hc
      exact hpoints
    · rw [Function.update_of_ne hne] at hc
      exact h.client i c hc
  case closes => exact h.closes

/-- A thread receives or sends. -/
theorem moved (h : Sound s) {kernel : Kernel} {thread : Thread}
    (hfile : kernel.file = s.kernel.file) (haccepted : kernel.accepted = s.kernel.accepted)
    (ht : (s.thread t).client = some c) (hthread : thread.client = some c) :
    Sound { s with kernel := kernel, thread := update s.thread t thread } := by
  have hstarted := started_update (ne_started ht) (ne_started hthread)
  -- The thread has the same descriptor afterwards, so each part reads as before.
  have hclient : ∀ i, (update s.thread t thread i).client = (s.thread i).client := by
    intro i
    rcases eq_or_ne i t with rfl | hne
    · rw [Function.update_self, hthread, ht]
    · rw [Function.update_of_ne hne]
  constructor
  case unborn => exact h.unborn_update ht
  case single =>
    exact fun hid i j hi hj => h.single hid i j ((hstarted i).mp hi) ((hstarted j).mp hj)
  case fresh => exact fun hid hmem i hi => h.fresh hid hmem i ((hstarted i).mp hi)
  case taken =>
    intro hid hm hmem
    obtain ⟨i, hi⟩ := h.taken hid hm hmem
    exact ⟨i, (hstarted i).mpr hi⟩
  case reads =>
    dsimp only
    rw [haccepted]
    exact h.reads
  case handles =>
    dsimp only
    rw [haccepted]
    exact handles_of_eq (s := s) hclient rfl h.handles
  case cell =>
    intro hcell hid
    exact (h.cell (hcell.imp_right fun ⟨i, hi⟩ => ⟨i, (hstarted i).mp hi⟩) hid).congr hfile
  case client =>
    intro i c' hc
    dsimp only at hc
    rw [hclient] at hc
    exact (h.client i c' hc).congr hfile
  case closes => exact h.closes

/-- A thread closes its descriptor. -/
theorem closed (h : Sound s) (ht : s.thread t = .closing c) :
    Sound { s with
      kernel := if c.clientfd < 0 then s.kernel else s.kernel.close c.clientfd.toNat
      thread := update s.thread t .returned
      closes := s.closes ++ [{ id := c.id, target := fileOf s.kernel c.clientfd }] } := by
  have hc : (s.thread t).client = some c := by
    rw [ht]
    rfl
  have hpoints := h.client t c hc
  have hstarted := started_update (ne_started hc) (nofun : Thread.returned ≠ .started)
  have haccepted : (if c.clientfd < 0 then s.kernel else s.kernel.close c.clientfd.toNat).accepted =
      s.kernel.accepted := by
    split <;> rfl
  have hpending : pending { s with
      kernel := if c.clientfd < 0 then s.kernel else s.kernel.close c.clientfd.toNat
      thread := update s.thread t .returned
      closes := s.closes ++ [{ id := c.id, target := fileOf s.kernel c.clientfd }] } =
      pending s := rfl
  have hholder : holder s (some t) = c.id := by
    show (s.thread t).client.bind Client.id = c.id
    rw [hc]
    rfl
  -- The other descriptors are those of other connections.
  have hother : ∀ c', Points s.kernel c' → (∀ id, c.id = some id → c'.id ≠ some id) →
      Points (if c.clientfd < 0 then s.kernel else s.kernel.close c.clientfd.toNat) c' := by
    intro c' hpoints' hne
    split
    case isTrue => exact hpoints'
    case isFalse hfd =>
      obtain ⟨id, hid, hfile⟩ := hpoints.exists_id (not_lt.mp hfd)
      refine hpoints'.update_of_ne rfl fun id' hid' hfile' => ?_
      rw [hfile] at hfile'
      cases hfile'
      exact hne id hid hid'
  constructor
  case unborn => exact h.unborn_update hc
  case single =>
    exact fun hid i j hi hj => h.single hid i j ((hstarted i).mp hi) ((hstarted j).mp hj)
  case fresh => exact fun hid hmem i hi => h.fresh hid hmem i ((hstarted i).mp hi)
  case taken =>
    intro hid hm hmem
    obtain ⟨i, hi⟩ := h.taken hid hm hmem
    exact ⟨i, (hstarted i).mpr hi⟩
  case reads =>
    rw [hpending]
    dsimp only
    rw [haccepted]
    exact h.reads
  case handles =>
    refine handles_of_update (s := s) rfl ?_
    rw [hpending]
    dsimp only
    rw [haccepted, List.map_append, List.reduceOption_append]
    have hsame : update (update (holder s) (some t) none) none (pending s) =
        update (holder s) (some t) none := by
      refine Function.update_eq_self_iff.mpr ?_
      rw [Function.update_of_ne (Option.some_ne_none t).symm]
      rfl
    -- The thread gives up what it holds, and `clientfd` is left as it is.
    have hgive := h.handles.give (some t)
    rw [hholder] at hgive
    show Handles (update (update (holder s) (some t) none) none (pending s)) _ _
    rw [hsame]
    exact hgive
  case cell =>
    intro hcell hread
    have hcell' : s.main = .create ∨ ∃ i, s.thread i = .started :=
      hcell.imp_right fun ⟨i, hi⟩ => ⟨i, (hstarted i).mp hi⟩
    refine hother s.cell (h.cell hcell' hread) fun id hid hcon => ?_
    have hcell'' : holder s none = some id := hread.trans hcon
    exact Option.some_ne_none t (h.handles.unique (hholder.trans hid) hcell'')
  case client =>
    intro i c' hc'
    dsimp only at hc'
    rcases eq_or_ne i t with rfl | hne
    · rw [Function.update_self] at hc'
      cases hc'
    · rw [Function.update_of_ne hne] at hc'
      exact hother c' (h.client i c' hc') fun id hid => h.ne_of_holder hne.symm hc hc' hid
  case closes =>
    intro d hd
    rcases List.mem_append.mp hd with hd | hd
    · exact h.closes d hd
    · rw [List.mem_singleton.mp hd]
      exact hpoints.fileOf_eq

/-- A step preserves it where descriptors are handed over. -/
theorem step (h : Sound s) (hok : HandedOver s a) (he : Effect s a s') : Sound s' := by
  cases he with
  | failed clientfd hmain hneg => exact h.failed hok hmain hneg
  | accepted fd hmain hfile => exact h.accepted hok hmain hfile
  | created hmain => exact h.created hok hmain
  | refused hmain => exact h.refused hok hmain
  | read t ht => exact h.read ht
  | moved a t c kernel thread haccept hcreate hfile haccepted ht hthread =>
    exact h.moved hfile haccepted ht hthread
  | closed t c ht => exact h.closed ht
  | finished id =>
    exact { h with
      cell := fun hcell hid => h.cell hcell hid, client := fun t c hc => h.client t c hc }

/-- How often a connection is read. -/
theorem count_reduceOption (reads : List (Option ℕ)) (id : ℕ) :
    reads.reduceOption.count id = reads.count (some id) := by
  induction reads with
  | nil => rfl
  | cons x reads ih =>
    cases x with
    | none =>
      rw [List.reduceOption_cons_of_none, List.count_cons_of_ne (by nofun)]
      exact ih
    | some k =>
      rw [List.reduceOption_cons_of_some, List.count_cons, List.count_cons, ih]
      simp

/-- No connection is read twice. -/
theorem count_read (h : Sound s) (id : ℕ) : s.reads.count (some id) ≤ 1 := by
  have hnodup : (s.reads.reduceOption ++ (pending s).toList).Nodup := h.reads ▸ List.nodup_range
  rw [← count_reduceOption]
  exact List.nodup_iff_count_le_one.mp (List.nodup_append.mp hnodup).1 id

/-- A connection that was not read is in `clientfd`. -/
theorem pending_of_unread (h : Sound s) (hid : id < s.kernel.accepted)
    (hunread : some id ∉ s.reads) : pending s = some id := by
  have hmem : id ∈ s.reads.reduceOption ++ (pending s).toList := by
    rw [h.reads]
    exact List.mem_range.mpr hid
  rcases List.mem_append.mp hmem with hread | hpending
  · exact absurd (List.reduceOption_mem_iff.mp hread) hunread
  · exact Option.mem_toList.mp hpending

/-- Each connection is served by one thread. -/
theorem servedOnce (h : Sound s) : ServedOnce s where
  read := fun id _ => h.count_read id
  waits := fun id hid hunread => by
    obtain ⟨hcell, -⟩ := of_pending (h.pending_of_unread hid hunread)
    refine ⟨hcell, ?_⟩
    cases hmain : s.main with
    | create => exact .inl rfl
    | accept =>
      obtain ⟨t, ht⟩ := h.taken (by rw [hcell]; exact nofun) hmain (by rwa [hcell])
      exact .inr ⟨t, h.lt_created ht, ht⟩
  alone := fun t t' c c' hc hc' hfd heq => by
    obtain ⟨id, hid, hfile⟩ := (h.client t c hc).exists_id hfd
    obtain ⟨id', hid', hfile'⟩ := (h.client t' c' hc').exists_id (heq ▸ hfd)
    rw [← heq, hfile] at hfile'
    cases hfile'
    by_contra hne
    exact h.ne_of_holder hne hc hc' hid hid'
  serves := fun t c hc => (h.client t c hc).fileOf_eq
  closes := h.closes
  once := h.handles.nodup

end Sound

/-- A connection that no thread will read. -/
structure Lost (s : State) (id : ℕ) : Prop where
  /-- It was accepted. -/
  accepted : id < s.kernel.accepted
  /-- Its descriptor was not read. -/
  unread : some id ∉ s.reads
  /-- Where its descriptor is still in `clientfd` no thread will read it before the next one is
  there. -/
  cell : s.cell.id = some id → s.main = .accept ∧ ∀ t, s.thread t ≠ .started

namespace Lost

/-- A step does not bring it back. -/
theorem step (h : Lost s id) (he : Effect s a s') : Lost s' id := by
  have hlt := h.accepted
  cases he with
  | failed clientfd hmain hneg => exact ⟨hlt, h.unread, nofun⟩
  | accepted fd hmain hfile =>
    refine ⟨Nat.lt_succ_of_lt hlt, h.unread, fun hcell => ?_⟩
    -- The connections are numbered anew, so this is not the lost one.
    have hid : s.kernel.accepted = id := Option.some.inj hcell
    omega
  | created hmain =>
    refine ⟨hlt, h.unread, fun hcell => ?_⟩
    have hno := (h.cell hcell).1
    rw [hmain] at hno
    cases hno
  | refused hmain =>
    refine ⟨hlt, h.unread, fun hcell => ?_⟩
    have hno := (h.cell hcell).1
    rw [hmain] at hno
    cases hno
  | read t ht =>
    -- A thread that reads would contradict what is known where the descriptor is still there.
    have hne : s.cell.id ≠ some id := fun hcell => (h.cell hcell).2 t ht
    refine ⟨hlt, fun hmem => ?_, fun hcell => absurd hcell hne⟩
    rcases List.mem_append.mp hmem with hmem | hmem
    · exact h.unread hmem
    · exact hne (List.mem_singleton.mp hmem).symm
  | moved a t c kernel thread haccept hcreate hfile haccepted ht hthread =>
    refine ⟨by dsimp only; omega, h.unread, fun hcell => ?_⟩
    obtain ⟨hmain, hno⟩ := h.cell hcell
    exact ⟨hmain, fun i hi =>
      hno i ((started_update (ne_started ht) (ne_started hthread) i).mp hi)⟩
  | closed t c ht =>
    have hc : (s.thread t).client = some c := by
      rw [ht]
      rfl
    refine ⟨?_, h.unread, fun hcell => ?_⟩
    · dsimp only
      split <;> exact hlt
    · obtain ⟨hmain, hno⟩ := h.cell hcell
      have hstarted := started_update (ne_started hc) (nofun : Thread.returned ≠ .started)
      exact ⟨hmain, fun i hi => hno i ((hstarted i).mp hi)⟩
  | finished => exact ⟨hlt, h.unread, h.cell⟩

/-- A lost connection is not served. -/
theorem not_servedOnce (h : Lost s id) : ¬ServedOnce s := by
  intro hserved
  obtain ⟨hid, hcell⟩ := hserved.waits id h.accepted h.unread
  obtain ⟨hmain, hno⟩ := h.cell hid
  rcases hcell with hcreate | ⟨t, -, ht⟩
  · rw [hmain] at hcreate
    cases hcreate
  · exact hno t ht

end Lost

/-- A connection that is read twice. -/
def Doubled (s : State) (id : ℕ) : Prop := id < s.kernel.accepted ∧ 2 ≤ s.reads.count (some id)

/-- A step does not make it unread. -/
theorem Doubled.step (h : Doubled s id) (he : Effect s a s') : Doubled s' id := by
  obtain ⟨hlt, hcount⟩ := h
  cases he with
  | failed | created | refused | finished => exact ⟨hlt, hcount⟩
  | accepted => exact ⟨Nat.lt_succ_of_lt hlt, hcount⟩
  | read t ht =>
    refine ⟨hlt, hcount.trans ?_⟩
    dsimp only
    rw [List.count_append]
    exact Nat.le_add_right ..
  | moved a t c kernel thread haccept hcreate hfile haccepted =>
    exact ⟨by dsimp only; omega, hcount⟩
  | closed =>
    refine ⟨?_, hcount⟩
    dsimp only
    split <;> exact hlt

/-- A connection that is read twice is not served once. -/
theorem Doubled.not_servedOnce (h : Doubled s id) : ¬ServedOnce s := by
  intro hserved
  have hle := hserved.read id h.1
  have hge := h.2
  omega

/-- A thread reads what is in `clientfd`. -/
theorem step_read (ht : s.thread t = .started) : step s (.read t) = some { s with
    thread := update s.thread t (.receiving s.cell)
    reads := s.reads ++ [s.cell.id] } := by
  simp only [step, ThreadPerClient.read, ht]

/-- Where a thread has to read a connection that was read, or that another one has to read, the
threads read it twice. -/
theorem exists_doubled (hid : s.cell.id = some id) (hlt : id < s.kernel.accepted)
    (ht : s.thread t = .started)
    (hagain : some id ∈ s.reads ∨ ∃ t', t' ≠ t ∧ s.thread t' = .started) :
    ∃ u, Lib.Reaches step (fun _ a => ∃ t, a = .read t) s u ∧ Doubled u id := by
  have hfirst : Lib.Reaches step (fun _ a => ∃ t, a = .read t) s { s with
      thread := update s.thread t (.receiving s.cell)
      reads := s.reads ++ [s.cell.id] } := .single ⟨t, rfl⟩ (step_read ht)
  rcases hagain with hmem | ⟨t', hne, ht'⟩
  · refine ⟨_, hfirst, hlt, ?_⟩
    dsimp only
    have hpos := List.count_pos_iff.mpr hmem
    rw [hid, List.count_append, List.count_singleton_self]
    omega
  · -- The other thread still has to read when the first one has.
    have ht'' : update s.thread t (.receiving s.cell) t' = .started := by
      rw [Function.update_of_ne hne]
      exact ht'
    have hsecond := hfirst.tail ⟨t', rfl⟩ (step_read ht'')
    refine ⟨_, hsecond, hlt, ?_⟩
    dsimp only
    rw [hid, List.count_append, List.count_append, List.count_singleton_self]
    omega

/-- A connection whose descriptor is in `clientfd` is accepted. -/
theorem Sound.lt_accepted (h : Sound s) (hid : s.cell.id = some id) : id < s.kernel.accepted := by
  by_cases hmem : s.cell.id ∈ s.reads
  · have hread : id ∈ s.reads.reduceOption ++ (pending s).toList :=
      List.mem_append_left _ (List.reduceOption_mem_iff.mpr (hid ▸ hmem))
    rw [h.reads] at hread
    exact List.mem_range.mp hread
  · have hpending : holder s none = some id := (pending_of_notMem hmem).trans hid
    exact h.handles.lt hpending

/-- The first step that does not hand over the descriptors loses a connection, or leaves one for the
threads to read twice. -/
theorem Sound.exists_unserved (h : Sound s) (hbad : ¬HandedOver s a) (he : Effect s a s') :
    ∃ u id, Lib.Reaches ThreadPerClient.step (fun _ b => ∃ t, b = .read t) s' u ∧
      (Lost u id ∨ Doubled u id) := by
  -- A connection that a thread has to read is accepted and was not read.
  have hwaiting : ∀ id t, s.cell.id = some id → s.thread t = .started →
      id < s.kernel.accepted ∧ some id ∉ s.reads := by
    intro id t hid ht
    have hunread : s.cell.id ∉ s.reads := fun hmem => h.fresh (by rw [hid]; exact nofun) hmem t ht
    exact ⟨h.lt_accepted hid, hid ▸ hunread⟩
  cases he with
  | failed clientfd hmain hneg =>
    unfold HandedOver at hbad
    have hfirst : ¬(s.cell.id ≠ none → ∀ t < s.created, s.thread t ≠ .started) :=
      fun hcon => hbad ⟨hcon, fun hpos => by omega⟩
    push Not at hfirst
    obtain ⟨hne, t, -, ht⟩ := hfirst
    obtain ⟨id, hid⟩ := Option.ne_none_iff_exists'.mp hne
    obtain ⟨hlt, hunread⟩ := hwaiting id t hid ht
    exact ⟨_, id, .refl, .inl ⟨hlt, hunread, nofun⟩⟩
  | accepted fd hmain hfile =>
    unfold HandedOver at hbad
    rcases not_and_or.mp hbad with hfirst | hsecond
    · push Not at hfirst
      obtain ⟨hne, t, -, ht⟩ := hfirst
      obtain ⟨id, hid⟩ := Option.ne_none_iff_exists'.mp hne
      obtain ⟨hlt, hunread⟩ := hwaiting id t hid ht
      refine ⟨_, id, .refl, .inl ⟨Nat.lt_succ_of_lt hlt, hunread, fun hcell => ?_⟩⟩
      have heq : s.kernel.accepted = id := Option.some.inj hcell
      omega
    · -- Two threads are left that read the new descriptor.
      push Not at hsecond
      obtain ⟨-, t, -, t', -, ht, ht', hne⟩ := hsecond
      obtain ⟨u, hu, hdoubled⟩ := exists_doubled (s := { s with
        main := .create
        kernel := s.kernel.accept fd
        cell := { clientfd := fd, id := some s.kernel.accepted } }) rfl (Nat.lt_succ_self _) ht
        (.inr ⟨t', hne.symm, ht'⟩)
      exact ⟨u, _, hu, .inr hdoubled⟩
  | created hmain =>
    unfold HandedOver at hbad
    obtain ⟨hne, hiff⟩ := Classical.not_imp.mp hbad
    obtain ⟨id, hid⟩ := Option.ne_none_iff_exists'.mp hne
    have hnot : ¬(s.cell.id ∉ s.reads ∧ ∀ t < s.created, s.thread t ≠ .started) :=
      fun hcon => hiff (iff_of_true rfl hcon)
    -- The new thread reads the descriptor again, or another one does.
    have hagain : some id ∈ s.reads ∨ ∃ t, t ≠ s.created ∧
        update s.thread s.created .started t = .started := by
      by_cases hmem : s.cell.id ∈ s.reads
      · exact .inl (hid ▸ hmem)
      · have hleft : ¬∀ t < s.created, s.thread t ≠ .started := fun hcon => hnot ⟨hmem, hcon⟩
        push Not at hleft
        obtain ⟨t, hlt, ht⟩ := hleft
        exact .inr ⟨t, hlt.ne, (Function.update_of_ne hlt.ne _ _).trans ht⟩
    have hlt : id < s.kernel.accepted := h.lt_accepted hid
    obtain ⟨u, hu, hdoubled⟩ := exists_doubled (s := { s with
      main := .accept
      thread := update s.thread s.created .started
      created := s.created + 1 }) hid hlt (Function.update_self ..) hagain
    exact ⟨u, id, hu, .inr hdoubled⟩
  | refused hmain =>
    unfold HandedOver at hbad
    obtain ⟨hne, hiff⟩ := Classical.not_imp.mp hbad
    obtain ⟨id, hid⟩ := Option.ne_none_iff_exists'.mp hne
    obtain ⟨hunread, hno⟩ : s.cell.id ∉ s.reads ∧ ∀ t < s.created, s.thread t ≠ .started := by
      by_contra hcon
      exact hiff (iff_of_false Bool.false_ne_true hcon)
    refine ⟨_, id, .refl, .inl ⟨h.lt_accepted hid, hid ▸ hunread, fun _ => ⟨rfl, fun t ht => ?_⟩⟩⟩
    exact hno t (h.lt_created ht) ht
  | moved a t c kernel thread haccept hcreate =>
    cases a with
    | accept clientfd => exact absurd rfl (haccept clientfd)
    | create success => exact absurd rfl (hcreate success)
    | read | recv | send | close | finish => exact absurd trivial hbad
  | read | closed | finished => exact absurd trivial hbad

/-- As long as descriptors are handed over, each connection is read, served and closed by one
thread. From the first step against this the threads come, by their reads alone, to a state from
which on some connection is not served once. -/
theorem served_of_handedOver (p : Listening) (garbage : ℤ) :
    (∀ s, ReachableIf p garbage HandedOver s → ServedOnce s) ∧
    ∀ s a s', ReachableIf p garbage HandedOver s → ¬HandedOver s a → step s a = some s' →
      ∃ u, Lib.Reaches step (fun _ b => ∃ t, b = .read t) s' u ∧
        ∀ v, Lib.Reaches step (fun _ _ => True) u v → ¬ServedOnce v := by
  have hsound : ∀ s, ReachableIf p garbage HandedOver s → Sound s := fun s hs =>
    Lib.Reaches.invariant (Sound.init p garbage)
      (fun _ _ _ h hok hstep => h.step hok (effect_of_step hstep)) hs
  refine ⟨fun s hs => (hsound s hs).servedOnce, fun s a s' hs hbad hstep => ?_⟩
  obtain ⟨u, id, hu, hunserved⟩ := (hsound s hs).exists_unserved hbad (effect_of_step hstep)
  refine ⟨u, hu, fun v hv => ?_⟩
  rcases hunserved with hlost | hdoubled
  · have hlost' : Lost v id := hv.invariant (I := fun w => Lost w id) hlost
      fun _ _ _ h _ hstep => h.step (effect_of_step hstep)
    exact hlost'.not_servedOnce
  · have hdoubled' : Doubled v id := hv.invariant (I := fun w => Doubled w id) hdoubled
      fun _ _ _ h _ hstep => h.step (effect_of_step hstep)
    exact hdoubled'.not_servedOnce

/-- A server whose listening socket is 3. -/
def usual : Listening where
  sockfd := 3
  others := fun fd => decide (fd < 3)

/-- Two clients are accepted, the first one leaves, and a third one gets its descriptor. -/
def reusedRun : List Action :=
  [.accept 4, .create true, .read 0, .accept 5, .create true, .recv 0 (some [97]), .read 1,
    .send 0 [97], .finish 0, .recv 0 (some []), .close 0, .accept 4, .create true, .read 2]

/-- `accept` fails, and the thread created after it stands in for one that is not created. -/
def standInRun : List Action :=
  [.accept (-1), .create true, .accept 4, .create false, .read 0]

/-- A run in which three connections are served, and one in which a thread stands in for another. -/
theorem served_of_handedOver_run :
    (∃ s, s.reads = [some 0, some 1, some 2] ∧
      s.closes = [{ id := some 0, target := some (.conn 0) }] ∧ ServedOnce s) ∧
    ∃ s, s.kernel.accepted = 1 ∧ s.created = 1 ∧ s.reads = [some 0] ∧ ServedOnce s := by
  constructor
  · obtain ⟨s, hs, hreads, hcloses⟩ := exists_reachable usual 0 HandedOver reusedRun
      (fun s => s.reads = [some 0, some 1, some 2] ∧
        s.closes = [{ id := some 0, target := some (.conn 0) }]) (by decide +kernel)
    exact ⟨s, hreads, hcloses, (served_of_handedOver usual 0).1 s hs⟩
  · obtain ⟨s, hs, haccepted, hcreated, hreads⟩ := exists_reachable usual 0 HandedOver standInRun
      (fun s => s.kernel.accepted = 1 ∧ s.created = 1 ∧ s.reads = [some 0]) (by decide +kernel)
    exact ⟨s, haccepted, hcreated, hreads, (served_of_handedOver usual 0).1 s hs⟩

/-- Where two clients are accepted before the first thread has read, both threads serve the second
one. -/
theorem served_of_handedOver_late : ∃ s, ReachableIf usual 0 (fun _ _ => True) s ∧
    s.kernel.accepted = 2 ∧ s.reads = [some 1, some 1] ∧
    s.thread 0 = .receiving { clientfd := 5, id := some 1 } ∧
    s.thread 1 = .receiving { clientfd := 5, id := some 1 } ∧ ¬ServedOnce s := by
  obtain ⟨s, hs, haccepted, hreads, h0, h1⟩ := exists_reachable usual 0 (fun _ _ => True)
    [.accept 4, .create true, .accept 5, .create true, .read 0, .read 1]
    (fun s => s.kernel.accepted = 2 ∧ s.reads = [some 1, some 1] ∧
      s.thread 0 = .receiving { clientfd := 5, id := some 1 } ∧
      s.thread 1 = .receiving { clientfd := 5, id := some 1 }) (by decide +kernel)
  refine ⟨s, hs, haccepted, hreads, h0, h1, fun hserved => ?_⟩
  have hsame := hserved.alone 0 1 { clientfd := 5, id := some 1 } { clientfd := 5, id := some 1 }
    (by rw [h0]; rfl) (by rw [h1]; rfl) (by decide) rfl
  cases hsame

end CPStudy.Epoll.ThreadPerClient

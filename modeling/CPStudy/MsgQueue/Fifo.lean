import CPStudy.MsgQueue.Lists
import CPStudy.MsgQueue.Mutexes

/-!
# The message queue is first in, first out

The messages that are in the queue are those of the two lists: `puts` is `gets`, then the
consumers' list, then the producers'. Between `queue->get_head = queue->put_head` and the end of
`__msgqueue_swap` the cell in front of the consumers' list is not at `get_head` but in a local
variable of the consumer, and the list is empty; `Queued` names that cell `front`. Every step of
every thread keeps this, so that whatever the interleaving the queue hands out what was put, in the
order in which it was linked in, nothing lost and nothing twice.
-/

namespace CPStudy.MsgQueue

open Function (update)

variable {ι : Type*} {q : Config} {s s' : State ι} {a : Action ι} {t u : ι} {p p' : Pc}
  {front msg next : ℤ} {g l : List ℤ}

/-- The memory, the lists in it and the history. -/
def State.store (s : State ι) : (ℤ → ℤ) × ℤ × ℤ × ℤ × ℕ × List ℤ × List ℤ :=
  (s.mem, s.get_head, s.put_head, s.put_tail, s.msg_cnt, s.puts, s.gets)

/-- What a consumer knows of the messages that it may take. -/
def At (q : Config) (mem : ℤ → ℤ) (g : List ℤ) : Pc → Prop
  | .swapHead => g = []
  | .swapUnlock cnt => cnt = g.length
  | .getMsg => g ≠ []
  | .getNext msg => g.head? = some msg
  | .getStore msg next => g.head? = some msg ∧ next = mem (q.link msg)
  | _ => True

/-- Only the holder of `get_mutex` knows anything. -/
theorem At.of_holdsGet {mem : ℤ → ℤ} (h : p.holdsGet = false) : At q mem g p := by
  cases p <;> trivial

/-- What is known does not depend on the notification. -/
theorem At.forget {mem : ℤ → ℤ} (h : At q mem g p) : At q mem g p.forget := by
  cases p <;> exact h

/-- Who has locked `put_mutex` knows nothing. -/
theorem Locks.at {mem : ℤ → ℤ} (h : Locks p p') : At q mem g p' := by cases h <;> trivial

/-- Who has signalled knows nothing. -/
theorem Signals.at {mem : ℤ → ℤ} (h : Signals p p') : At q mem g p' := by cases h <;> trivial

/-- What is known does not depend on the links of other messages. -/
theorem At.congr {mem mem' : ℤ → ℤ} (h : At q mem g p)
    (heq : ∀ m ∈ g, mem' (q.link m) = mem (q.link m)) : At q mem' g p := by
  cases p with
  | getStore msg next =>
    obtain ⟨hhead, hnext⟩ := h
    have hmem : msg ∈ g := List.mem_of_mem_head? hhead
    exact ⟨hhead, by rw [heq msg hmem, hnext]⟩
  | _ => exact h

/-- The queue holds the messages of two lists, `front` being the cell in front of the first. -/
structure Queued (q : Config) (s : State ι) (front : ℤ) (g l : List ℤ) : Prop where
  /-- The lists in the memory. -/
  lists : Lists q s.mem front s.put_head s.put_tail g l
  /-- `msg_cnt` counts the producers' list. -/
  cnt : s.msg_cnt = l.length
  /-- What was put was taken or is in the lists, in order. -/
  order : s.puts = s.gets ++ (g ++ l)
  /-- A message that is being put has its link outside the queue. -/
  fresh : ∀ t m, (s.spot t).putting = some m →
    q.link m ≠ 0 ∧ q.link m ≠ q.head1 ∧ q.link m ≠ q.head2 ∧ m ∉ g ++ l
  /-- Nobody else is putting it. -/
  alone : ∀ t u m, (s.spot t).putting = some m → (s.spot u).putting = some m → t = u
  /-- Its link is `NULL` from the first store on. -/
  ready : ∀ t m, (s.spot t).ready = some m → s.mem (q.link m) = 0
  /-- A consumer that swaps the lists has the cell in front of its own, empty one. -/
  swapping : ∀ t o, (s.spot t).local_head = some o →
    o = front ∧ g = [] ∧ s.get_head = s.put_head
  /-- While nobody swaps the lists the cell is at `get_head`. -/
  still : (∀ t, (s.spot t).local_head = none) → s.get_head = front
  /-- What the consumers know. -/
  known : ∀ t, At q s.mem g (s.spot t)

namespace Queued

/-- The new queue holds nothing. -/
theorem init (mem : ℤ → ℤ) (hne : q.head1 ≠ q.head2) :
    Queued q (State.init ι q mem) q.head1 [] [] where
  lists := Lists.create q mem hne
  cnt := rfl
  order := rfl
  fresh := fun t m h => by cases h
  alone := fun t u m h => by cases h
  ready := fun t m h => by cases h
  swapping := fun t o h => by cases h
  still := fun _ => rfl
  known := fun _ => trivial

/-- The cells of the queue are those that belong to it. -/
theorem not_owned (h : Queued q s front g l) {a : ℤ} (ha : ¬ s.Owned q a) :
    a ≠ q.head1 ∧ a ≠ q.head2 ∧ a ∉ (g ++ l).map q.link ∧
      ∀ t m, (s.pc t).putting = some m → a ≠ q.link m := by
  unfold State.Owned at ha
  rw [h.order, List.drop_left, not_or, not_or, not_or] at ha
  obtain ⟨h1, h2, hmem, hput⟩ := ha
  exact ⟨h1, h2, hmem, fun t m hm heq => hput ⟨t, m, hm, heq⟩⟩

/-- Where the consumers' list is not empty, `get_head` is the cell in front of it. -/
theorem get_head_eq (h : Queued q s front g l) (hg : g ≠ []) : s.get_head = front := by
  apply h.still
  intro t
  by_contra hne
  obtain ⟨o, ho⟩ := Option.ne_none_iff_exists'.mp hne
  exact hg (h.swapping t o ho).2.1

/-- While a consumer holds `get_mutex` outside `__msgqueue_swap`, `get_head` is the cell in front.
-/
theorem get_head_of_holds (h : Queued q s front g l) (hk : Locked s) (hpc : s.pc t = p)
    (hp : p.holdsGet = true) (hlocal : p.local_head = none) : s.get_head = front := by
  apply h.still
  intro u
  by_cases hu : u = t
  · rw [hu, State.spot, hpc]
    cases p <;> first | rfl | cases hlocal
  · exact Pc.local_head_of_not_holdsGet (hk.elsewhere hpc hp hu)

/-- Somebody else writes to memory that does not belong to the queue, or a producer to its own
link. -/
theorem store (h : Queued q s front g l) {a v : ℤ} (h1 : a ≠ q.head1) (h2 : a ≠ q.head2)
    (hmem : a ∉ (g ++ l).map q.link) (hready : ∀ t m, (s.spot t).ready = some m → a ≠ q.link m) :
    Queued q { s with mem := update s.mem a v } front g l := by
  refine { h with lists := h.lists.write h1 h2 hmem, ready := ?_, known := ?_ }
  · intro t m hm
    change update s.mem a v (q.link m) = 0
    rw [Function.update_of_ne (hready t m hm).symm]
    exact h.ready t m hm
  · intro t
    refine (h.known t).congr fun m hm => ?_
    have hl : q.link m ∈ (g ++ l).map q.link :=
      List.mem_map_of_mem (List.mem_append_left l hm)
    exact Function.update_of_ne (ne_of_mem_of_not_mem hl hmem) _ _

/-- Only the places of the threads and the fields of the lists count. -/
theorem congr (h : Queued q s front g l) (hspot : s'.spot = s.spot)
    (hsame : s'.store = s.store) : Queued q s' front g l := by
  simp only [State.store, Prod.mk.injEq] at hsame
  obtain ⟨hmem, hgh, hph, hpt, hcnt, hputs, hgets⟩ := hsame
  constructor
  case lists => rw [hmem, hph, hpt]; exact h.lists
  case cnt => rw [hcnt]; exact h.cnt
  case order => rw [hputs, hgets]; exact h.order
  case fresh => rw [hspot]; exact h.fresh
  case alone => rw [hspot]; exact h.alone
  case ready => rw [hspot, hmem]; exact h.ready
  case swapping => rw [hspot, hgh, hph]; exact h.swapping
  case still => rw [hspot, hgh]; exact h.still
  case known => rw [hspot, hmem]; exact h.known

/-- What a consumer knows after it unlocked `put_mutex`. -/
theorem at_unlock (h : Queued q s front g l) (hpc : s.pc t = p) (hl : Unlocks p p') :
    At q s.mem g p' := by
  have hknown := h.known t
  rw [spot_eq hpc] at hknown
  cases hl with
  | put => trivial
  | swap hpos =>
    change _ = g.length at hknown
    rw [hknown] at hpos
    exact List.ne_nil_of_length_pos hpos
  | swapNull => trivial
  | nb => trivial

/-- A message that nobody is putting any more is linked in. -/
theorem linked (h : Queued q s front g l) (hnull : s.mem (q.link msg) = 0)
    (hfresh : q.link msg ≠ 0 ∧ q.link msg ≠ q.head1 ∧ q.link msg ≠ q.head2 ∧ msg ∉ g ++ l)
    (halone : ∀ u, (s.spot u).putting ≠ some msg) :
    Queued q { s with
      mem := update s.mem s.put_tail (q.link msg)
      put_tail := q.link msg
      msg_cnt := s.msg_cnt + 1
      puts := s.puts ++ [msg] } front g (l ++ [msg]) := by
  obtain ⟨hne, h1, h2, hmem⟩ := hfresh
  have htail := h.lists.tail_notMem
  rw [List.mem_cons, not_or] at htail
  refine { h with lists := h.lists.link hnull hne h1 h2 hmem, cnt := ?_, order := ?_, fresh := ?_,
                  ready := ?_, known := ?_ }
  · rw [List.length_append, List.length_singleton, ← h.cnt]
  · rw [h.order]
    simp only [List.append_assoc]
  · intro u m hm
    obtain ⟨hm0, hm1, hm2, hml⟩ := h.fresh u m hm
    refine ⟨hm0, hm1, hm2, ?_⟩
    rw [← List.append_assoc, List.mem_append, List.mem_singleton, not_or]
    refine ⟨hml, ?_⟩
    rintro rfl
    exact halone u hm
  · intro u m hm
    obtain ⟨-, hm1, hm2, hml⟩ := h.fresh u m (Pc.putting_of_ready hm)
    -- The link of another message that is being put is not the last cell.
    have hcell : q.link m ≠ s.put_tail := by
      intro heq
      have hcell := h.lists.tail_mem
      rw [← heq, List.mem_cons] at hcell
      rcases hcell with hcell | hcell
      · exact h.lists.ne_put_head hm1 hm2 hcell
      · exact hml (List.mem_append_right g (Config.link_mem_iff.mp hcell))
    change update s.mem s.put_tail (q.link msg) (q.link m) = 0
    rw [Function.update_of_ne hcell]
    exact h.ready u m hm
  · intro u
    refine (h.known u).congr fun m hm => ?_
    have hcell : q.link m ∈ g.map q.link := List.mem_map_of_mem hm
    exact Function.update_of_ne (ne_of_mem_of_not_mem hcell htail.2) _ _

/-- The first message is taken out, when no consumer knows anything about it. -/
theorem taken (h : Queued q s front (msg :: g) l) (hat : ∀ u mem g, At q mem g (s.spot u)) :
    Queued q { s with
      mem := update s.mem s.get_head (s.mem (q.link msg))
      gets := s.gets ++ [msg] } front g l := by
  obtain rfl : s.get_head = front := h.get_head_eq (List.cons_ne_nil msg g)
  refine { h with lists := h.lists.take, order := ?_, fresh := ?_, ready := ?_, swapping := ?_,
                  still := fun _ => rfl, known := fun u => hat u _ _ }
  · rw [h.order]
    simp only [List.append_assoc, List.cons_append, List.nil_append]
  · intro u m hm
    obtain ⟨hm0, hm1, hm2, hml⟩ := h.fresh u m hm
    exact ⟨hm0, hm1, hm2, List.not_mem_of_not_mem_cons hml⟩
  · intro u m hm
    obtain ⟨-, hm1, hm2, -⟩ := h.fresh u m (Pc.putting_of_ready hm)
    change update s.mem s.get_head _ (q.link m) = 0
    rw [Function.update_of_ne (h.lists.ne_front hm1 hm2)]
    exact h.ready u m hm
  · intro u o ho
    have hnil := (h.swapping u o ho).2.1
    cases hnil

variable [DecidableEq ι]

/-- The place of a thread after a step of one thread. -/
theorem spot_cases (hspot : s'.spot = update s.spot t p) (u : ι) :
    (u = t ∧ s'.spot u = p) ∨ (u ≠ t ∧ s'.spot u = s.spot u) := by
  rw [hspot]
  by_cases hu : u = t
  · left
    rw [hu, Function.update_self]
    exact ⟨rfl, rfl⟩
  · right
    rw [Function.update_of_ne hu]
    exact ⟨hu, rfl⟩

/-- A thread that goes on without a message leaves those that are being put. -/
theorem putting_of_spot (hspot : s'.spot = update s.spot t p) (hp : p.putting = none) {m : ℤ}
    (hm : (s'.spot u).putting = some m) : (s.spot u).putting = some m := by
  rcases spot_cases hspot u with ⟨-, heq⟩ | ⟨-, heq⟩
  · rw [heq, hp] at hm
    cases hm
  · rwa [heq] at hm

/-- It leaves those with their link at `NULL`. -/
theorem ready_of_spot (hspot : s'.spot = update s.spot t p) (hp : p.ready = none) {m : ℤ}
    (hm : (s'.spot u).ready = some m) : (s.spot u).ready = some m := by
  rcases spot_cases hspot u with ⟨-, heq⟩ | ⟨-, heq⟩
  · rw [heq, hp] at hm
    cases hm
  · rwa [heq] at hm

/-- A thread goes on and touches neither the lists nor the links. -/
theorem move (h : Queued q s front g l) (hspot : s'.spot = update s.spot t p')
    (hsame : s'.store = s.store)
    (hput : ∀ m, p'.putting = some m →
      (q.link m ≠ 0 ∧ q.link m ≠ q.head1 ∧ q.link m ≠ q.head2 ∧ m ∉ g ++ l) ∧
        ∀ u, (s.spot u).putting = some m → u = t)
    (hready : ∀ m, p'.ready = some m → s.mem (q.link m) = 0)
    (hlocal : p'.local_head = (s.spot t).local_head) (hat : At q s.mem g p') :
    Queued q s' front g l := by
  simp only [State.store, Prod.mk.injEq] at hsame
  obtain ⟨hmem, hgh, hph, hpt, hcnt, hputs, hgets⟩ := hsame
  -- Nobody's `get_head` of `__msgqueue_swap` is another one afterwards.
  have hlh : ∀ u, (s'.spot u).local_head = (s.spot u).local_head := by
    intro u
    rcases spot_cases hspot u with ⟨rfl, hu⟩ | ⟨-, hu⟩
    · rw [hu, hlocal]
    · rw [hu]
  constructor
  case lists => rw [hmem, hph, hpt]; exact h.lists
  case cnt => rw [hcnt, h.cnt]
  case order => rw [hputs, hgets, h.order]
  case fresh =>
    intro u m hm
    rcases spot_cases hspot u with ⟨rfl, hu⟩ | ⟨-, hu⟩
    · rw [hu] at hm
      exact (hput m hm).1
    · rw [hu] at hm
      exact h.fresh u m hm
  -- Of two threads that put the same message either is `t`, or both were there before.
  case alone =>
    intro u v m hum hvm
    rcases spot_cases hspot u with ⟨rfl, hu⟩ | ⟨-, hu⟩
    · rw [hu] at hum
      rcases spot_cases hspot v with ⟨rfl, hv⟩ | ⟨-, hv⟩
      · rfl
      · rw [hv] at hvm
        exact ((hput m hum).2 v hvm).symm
    · rw [hu] at hum
      rcases spot_cases hspot v with ⟨rfl, hv⟩ | ⟨-, hv⟩
      · rw [hv] at hvm
        exact (hput m hvm).2 u hum
      · rw [hv] at hvm
        exact h.alone u v m hum hvm
  case ready =>
    intro u m hm
    rw [hmem]
    rcases spot_cases hspot u with ⟨rfl, hu⟩ | ⟨-, hu⟩
    · rw [hu] at hm
      exact hready m hm
    · rw [hu] at hm
      exact h.ready u m hm
  case swapping =>
    intro u o ho
    rw [hlh] at ho
    rw [hgh, hph]
    exact h.swapping u o ho
  case still =>
    intro hnone
    rw [hgh]
    exact h.still fun u => (hlh u).symm.trans (hnone u)
  case known =>
    intro u
    rw [hmem]
    rcases spot_cases hspot u with ⟨rfl, hu⟩ | ⟨-, hu⟩
    · rw [hu]
      exact hat
    · rw [hu]
      exact h.known u

/-- A thread goes on with the message that it has to put, or without one. -/
theorem goOn (h : Queued q s front g l) (hpc : s.pc t = p)
    (hspot : s'.spot = update s.spot t p'.forget)
    (hsame : s'.store = s.store)
    (hmsg : p'.putting = none ∨ p'.putting = p.ready)
    (hlocal : p'.local_head = p.local_head) (hat : At q s.mem g p') :
    Queued q s' front g l := by
  have hspot_t : s.spot t = p.forget := spot_eq hpc
  -- What the thread has to put afterwards it had before, with its link at `NULL`.
  have hhad : ∀ m, p'.putting = some m → (s.spot t).ready = some m := by
    intro m hm
    rw [hspot_t, Pc.ready_forget]
    rcases hmsg with hnone | heq
    · rw [hnone] at hm
      cases hm
    · rw [← heq, hm]
  refine h.move hspot hsame ?_ ?_ ?_ hat.forget
  · intro m hm
    rw [Pc.putting_forget] at hm
    have hput : (s.spot t).putting = some m := Pc.putting_of_ready (hhad m hm)
    exact ⟨h.fresh t m hput, fun u hu => h.alone u t m hu hput⟩
  · intro m hm
    rw [Pc.ready_forget] at hm
    exact h.ready t m (hhad m (Pc.putting_of_ready hm))
  · rw [hspot_t, Pc.local_head_forget, Pc.local_head_forget, hlocal]

/-- `msgqueue_put` is called. -/
theorem call (h : Queued q s front g l) (hlink : q.link msg ≠ 0)
    (hfree : ¬ s.Owned q (q.link msg)) (hpc : s.pc t = .idle) :
    Queued q (s.goto t (.putInit msg)) front g l := by
  obtain ⟨h1, h2, hmem, hput⟩ := h.not_owned hfree
  refine h.move (spot_goto s t _) rfl ?_ ?_ ?_ trivial
  · intro m hm
    obtain rfl : msg = m := Option.some.inj hm
    refine ⟨⟨hlink, h1, h2, fun hm => hmem (List.mem_map_of_mem hm)⟩, fun u hu => ?_⟩
    rw [State.spot, Pc.putting_forget] at hu
    exact absurd rfl (hput u msg hu)
  · intro m hm
    cases hm
  · rw [spot_eq hpc]
    rfl

/-- The link of a message is initialised. -/
theorem initLink (h : Queued q s front g l) (hpc : s.pc t = .putInit msg) :
    Queued q ({ s with mem := update s.mem (q.link msg) 0 }.goto t (.putLock msg)) front g l := by
  have hput : (s.spot t).putting = some msg := by
    rw [spot_eq hpc]
    rfl
  obtain ⟨hne, h1, h2, hmem⟩ := h.fresh t msg hput
  have hlinks : q.link msg ∉ (g ++ l).map q.link := fun hm => hmem (Config.link_mem_iff.mp hm)
  have hstore : Queued q { s with mem := update s.mem (q.link msg) 0 } front g l := by
    refine h.store h1 h2 hlinks fun u m hm heq => ?_
    obtain rfl : msg = m := q.link_injective heq
    -- The thread itself has its link not at `NULL` yet, and nobody else puts the message.
    obtain rfl : u = t := h.alone u t msg (Pc.putting_of_ready hm) hput
    rw [spot_eq hpc] at hm
    cases hm
  refine hstore.move (spot_goto _ t _) rfl ?_ ?_ ?_ trivial
  · intro m hm
    obtain rfl : msg = m := Option.some.inj hm
    exact ⟨⟨hne, h1, h2, hmem⟩, fun u hu => h.alone u t msg hu hput⟩
  · intro m hm
    obtain rfl : msg = m := Option.some.inj hm
    exact Function.update_self _ _ _
  · change none = (s.spot t).local_head
    rw [spot_eq hpc]
    rfl

/-- A message is linked in by the thread that put it. -/
theorem link (h : Queued q s front g l) (hpc : s.pc t = .putLink msg) :
    Queued q ({ s with
      mem := update s.mem s.put_tail (q.link msg)
      put_tail := q.link msg
      msg_cnt := s.msg_cnt + 1
      puts := s.puts ++ [msg] }.goto t .putUnlock) front g (l ++ [msg]) := by
  have hspot_t : s.spot t = .putLink msg := spot_eq hpc
  have hput : (s.spot t).putting = some msg := by rw [hspot_t]; rfl
  have hready : (s.spot t).ready = some msg := by rw [hspot_t]; rfl
  have hgo : Queued q (s.goto t .putUnlock) front g l :=
    h.goOn hpc (spot_goto s t _) rfl (.inl rfl) rfl trivial
  refine hgo.linked (h.ready t msg hready) (h.fresh t msg hput) fun u hu => ?_
  rcases spot_cases (spot_goto s t .putUnlock) u with ⟨-, heq⟩ | ⟨hut, heq⟩
  · rw [heq] at hu
    cases hu
  · rw [heq] at hu
    exact hut (h.alone u t msg hu hput)

/-- A message is taken out by a consumer. -/
theorem take (h : Queued q s front g l) (hk : Locked s) (hpc : s.pc t = .getStore msg next) :
    ∃ g', Queued q ({ s with
      mem := update s.mem s.get_head next
      gets := s.gets ++ [msg] }.goto t (.getUnlock (some msg))) front g' l := by
  have hknown := h.known t
  rw [spot_eq hpc] at hknown
  obtain ⟨hhead, rfl⟩ := hknown
  obtain ⟨g', rfl⟩ := List.head?_eq_some_iff.mp hhead
  have hgo : Queued q (s.goto t (.getUnlock (some msg))) front (msg :: g') l :=
    h.goOn hpc (spot_goto s t _) rfl (.inl rfl) rfl trivial
  refine ⟨g', hgo.taken fun u mem g => ?_⟩
  rcases spot_cases (spot_goto s t (.getUnlock (some msg))) u with ⟨-, heq⟩ | ⟨hut, heq⟩
  · rw [heq]
    trivial
  · rw [heq]
    exact At.of_holdsGet (hk.elsewhere hpc rfl hut)

/-- A consumer reads the first message. -/
theorem readMsg (h : Queued q s front g l) (hpc : s.pc t = .getMsg) :
    Queued q (s.goto t (.getNext (s.mem s.get_head - q.linkoff))) front g l := by
  have hg : g ≠ [] := by
    have hknown := h.known t
    rwa [spot_eq hpc] at hknown
  obtain ⟨m, g', rfl⟩ := List.exists_cons_of_ne_nil hg
  have hmsg : s.mem s.get_head - q.linkoff = m := by
    rw [h.get_head_eq hg, h.lists.head]
    unfold Config.link
    omega
  rw [hmsg]
  exact h.goOn hpc (spot_goto s t _) rfl (.inl rfl) rfl rfl

/-- A consumer reads the link of the first message. -/
theorem readNext (h : Queued q s front g l) (hpc : s.pc t = .getNext msg) :
    Queued q (s.goto t (.getStore msg (s.mem (s.mem s.get_head)))) front g l := by
  have hhead : g.head? = some msg := by
    have hknown := h.known t
    rwa [spot_eq hpc] at hknown
  obtain ⟨g', rfl⟩ := List.head?_eq_some_iff.mp hhead
  have hcell : s.mem s.get_head = q.link msg := by
    rw [h.get_head_eq (List.cons_ne_nil msg g'), h.lists.head]
  rw [hcell]
  exact h.goOn hpc (spot_goto s t _) rfl (.inl rfl) rfl
    ⟨hhead, rfl⟩

/-- The consumers' list becomes that of the producers; the cell in front is a local variable now. -/
theorem swapHead (h : Queued q s front g l) (hk : Locked s) (hpc : s.pc t = .swapHead) :
    Queued q ({ s with get_head := s.put_head }.goto t (.swapLock s.get_head)) front g l := by
  -- The consumer has found its list empty, and nobody but itself could have changed that.
  have hnil : g = [] := by
    have hknown := h.known t
    rw [spot_eq hpc] at hknown
    exact hknown
  have hfront : s.get_head = front := h.get_head_of_holds hk hpc rfl rfl
  have hspot := spot_goto { s with get_head := s.put_head } t (.swapLock s.get_head)
  have hnone : ∀ u, u ≠ t → (s.spot u).local_head = none := fun u hu =>
    Pc.local_head_of_not_holdsGet (hk.elsewhere hpc rfl hu)
  constructor
  case lists => exact h.lists
  case cnt => exact h.cnt
  case order => exact h.order
  case fresh => exact fun u m hm => h.fresh u m (putting_of_spot hspot rfl hm)
  case alone =>
    intro u v m hu hv
    exact h.alone u v m (putting_of_spot hspot rfl hu) (putting_of_spot hspot rfl hv)
  case ready => exact fun u m hm => h.ready u m (ready_of_spot hspot rfl hm)
  case swapping =>
    intro u o ho
    rcases spot_cases hspot u with ⟨-, heq⟩ | ⟨hut, heq⟩
    · rw [heq] at ho
      obtain rfl : s.get_head = o := Option.some.inj ho
      exact ⟨hfront, hnil, rfl⟩
    · rw [heq] at ho
      exact absurd ((hnone u hut).symm.trans ho) (by simp)
  -- The consumer itself swaps the lists now, so there is nothing to show.
  case still =>
    intro hall
    have ht := hall t
    rcases spot_cases hspot t with ⟨-, heq⟩ | ⟨hut, -⟩
    · rw [heq] at ht
      cases ht
    · exact absurd rfl hut
  case known =>
    intro u
    rcases spot_cases hspot u with ⟨-, heq⟩ | ⟨-, heq⟩
    · rw [heq]
      trivial
    · rw [heq]
      exact h.known u

/-- The lists are swapped. -/
theorem swapLists (h : Queued q s front g l) (hk : Locked s) {o : ℤ} {b : Bool}
    (hpc : s.pc t = .swapLists o) :
    Queued q ({ s with
      pc := if b then wakeAllPut s.pc else s.pc
      put_head := o
      put_tail := o
      msg_cnt := 0 }.goto t (.swapUnlock s.msg_cnt)) s.put_head l [] := by
  have hlocal : (s.spot t).local_head = some o := by
    rw [spot_eq hpc]
    rfl
  -- The consumer's own cell is the front one, and its list is empty.
  obtain ⟨rfl, rfl, hget⟩ := h.swapping t o hlocal
  have hspot : ({ s with
      pc := if b then wakeAllPut s.pc else s.pc
      put_head := o
      put_tail := o
      msg_cnt := 0 }.goto t (.swapUnlock s.msg_cnt)).spot =
        update s.spot t (.swapUnlock s.msg_cnt) := spot_wakeAllPut (p := .swapUnlock s.msg_cnt) rfl
  have hnone : ∀ u, u ≠ t → (s.spot u).holdsGet = false := fun u hu =>
    hk.elsewhere hpc rfl hu
  constructor
  case lists => exact h.lists.swap
  case cnt => rfl
  case order =>
    rw [List.append_nil]
    exact h.order
  case fresh =>
    intro u m hm
    rw [List.append_nil]
    exact h.fresh u m (putting_of_spot hspot rfl hm)
  case alone =>
    intro u v m hu hv
    exact h.alone u v m (putting_of_spot hspot rfl hu) (putting_of_spot hspot rfl hv)
  case ready => exact fun u m hm => h.ready u m (ready_of_spot hspot rfl hm)
  case swapping =>
    intro u o' ho
    rcases spot_cases hspot u with ⟨-, heq⟩ | ⟨hut, heq⟩
    · rw [heq] at ho
      cases ho
    · rw [heq, Pc.local_head_of_not_holdsGet (hnone u hut)] at ho
      cases ho
  case still => exact fun _ => hget
  -- It knows how many messages it has taken over: as many as `msg_cnt` said.
  case known =>
    intro u
    rcases spot_cases hspot u with ⟨-, heq⟩ | ⟨hut, heq⟩
    · rw [heq]
      exact h.cnt
    · rw [heq]
      exact At.of_holdsGet (hnone u hut)

/-- Every step keeps the queue in order. -/
theorem step (h : Queued q s front g l) (hk : Locked s) (he : Effect q s a s') :
    ∃ front g l, Queued q s' front g l := by
  have hsame : ∀ s' : State ι, Queued q s' front g l → ∃ front g l, Queued q s' front g l :=
    fun s' h' => ⟨front, g, l, h'⟩
  cases he with
  | put hpc hlink hfree => exact hsame _ (h.call hlink hfree hpc)
  | get hpc =>
    exact hsame _ (h.goOn hpc (spot_goto _ _ _) rfl (.inl rfl) rfl trivial)
  | setNonblock hpc =>
    exact hsame _ (h.goOn hpc (spot_goto _ _ _) rfl (.inl rfl) rfl trivial)
  | setBlock => exact hsame _ (h.congr rfl rfl)
  | init hpc => exact hsame _ (h.initLink hpc)
  | lock hpc hl hfree =>
    exact hsame _ (h.goOn hpc (spot_goto _ _ _) rfl (.inr hl.putting) hl.local_head hl.at)
  | unlock hpc hl =>
    obtain ⟨hput, hlocal, hlocal'⟩ := hl.done
    exact hsame _ (h.goOn hpc (spot_goto _ _ _) rfl (.inl hput)
      (hlocal'.trans hlocal.symm) (h.at_unlock hpc hl))
  | sleepPut hpc =>
    exact hsame _ (h.goOn hpc (spot_goto _ _ _) rfl (.inr rfl) rfl trivial)
  | passPut hpc =>
    exact hsame _ (h.goOn hpc (spot_goto _ _ _) rfl (.inr rfl) rfl trivial)
  | link hpc => exact ⟨front, g, _, h.link hpc⟩
  | signal hpc hs hw =>
    obtain ⟨hput, hlocal, hlocal'⟩ := hs.done
    exact hsame _ (h.goOn hpc (spot_signal hw) rfl (.inl hput) (hlocal'.trans hlocal.symm) hs.at)
  | lost hpc hs hw =>
    obtain ⟨hput, hlocal, hlocal'⟩ := hs.done
    exact hsame _ (h.goOn hpc (spot_goto _ _ _) rfl (.inl hput)
      (hlocal'.trans hlocal.symm) hs.at)
  | lockGet hpc hfree =>
    exact hsame _ (h.goOn hpc (spot_goto _ _ _) rfl (.inl rfl) rfl trivial)
  -- What is at `get_head` says whether the consumers' list is empty, since it is the front cell.
  | found hpc hne =>
    rw [h.get_head_of_holds hk hpc rfl rfl] at hne
    exact hsame _ (h.goOn hpc (spot_goto _ _ _) rfl (.inl rfl) rfl
      (h.lists.ne_null_iff.mp hne))
  | notFound hpc hnull =>
    rw [h.get_head_of_holds hk hpc rfl rfl] at hnull
    have hnil : g = [] := by
      by_contra hg
      exact h.lists.ne_null_iff.mpr hg hnull
    exact hsame _ (h.goOn hpc (spot_goto _ _ _) rfl (.inl rfl) rfl hnil)
  | swapHead hpc => exact hsame _ (h.swapHead hk hpc)
  | sleepGet hpc =>
    exact hsame _ (h.goOn hpc (spot_goto _ _ _) rfl (.inl rfl) rfl trivial)
  | passGet hpc =>
    exact hsame _ (h.goOn hpc (spot_goto _ _ _) rfl (.inl rfl) rfl trivial)
  | swapLists hpc => exact ⟨_, _, _, h.swapLists hk hpc⟩
  | readMsg hpc => exact hsame _ (h.readMsg hpc)
  | readNext hpc => exact hsame _ (h.readNext hpc)
  | take hpc =>
    obtain ⟨g', h'⟩ := h.take hk hpc
    exact ⟨front, g', l, h'⟩
  | unlockGet hpc =>
    exact hsame _ (h.goOn hpc (spot_goto _ _ _) rfl (.inl rfl) rfl trivial)
  | broadcast hpc =>
    exact hsame _ (h.goOn hpc (spot_wakeAllPut (b := true) rfl) rfl (.inl rfl) rfl trivial)
  -- A wake-up changes no thread's place.
  | spuriousPut hpc => exact hsame _ (h.congr (spot_notify (by rw [hpc]; rfl)) rfl)
  | spuriousGet hpc => exact hsame _ (h.congr (spot_notify (by rw [hpc]; rfl)) rfl)
  -- Nothing that belongs to the queue is written to.
  | write hfree =>
    obtain ⟨h1, h2, hmem, hput⟩ := h.not_owned hfree
    refine hsame _ (h.store h1 h2 hmem fun u m hm => hput u m ?_)
    have hputting := Pc.putting_of_ready hm
    rwa [State.spot, Pc.putting_forget] at hputting

end Queued

variable [DecidableEq ι] [Fintype ι]

/-- The mutexes agree in every state that the queue can come to. -/
theorem locked_of_reachable (h : Reachable q s) : Locked s := by
  obtain ⟨-, -, -, mem, hrun⟩ := h
  exact hrun.invariant (Locked.init mem) fun s a s' hs hok hstep =>
    hs.step (effect_of_step hok hstep)

/-- The queue is in order in every state that it can come to. -/
theorem queued_of_reachable (h : Reachable q s) : ∃ front g l, Queued q s front g l := by
  obtain ⟨hne, h1, h2, mem, hrun⟩ := h
  have hlocked : ∀ s, Lib.Reaches (MsgQueue.step q) (Permits q) (State.init ι q mem) s → Locked s :=
    fun s hs => locked_of_reachable ⟨hne, h1, h2, mem, hs⟩
  refine Lib.Reaches.invariant_of (I := fun s => ∃ front g l, Queued q s front g l) hlocked
    ⟨q.head1, [], [], Queued.init mem hne⟩ ?_ hrun
  intro s a s' hk hs hok hstep
  obtain ⟨front, g, l, hs⟩ := hs
  exact hs.step hk (effect_of_step hok hstep)

/-- The queue is first in, first out: what was put is what was taken, then the messages of the
consumers' list, then those of the producers', each list linked in the memory as the code expects
it, and what a consumer takes is the oldest message of all. -/
theorem fifo (h : Reachable q s) :
    ∃ front g l, s.puts = s.gets ++ (g ++ l) ∧
      Lib.Chain 0 s.mem (s.mem front) (g.map q.link) ∧
      Lib.Chain 0 s.mem (s.mem s.put_head) (l.map q.link) ∧
      s.put_tail = (l.map q.link).getLastD s.put_head ∧ s.msg_cnt = l.length ∧
      ((∀ t, (s.pc t).local_head = none) → s.get_head = front) ∧
      ∀ t msg next, s.pc t = .getStore msg next → (g ++ l).head? = some msg := by
  obtain ⟨front, g, l, hs⟩ := queued_of_reachable h
  refine ⟨front, g, l, hs.order, hs.lists.get, hs.lists.put, hs.lists.tail, hs.cnt, ?_, ?_⟩
  · intro hnone
    apply hs.still
    intro t
    rw [State.spot, Pc.local_head_forget]
    exact hnone t
  · intro t msg next hpc
    have hknown := hs.known t
    rw [spot_eq hpc] at hknown
    rw [List.head?_append, hknown.1]
    rfl

/-- Two messages were put and one was taken, and a consumer is about to take the other. -/
theorem fifo_two : ∃ s : State (Fin 2), s.puts = [100, 200] ∧ s.gets = [100] ∧
    ∃ front g l, s.puts = s.gets ++ (g ++ l) ∧
      Lib.Chain 0 s.mem (s.mem front) (g.map (Config.link ⟨16, 24, 8, 1⟩)) ∧
      Lib.Chain 0 s.mem (s.mem s.put_head) (l.map (Config.link ⟨16, 24, 8, 1⟩)) ∧
      s.put_tail = (l.map (Config.link ⟨16, 24, 8, 1⟩)).getLastD s.put_head ∧
      s.msg_cnt = l.length ∧ ((∀ t, (s.pc t).local_head = none) → s.get_head = front) ∧
      ∀ t msg next, s.pc t = .getStore msg next → (g ++ l).head? = some msg := by
  obtain ⟨s, hs, hp⟩ := exists_reachable (ι := Fin 2) (q := ⟨16, 24, 8, 1⟩) (fun _ => 0)
    (by decide)
    (.put 0 100 :: List.replicate 6 (.run 0 none) ++ .get 1 :: List.replicate 11 (.run 1 none) ++
      .put 0 200 :: List.replicate 6 (.run 0 none) ++ .get 1 :: List.replicate 9 (.run 1 none))
    (fun s => decide (s.puts = [100, 200] ∧ s.gets = [100])) (by decide +kernel)
  obtain ⟨hputs, hgets⟩ := of_decide_eq_true hp
  exact ⟨s, hputs, hgets, fifo hs⟩

end CPStudy.MsgQueue

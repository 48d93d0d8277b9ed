import CPStudy.Lib.Chain
import CPStudy.MsgQueue.Model

/-!
# The two lists of the message queue

`Lists q mem front put_head put_tail g p` says what the memory looks like: at `front`, one of the
two heads of the queue, hangs the list of the consumers, whose messages are `g`, at `put_head`, the
other one, hangs the list of the producers, whose messages are `p`, and `put_tail` is the last cell
of the latter. Linking a message in at `put_tail`, taking the first one out at `front` and swapping
two lists of which the consumers' one is empty do to `g` and `p` what a queue does.
-/

namespace CPStudy.MsgQueue

open Function (update)
open Lib (Chain)

variable {q : Config} {mem : ℤ → ℤ} {front put_head put_tail a v m : ℤ} {g p : List ℤ}

/-- Two messages with the same link are the same. -/
theorem Config.link_injective (q : Config) : Function.Injective q.link := by
  intro m n h
  unfold Config.link at h
  omega

/-- A message is in a list if its link is among the links. -/
theorem Config.link_mem_iff {l : List ℤ} : q.link m ∈ l.map q.link ↔ m ∈ l :=
  List.mem_map_of_injective q.link_injective

/-- The shape of the memory. -/
structure Lists (q : Config) (mem : ℤ → ℤ) (front put_head put_tail : ℤ) (g p : List ℤ) :
    Prop where
  /-- The list of the consumers. -/
  get : Chain 0 mem (mem front) (g.map q.link)
  /-- The list of the producers. -/
  put : Chain 0 mem (mem put_head) (p.map q.link)
  /-- The lists hang at different heads. -/
  heads : front ≠ put_head
  /-- One of them is `head1` or `head2`. -/
  front_eq : front = q.head1 ∨ front = q.head2
  /-- So is the other. -/
  put_head_eq : put_head = q.head1 ∨ put_head = q.head2
  /-- The last cell of the producers' list. -/
  tail : put_tail = (p.map q.link).getLastD put_head
  /-- No message is there twice. -/
  nodup : (g ++ p).Nodup
  /-- No message has its link where a head of the queue is. -/
  apart : ∀ m ∈ g ++ p, q.link m ≠ q.head1 ∧ q.link m ≠ q.head2

namespace Lists

/-- The lists that `msgqueue_create` makes. -/
theorem create (q : Config) (mem : ℤ → ℤ) (hne : q.head1 ≠ q.head2) :
    Lists q (update (update mem q.head1 0) q.head2 0) q.head1 q.head2 q.head2 [] [] where
  get := by
    change update (update mem q.head1 0) q.head2 0 q.head1 = 0
    rw [Function.update_of_ne hne, Function.update_self]
  put := Function.update_self q.head2 0 _
  heads := hne
  front_eq := .inl rfl
  put_head_eq := .inr rfl
  tail := rfl
  nodup := List.nodup_nil
  apart := fun m hm => absurd hm List.not_mem_nil

/-- A cell that is neither a head nor the link of a message in the lists. -/
theorem ne_front (h : Lists q mem front put_head put_tail g p) (h1 : a ≠ q.head1)
    (h2 : a ≠ q.head2) : a ≠ front := by
  obtain hf | hf := h.front_eq
  · rwa [hf]
  · rwa [hf]

/-- It is not at `put_head` either. -/
theorem ne_put_head (h : Lists q mem front put_head put_tail g p) (h1 : a ≠ q.head1)
    (h2 : a ≠ q.head2) : a ≠ put_head := by
  obtain hp | hp := h.put_head_eq
  · rwa [hp]
  · rwa [hp]

/-- No message has its link at `front`. -/
theorem front_notMem (h : Lists q mem front put_head put_tail g p) :
    front ∉ (g ++ p).map q.link := by
  intro hmem
  obtain ⟨m, hm, heq⟩ := List.mem_map.mp hmem
  obtain ⟨h1, h2⟩ := h.apart m hm
  exact h.ne_front h1 h2 heq

/-- No message has its link at `put_head`. -/
theorem put_head_notMem (h : Lists q mem front put_head put_tail g p) :
    put_head ∉ (g ++ p).map q.link := by
  intro hmem
  obtain ⟨m, hm, heq⟩ := List.mem_map.mp hmem
  obtain ⟨h1, h2⟩ := h.apart m hm
  exact h.ne_put_head h1 h2 heq

/-- There is a message at `*front` exactly when the list of the consumers has one. -/
theorem ne_null_iff (h : Lists q mem front put_head put_tail g p) : mem front ≠ 0 ↔ g ≠ [] := by
  rw [Ne, h.get.eq_null_iff, List.map_eq_nil_iff]

/-- A store outside the lists. -/
theorem write (h : Lists q mem front put_head put_tail g p) (h1 : a ≠ q.head1) (h2 : a ≠ q.head2)
    (hl : a ∉ (g ++ p).map q.link) : Lists q (update mem a v) front put_head put_tail g p := by
  rw [List.map_append, List.mem_append, not_or] at hl
  refine { h with get := ?_, put := ?_ }
  · rw [Function.update_of_ne (h.ne_front h1 h2).symm]
    exact h.get.congr fun c hc => Function.update_of_ne (ne_of_mem_of_not_mem hc hl.1) _ _
  · rw [Function.update_of_ne (h.ne_put_head h1 h2).symm]
    exact h.put.congr fun c hc => Function.update_of_ne (ne_of_mem_of_not_mem hc hl.2) _ _

/-- The last cell of the producers' list belongs to that list. -/
theorem tail_mem (h : Lists q mem front put_head put_tail g p) :
    put_tail ∈ put_head :: p.map q.link := by
  rw [h.tail]
  exact List.getLastD_mem_cons

/-- It is not in the list of the consumers. -/
theorem tail_notMem (h : Lists q mem front put_head put_tail g p) :
    put_tail ∉ front :: g.map q.link := by
  have hfront := h.front_notMem
  have hput := h.put_head_notMem
  rw [List.map_append, List.mem_append, not_or] at hfront hput
  intro hmem
  -- The tail is `put_head` itself or the link of a producers' message; neither is among the others.
  rcases List.mem_cons.mp h.tail_mem with htail | htail
  · rw [htail] at hmem
    rcases List.mem_cons.mp hmem with heq | hmem
    · exact h.heads heq.symm
    · exact hput.1 hmem
  · rcases List.mem_cons.mp hmem with heq | hmem
    · rw [heq] at htail
      exact hfront.2 htail
    · obtain ⟨m, hm, rfl⟩ := List.mem_map.mp htail
      have hg : m ∈ g := Config.link_mem_iff.mp hmem
      exact (List.nodup_append.mp h.nodup).2.2 m hg m hm rfl

/-- A message is linked in at `put_tail`. -/
theorem link (h : Lists q mem front put_head put_tail g p) (hnull : mem (q.link m) = 0)
    (hne : q.link m ≠ 0) (h1 : q.link m ≠ q.head1) (h2 : q.link m ≠ q.head2)
    (hm : m ∉ g ++ p) :
    Lists q (update mem put_tail (q.link m)) front put_head (q.link m) g (p ++ [m]) := by
  have htail := h.tail_notMem
  have hput := h.put_head_notMem
  rw [List.mem_cons, not_or] at htail
  rw [List.map_append, List.mem_append, not_or] at hput
  rw [List.mem_append, not_or] at hm
  have hmp : q.link m ∉ p.map q.link := fun hmem => hm.2 (Config.link_mem_iff.mp hmem)
  refine { h with get := ?_, put := ?_, tail := ?_, nodup := ?_, apart := ?_ }
  -- The store at `put_tail` is outside the consumers' list, and at the end of the producers' one.
  · rw [Function.update_of_ne (Ne.symm htail.1)]
    exact h.get.congr fun c hc => Function.update_of_ne (ne_of_mem_of_not_mem hc htail.2) _ _
  · rw [List.map_append, h.tail]
    refine h.put.concat hput.2 hne hnull ?_
    rw [List.mem_cons, not_or]
    exact ⟨h.ne_put_head h1 h2, hmp⟩
  · rw [List.map_append, List.map_singleton, List.getLastD_concat]
  · rw [← List.append_assoc]
    refine List.Nodup.append h.nodup (List.nodup_singleton m) ?_
    rw [List.disjoint_singleton, List.mem_append, not_or]
    exact hm
  · intro n hn
    rw [← List.append_assoc, List.mem_append, List.mem_singleton] at hn
    obtain hn | rfl := hn
    · exact h.apart n hn
    · exact ⟨h1, h2⟩

/-- The first message of the consumers is linked at `*front`. -/
theorem head (h : Lists q mem front put_head put_tail (m :: g) p) : mem front = q.link m := h.get.1

/-- The first message of the consumers is taken out. -/
theorem take (h : Lists q mem front put_head put_tail (m :: g) p) :
    Lists q (update mem front (mem (q.link m))) front put_head put_tail g p := by
  have hfront := h.front_notMem
  rw [List.map_append, List.mem_append, not_or] at hfront
  refine { h with get := ?_, put := ?_, nodup := ?_, apart := ?_ }
  · exact h.get.unlink fun hmem => hfront.1 (List.mem_cons_of_mem _ hmem)
  -- The producers' list hangs elsewhere, and `front` is not the link of one of its messages.
  · rw [Function.update_of_ne h.heads.symm]
    exact h.put.congr fun c hc => Function.update_of_ne (ne_of_mem_of_not_mem hc hfront.2) _ _
  · exact (List.nodup_cons.mp h.nodup).2
  · exact fun n hn => h.apart n (List.mem_cons_of_mem m hn)

/-- The lists are swapped where the consumers have none left. -/
theorem swap (h : Lists q mem front put_head put_tail [] p) :
    Lists q mem put_head front front p [] where
  get := h.put
  put := h.get
  heads := h.heads.symm
  front_eq := h.put_head_eq
  put_head_eq := h.front_eq
  tail := rfl
  nodup := by
    rw [List.append_nil]
    exact h.nodup
  apart := by
    rw [List.append_nil]
    exact h.apart

end Lists

end CPStudy.MsgQueue

import CPStudy.Epoll.Reactor
import CPStudy.Epoll.WebServer

/-!
# The lengths that the callback servers pass

`passed` lists where in a buffer, and how far, a callback lets `recv`, `memcpy`, `sprintf` and
`send` go. They stay within the buffers as long as `rlen` and `wlen` do. What can end this is
`recv` returning -1: `rlen += count` then takes one from `rlen`, which is harmless only where there
is something in `rbuffer` (`ErrorsOnData`). In `reactor.c` there never is, so that every -1 does
harm. In `webserver.c` there is what was received since `accept`, less one for each -1 before, so
that the errors do no harm as long as they are fewer than the bytes (`ErrorsBelow`).
-/

namespace CPStudy.Epoll.Server

open Function (update)

/-- What a callback passes to `recv`, `memcpy`, `sprintf` or `send`: where it begins in a buffer and
how many bytes it has. -/
structure Span where
  /-- The offset. -/
  offset : ℤ
  /-- The length. -/
  length : ℤ

/-- The span lies within a buffer of `n` bytes. -/
def Span.Within (p : Span) (n : ℕ) : Prop := 0 ≤ p.offset ∧ 0 ≤ p.length ∧ p.offset + p.length ≤ n

/-- The spans that `recv_cb` passes on at the end, when `rlen` is this. -/
abbrev Copied := ℤ → List Span

/-- What `recv_cb` does at the end of `respond` passes these spans. -/
structure Copies (cfg : Config) (copied : Copied) : Prop where
  /-- It leaves a buffer exactly where one of them does. -/
  respond_eq_none : ∀ item, cfg.respond item = none ↔
    ∃ p ∈ copied item.rlen, ¬p.Within cfg.bufferLength
  /-- It does not mend an `rlen` below 0. -/
  negative : ∀ item item', cfg.respond item = some item' → item.rlen < 0 → item'.rlen < 0

variable {cfg : Config}

/-- The spans that `recv_cb` passes when `recv` returns this. -/
def recvPassed (copied : Copied) (item : ConnItem cfg.bufferLength) (result : Option (List UInt8)) :
    List Span :=
  { offset := item.rlen, length := cfg.bufferLength - item.rlen } ::
    match result with
    | none => copied (item.rlen - 1)
    -- `count == 0`: the connection is closed.
    | some [] => []
    | some (b :: bytes) => copied (item.rlen + (b :: bytes).length)

/-- The span that `send_cb` passes. -/
def sendPassed (item : ConnItem cfg.bufferLength) : List Span :=
  [{ offset := 0, length := item.wlen }]

/-- The spans that a step passes. -/
def passed (copied : Copied) (s : State cfg) (a : Action) : List Span :=
  match s.batch with
  | [] => []
  | e :: _ =>
    match callbackOf s e, a with
    | some .recvCb, .recv result => recvPassed copied (s.conn e.fd) result
    | some .sendCb, .send _ => sendPassed (s.conn e.fd)
    | _, _ => []

/-- `recv` returns -1 only on a connection with something in `rbuffer`. -/
def ErrorsOnData (s : State cfg) (a : Action) : Prop :=
  a = .recv none → ∀ e ∈ s.batch.head?, 0 < (s.conn e.fd).rlen

variable {copied : Copied} {s s' : State cfg} {e : Event} {a : Action} {others : ℕ → Bool}

/-- The lengths of the entries stay within the buffers. -/
theorem inRange_step (h : ∀ fd, (s.conn fd).InRange) (hok : ErrorsOnData s a)
    (he : Effect s a s') : ∀ fd, (s'.conn fd).InRange := by
  by_cases hnone : a = .recv none
  · subst hnone
    cases he with
    | crash => exact h
    | recvFailed e item hnext hitem =>
      have hpos := hok rfl e hnext.head?
      obtain ⟨hrlen, hwlen⟩ := h e.fd
      have hin : ConnItem.InRange { s.conn e.fd with rlen := (s.conn e.fd).rlen - 1 } :=
        ⟨by dsimp only; omega, hwlen⟩
      intro fd
      dsimp only
      rcases eq_or_ne fd e.fd with rfl | hne
      · rw [Function.update_self]
        exact inRange_respond hin hitem
      · rw [Function.update_of_ne hne]
        exact h fd
  · exact entries_step h (fun item _ hin => ⟨hin.rlen, hin.wlen⟩)
      (fun _ => ⟨(inRange_zero _).rlen, (inRange_zero _).wlen⟩)
      (fun _ _ hcon _ _ => absurd hcon hnone)
      (fun _ _ _ hfits hin hitem => inRange_respond (inRange_received hin hfits) hitem) he

/-- The lengths of the entries are within the buffers in every run whose errors find data. -/
theorem inRange_of_errorsOnData (hs : ReachableIf others ErrorsOnData s) (fd : ℕ) :
    (s.conn fd).InRange :=
  Lib.Reaches.invariant (I := fun t : State cfg => ∀ fd, (t.conn fd).InRange)
    (fun _ => inRange_zero _) (fun _ _ _ h hok hstep => inRange_step h hok (effect_of_step hstep).2)
    hs fd

/-- The next event of the batch is of an entry of `connlist` with a callback. -/
theorem Table.next_of_batch (htable : Table s) {rest : List Event} (hbatch : s.batch = e :: rest) :
    ∃ callback, Next s e callback := by
  have hmem : e ∈ s.batch := by
    rw [hbatch]
    exact List.mem_cons_self ..
  obtain ⟨hfd, hfile⟩ := htable.registered e.fd _ (htable.batch e hmem).1
  have hbatch' : s.batch = e :: s.batch.tail := by
    rw [hbatch]
    rfl
  cases hcallback : callbackOf s e with
  | some callback => exact ⟨callback, hbatch', hfd, hcallback⟩
  | none =>
    unfold callbackOf at hcallback
    rcases hfile with ⟨hfile, hin⟩ | ⟨id, hfile⟩
    · rw [hin, (htable.listener e.fd).mpr hfile] at hcallback
      cases hcallback
    · obtain ⟨hrecv, hsend⟩ := htable.callbacks e.fd id hfile
      split at hcallback
      · rw [hrecv] at hcallback
        cases hcallback
      · rw [hsend] at hcallback
        cases hcallback

/-- A span from the offset to the end of the buffer. -/
theorem within_rest {offset : ℤ} {n : ℕ} :
    ({ offset := offset, length := n - offset } : Span).Within n ↔ 0 ≤ offset ∧ offset ≤ n := by
  unfold Span.Within
  dsimp only
  omega

/-- A span from the beginning of the buffer. -/
theorem within_front {length : ℤ} {n : ℕ} :
    ({ offset := 0, length := length } : Span).Within n ↔ 0 ≤ length ∧ length ≤ n := by
  unfold Span.Within
  dsimp only
  omega

/-- Where nothing has gone wrong, no fault is set. -/
theorem fault_ne (hfault : s.fault = none) (f : Fault) : s.fault ≠ some f := by
  rw [hfault]
  exact (Option.some_ne_none f).symm

/-- The end of `recv_cb` goes wrong exactly where it leaves a buffer. -/
theorem fault_reply (hcopies : Copies cfg copied) (hfault : s.fault = none)
    (item : ConnItem cfg.bufferLength) (kernel : Kernel) (length : ℕ) (count : ℤ) :
    (reply s e item kernel length count).fault = some .length ↔
      ∃ p ∈ copied item.rlen, ¬p.Within cfg.bufferLength := by
  rw [← hcopies.respond_eq_none]
  unfold reply
  split
  case h_1 hnone => exact ⟨fun _ => hnone, fun _ => rfl⟩
  case h_2 item' hsome =>
    refine ⟨fun h => absurd h (fault_ne hfault .length), fun h => ?_⟩
    rw [hsome] at h
    cases h

/-- `recv_cb` goes wrong exactly where one of its spans leaves a buffer. -/
theorem fault_recvCb (hcopies : Copies cfg copied) (hfault : s.fault = none)
    {result : Option (List UInt8)} (h : recvCb s e result = some s') :
    s'.fault = some .length ↔
      ∃ p ∈ recvPassed copied (s.conn e.fd) result, ¬p.Within cfg.bufferLength := by
  unfold recvCb at h
  unfold recvPassed
  rw [List.exists_mem_cons_iff, within_rest]
  dsimp only at h
  split at h
  case isFalse hrange =>
    rw [← Option.some.inj h]
    exact ⟨fun _ => .inl hrange, fun _ => rfl⟩
  case isTrue hrange =>
    -- What is left is what `recv_cb` does with the result.
    rw [or_iff_right (not_not.mpr hrange)]
    cases result with
    | none =>
      rw [← Option.some.inj h]
      exact fault_reply hcopies hfault _ _ _ _
    | some bytes =>
      dsimp only at h
      split at h
      case h_1 id hfile =>
        obtain ⟨hrecv, h⟩ := Option.dite_none_right_eq_some.mp h
        cases bytes with
        | nil =>
          rw [if_pos rfl] at h
          rw [← Option.some.inj h]
          refine ⟨fun hf => absurd hf (fault_ne hfault .length), ?_⟩
          rintro ⟨p, hp, -⟩
          cases hp
        | cons b bytes =>
          rw [if_neg (List.cons_ne_nil _ _)] at h
          rw [← Option.some.inj h]
          exact fault_reply hcopies hfault _ _ _ _
      all_goals cases h

/-- `send_cb` goes wrong exactly where its span leaves `wbuffer`. -/
theorem fault_sendCb (hfault : s.fault = none) {count : ℤ} (h : sendCb s e count = some s') :
    s'.fault = some .length ↔
      ∃ p ∈ sendPassed (s.conn e.fd), ¬p.Within cfg.bufferLength := by
  unfold sendCb at h
  unfold sendPassed
  rw [List.exists_mem_cons_iff, within_front]
  dsimp only at h
  split at h
  case isFalse hrange =>
    rw [← Option.some.inj h]
    exact ⟨fun _ => .inl hrange, fun _ => rfl⟩
  case isTrue hrange =>
    -- A `send` of what `wbuffer` holds leaves nothing undefined, whatever it returns.
    have hnone : s'.fault = none := by
      split at h
      case isTrue =>
        rw [← Option.some.inj h]
        exact hfault
      case isFalse =>
        split at h
        case h_1 id hfile =>
          obtain ⟨-, h⟩ := Option.ite_none_right_eq_some.mp h
          rw [← Option.some.inj h]
          exact hfault
        all_goals cases h
    rw [hnone]
    constructor
    · intro hf
      cases hf
    · rintro (hcon | ⟨p, hp, -⟩)
      · exact absurd hrange hcon
      · cases hp

/-- Opening a listening socket passes no length. -/
theorem fault_initServer (hfault : s.fault = none) {sockfd : ℤ}
    (h : initServer s sockfd = some s') : s'.fault ≠ some .length := by
  have hne := fault_ne hfault .length
  unfold initServer at h
  split at h
  case h_1 =>
    split at h
    case isTrue =>
      split at h
      case isTrue => exact Option.some.inj h ▸ hne
      case isFalse => exact Option.some.inj h ▸ nofun
    case isFalse =>
      obtain ⟨-, h⟩ := Option.ite_none_right_eq_some.mp h
      split at h
      case isTrue => exact Option.some.inj h ▸ hne
      case isFalse => exact Option.some.inj h ▸ nofun
  all_goals cases h

/-- `accept_cb` passes no length but those of the whole buffers. -/
theorem fault_acceptCb (hfault : s.fault = none) {clientfd : ℤ}
    (h : acceptCb s e clientfd = some s') : s'.fault ≠ some .length := by
  have hne := fault_ne hfault .length
  unfold acceptCb at h
  split at h
  case isTrue => exact Option.some.inj h ▸ hne
  case isFalse =>
    obtain ⟨-, h⟩ := Option.ite_none_right_eq_some.mp h
    split at h
    case isTrue => exact Option.some.inj h ▸ hne
    case isFalse => exact Option.some.inj h ▸ nofun

/-- An action that is not of `recv_cb` or `send_cb` passes nothing. -/
theorem passed_of_ne (hrecv : ∀ result, a ≠ .recv result) (hsend : ∀ count, a ≠ .send count) :
    passed copied s a = [] := by
  unfold passed
  split
  case h_1 => rfl
  case h_2 =>
    split
    case h_1 result _ => exact absurd rfl (hrecv result)
    case h_2 count _ => exact absurd rfl (hsend count)
    case h_3 => rfl

/-- What the callback of the next event passes. -/
theorem passed_of_next {callback : RCallback} (hnext : Next s e callback) :
    passed copied s a =
      match callback, a with
      | .recvCb, .recv result => recvPassed copied (s.conn e.fd) result
      | .sendCb, .send _ => sendPassed (s.conn e.fd)
      | _, _ => [] := by
  unfold passed
  rw [hnext.batch]
  dsimp only
  rw [hnext.callback]
  cases callback <;> cases a <;> rfl

/-- The next event is handled by its callback. -/
theorem handle_of_next {callback : RCallback} (hnext : Next s e callback) :
    handle s a = runCallback s e callback a := by
  unfold handle
  rw [hnext.batch]
  dsimp only
  rw [if_pos hnext.fd, hnext.callback]

/-- What `recv` returns fits in what is left of `rbuffer`. -/
theorem length_le_of_recvCb {bytes : List UInt8} (hin : (s.conn e.fd).InRange)
    (h : recvCb s e (some bytes) = some s') :
    (s.conn e.fd).rlen + bytes.length ≤ cfg.bufferLength := by
  unfold recvCb at h
  dsimp only at h
  rw [dif_pos hin.rlen] at h
  split at h
  case h_1 id hfile =>
    obtain ⟨hrecv, -⟩ := Option.dite_none_right_eq_some.mp h
    have hlength := hrecv.1
    have hrlen := hin.rlen
    omega
  all_goals cases h

/-- An entry within its buffers passes spans within its buffers at the end of `recv_cb`. -/
theorem within_of_inRange (hcopies : Copies cfg copied) {item : ConnItem cfg.bufferLength}
    (hin : item.InRange) : ∀ p ∈ copied item.rlen, p.Within cfg.bufferLength := by
  by_contra hcon
  push Not at hcon
  obtain ⟨item', heq, -⟩ := cfg.respond_inRange item hin
  rw [(hcopies.respond_eq_none item).mpr hcon] at heq
  cases heq

/-- From lengths within the buffers `recv_cb` passes spans within the buffers, unless `recv`
returns -1 on an empty `rbuffer`. -/
theorem within_recvPassed (hcopies : Copies cfg copied) {result : Option (List UInt8)}
    (hin : (s.conn e.fd).InRange) (hpos : result = none → 0 < (s.conn e.fd).rlen)
    (h : recvCb s e result = some s') :
    ∀ p ∈ recvPassed copied (s.conn e.fd) result, p.Within cfg.bufferLength := by
  obtain ⟨hlo, hhi⟩ := hin.rlen
  unfold recvPassed
  rw [List.forall_mem_cons]
  refine ⟨within_rest.mpr hin.rlen, ?_⟩
  cases result with
  | none =>
    have hgt := hpos rfl
    have hitem : ConnItem.InRange { s.conn e.fd with rlen := (s.conn e.fd).rlen - 1 } :=
      ⟨by dsimp only; omega, hin.wlen⟩
    exact within_of_inRange hcopies hitem
  | some bytes =>
    have hfits := length_le_of_recvCb hin h
    cases bytes with
    | nil => simp
    | cons b bytes =>
      have hitem : ConnItem.InRange
          { s.conn e.fd with rlen := (s.conn e.fd).rlen + (b :: bytes).length } :=
        ⟨by dsimp only; omega, hin.wlen⟩
      exact within_of_inRange hcopies hitem

/-- A step in which a system call of a callback returns is one of the callback of the next event. -/
theorem runCallback_of_step (htable : Table s)
    (ha : step s a = if s.fault = none then handle s a else none) (h : step s a = some s') :
    ∃ e callback, Next s e callback ∧ runCallback s e callback a = some s' := by
  rw [ha] at h
  obtain ⟨-, h⟩ := Option.ite_none_right_eq_some.mp h
  cases hbatch : s.batch with
  | nil =>
    unfold handle at h
    rw [hbatch] at h
    cases h
  | cons e rest =>
    obtain ⟨callback, hnext⟩ := htable.next_of_batch hbatch
    rw [handle_of_next hnext] at h
    exact ⟨e, callback, hnext, h⟩

/-- A step in which `accept` returns is one of `accept_cb`. -/
theorem acceptCb_of_step (htable : Table s) {clientfd : ℤ}
    (h : step s (.accept clientfd) = some s') :
    ∃ e, Next s e .acceptCb ∧ acceptCb s e clientfd = some s' := by
  obtain ⟨e, callback, hnext, h⟩ := runCallback_of_step htable rfl h
  cases callback with
  | acceptCb => exact ⟨e, hnext, h⟩
  | recvCb => cases h
  | sendCb => cases h

/-- A step in which `recv` returns is one of `recv_cb`. -/
theorem recvCb_of_step (htable : Table s) {result : Option (List UInt8)}
    (h : step s (.recv result) = some s') :
    ∃ e, Next s e .recvCb ∧ recvCb s e result = some s' := by
  obtain ⟨e, callback, hnext, h⟩ := runCallback_of_step htable rfl h
  cases callback with
  | recvCb => exact ⟨e, hnext, h⟩
  | acceptCb => cases h
  | sendCb => cases h

/-- A step in which `send` returns is one of `send_cb`. -/
theorem sendCb_of_step (htable : Table s) {count : ℤ}
    (h : step s (.send count) = some s') : ∃ e, Next s e .sendCb ∧ sendCb s e count = some s' := by
  obtain ⟨e, callback, hnext, h⟩ := runCallback_of_step htable rfl h
  cases callback with
  | sendCb => exact ⟨e, hnext, h⟩
  | acceptCb => cases h
  | recvCb => cases h

/-- A step leaves a buffer exactly where one of the spans that it passes does. -/
theorem fault_length_iff (hcopies : Copies cfg copied) (htable : Table s)
    (h : step s a = some s') :
    s'.fault = some .length ↔ ∃ p ∈ passed copied s a, ¬p.Within cfg.bufferLength := by
  have hfault := (effect_of_step h).1
  have hnothing : s'.fault ≠ some .length → passed copied s a = [] →
      (s'.fault = some .length ↔ ∃ p ∈ passed copied s a, ¬p.Within cfg.bufferLength) := by
    intro hne hnil
    rw [hnil]
    refine ⟨fun hf => absurd hf hne, ?_⟩
    rintro ⟨p, hp, -⟩
    cases hp
  have hne := fault_ne hfault .length
  -- A `recv` and a `send` pass one length each; no other step passes any.
  cases a with
  | accept clientfd =>
    obtain ⟨e, hnext, haccept⟩ := acceptCb_of_step htable h
    exact hnothing (fault_acceptCb hfault haccept) (passed_of_next hnext)
  | recv result =>
    obtain ⟨e, hnext, hrecv⟩ := recvCb_of_step htable h
    rw [passed_of_next hnext]
    exact fault_recvCb hcopies hfault hrecv
  | send count =>
    obtain ⟨e, hnext, hsend⟩ := sendCb_of_step htable h
    rw [passed_of_next hnext]
    exact fault_sendCb hfault hsend
  | initServer sockfd =>
    unfold step at h
    rw [if_pos hfault] at h
    exact hnothing (fault_initServer hfault h) (passed_of_ne nofun nofun)
  | epollWait events =>
    unfold step at h
    rw [if_pos hfault] at h
    obtain ⟨-, h⟩ := Option.ite_none_right_eq_some.mp h
    exact hnothing (Option.some.inj h ▸ hne) (passed_of_ne nofun nofun)
  | finish id =>
    unfold step at h
    rw [if_pos hfault] at h
    exact hnothing (Option.some.inj h ▸ hne) (passed_of_ne nofun nofun)

/-- A step from lengths within the buffers passes spans within the buffers, unless `recv` returns
-1 on an empty `rbuffer`. -/
theorem within_of_errorsOnData (hcopies : Copies cfg copied) (htable : Table s)
    (h : ∀ fd, (s.conn fd).InRange) (hok : ErrorsOnData s a) (hstep : step s a = some s') :
    ∀ p ∈ passed copied s a, p.Within cfg.bufferLength := by
  cases a with
  | recv result =>
    obtain ⟨e, hnext, hrecv⟩ := recvCb_of_step htable hstep
    rw [passed_of_next hnext]
    refine within_recvPassed hcopies (h e.fd) (fun hnone => ?_) hrecv
    exact hok (congrArg Action.recv hnone) e hnext.head?
  | send count =>
    obtain ⟨e, hnext, -⟩ := sendCb_of_step htable hstep
    rw [passed_of_next hnext]
    exact List.forall_mem_singleton.mpr (within_front.mpr (h e.fd).wlen)
  | initServer | epollWait | accept | finish =>
    rw [passed_of_ne (by nofun) (by nofun)]
    nofun

/-- A concrete step that goes wrong. -/
theorem exists_fault {f : Fault}
    (h : (step s a).any (fun s' => decide (s'.fault = some f)) = true) :
    ∃ s', step s a = some s' ∧ s'.fault = some f := by
  rw [Option.any_eq_true] at h
  obtain ⟨s', hstep, hfault⟩ := h
  exact ⟨s', hstep, of_decide_eq_true hfault⟩

/-- Where `recv` returns -1 on an empty `rbuffer`, a span leaves a buffer, or `rlen` does. -/
theorem not_within_of_error (hcopies : Copies cfg copied) (htable : Table s)
    (h : ∀ fd, (s.conn fd).InRange) (hbad : ¬ErrorsOnData s a) (hstep : step s a = some s') :
    ¬((∀ p ∈ passed copied s a, p.Within cfg.bufferLength) ∧ ∀ fd, (s'.conn fd).InRange) := by
  rintro ⟨hwithin, hin⟩
  unfold ErrorsOnData at hbad
  push Not at hbad
  obtain ⟨rfl, e, hhead, hle⟩ := hbad
  have hno : s'.fault ≠ some .length := by
    rw [ne_eq, fault_length_iff hcopies htable hstep]
    push Not
    exact hwithin
  -- The error is on the connection of the next event, and its `rlen` becomes -1.
  obtain ⟨e', hnext, hrecv⟩ := recvCb_of_step htable hstep
  obtain rfl : e' = e := Option.some.inj (hnext.head?.symm.trans hhead)
  have hrange := (h e'.fd).rlen
  unfold recvCb at hrecv
  dsimp only at hrecv
  rw [dif_pos hrange] at hrecv
  obtain rfl := Option.some.inj hrecv
  unfold reply at hno hin
  split at hno
  case h_1 => exact hno rfl
  case h_2 item hitem =>
    rw [hitem] at hin
    have hneg := hcopies.negative _ item hitem (by dsimp only; omega)
    have hnonneg := (hin e'.fd).rlen.1
    dsimp only at hnonneg
    rw [Function.update_self] at hnonneg
    omega

/-- In a run in which `recv` returns -1 only with something in `rbuffer`, the lengths of all entries
are within the buffers in every state. In such a state a step passes spans within the buffers and
leaves the lengths there if and only if it does not break the condition. -/
theorem lengths_iff (hcopies : Copies cfg copied) (hs : ReachableIf others ErrorsOnData s) :
    (∀ fd, (s.conn fd).InRange) ∧ s.fault ≠ some .length ∧
      ∀ a s', step s a = some s' →
        (((∀ p ∈ passed copied s a, p.Within cfg.bufferLength) ∧ ∀ fd, (s'.conn fd).InRange) ↔
          ErrorsOnData s a) := by
  have hin := inRange_of_errorsOnData hs
  refine ⟨hin, ?_, fun a s' hstep => ?_⟩
  · refine Lib.Reaches.invariant_of (I := fun t : State cfg => t.fault ≠ some .length)
      (J := fun t => Table t ∧ ∀ fd, (t.conn fd).InRange)
      (fun t ht => ⟨table_of_reachable (ReachableIf.reachable ht), inRange_of_errorsOnData ht⟩)
      nofun (fun t a u hJ _ hok hstep => ?_) hs
    rw [ne_eq, fault_length_iff hcopies hJ.1 hstep]
    push Not
    exact within_of_errorsOnData hcopies hJ.1 hJ.2 hok hstep
  · have htable := table_of_reachable (ReachableIf.reachable hs)
    constructor
    · intro hall
      by_contra hbad
      exact not_within_of_error hcopies htable hin hbad hstep hall
    · intro hok
      exact ⟨within_of_errorsOnData hcopies htable hin hok hstep,
        inRange_step hin hok (effect_of_step hstep).2⟩

end CPStudy.Epoll.Server

namespace CPStudy.Epoll

open Server

/-- `memcpy(connlist[fd].wbuffer, connlist[fd].rbuffer, connlist[fd].rlen)`. -/
def Reactor.copied (rlen : ℤ) : List Span := [{ offset := 0, length := rlen }]

/-- `reactor.c` copies what is in `rbuffer`. -/
theorem Reactor.copies : Copies Reactor.config Reactor.copied where
  respond_eq_none := fun item => by
    unfold Reactor.copied
    simp only [List.mem_singleton, exists_eq_left]
    rw [within_front]
    show Reactor.echo item = none ↔ ¬(0 ≤ item.rlen ∧ item.rlen ≤ 512)
    unfold Reactor.echo
    split
    case isTrue h => exact ⟨nofun, fun hn => absurd h hn⟩
    case isFalse h => exact ⟨fun _ => h, fun _ => rfl⟩
  negative := fun item item' h hneg => by
    have hrange := (Reactor.echo_spec h).1
    omega

/-- `sprintf(conn->wbuffer, ...)`, with the null character that it writes. -/
def WebServer.copied (_ : ℤ) : List Span :=
  [{ offset := 0, length := WebServer.response.length + 1 }]

/-- `webserver.c` writes the same answer for whatever is in `rbuffer`. -/
theorem WebServer.copies : Copies WebServer.config WebServer.copied where
  respond_eq_none := fun item => by
    unfold WebServer.copied
    simp only [List.mem_singleton, exists_eq_left]
    rw [within_front, WebServer.length_response]
    refine ⟨nofun, fun h => absurd ?_ h⟩
    show (0 : ℤ) ≤ ((205 : ℕ) : ℤ) + 1 ∧ ((205 : ℕ) : ℤ) + 1 ≤ ((1024 : ℕ) : ℤ)
    omega
  negative := fun item item' h hneg => by
    rw [WebServer.rlen_of_respond h]
    exact hneg

/-- `recv` does not return -1. -/
def NoErrors {cfg : Config} (_ : State cfg) (a : Action) : Prop := a ≠ .recv none

instance {cfg : Config} (s : State cfg) (a : Action) : Decidable (NoErrors s a) :=
  match a with
  | .recv none => isFalse fun h => h rfl
  | .recv (some _) => isTrue nofun
  | .initServer _ => isTrue nofun
  | .epollWait _ => isTrue nofun
  | .accept _ => isTrue nofun
  | .send _ => isTrue nofun
  | .finish _ => isTrue nofun

/-- How often `recv` has returned -1 on the connection of a descriptor. -/
def WebServer.errorsOn (s : State WebServer.config) (fd : ℕ) : ℕ :=
  match s.kernel.file fd with
  | some (.conn id) => WebServer.errors s id
  | some .listener => 0
  | some .other => 0
  | none => 0

/-- `recv` returns -1 only on a connection on which more bytes have been received since `accept`
than it has returned -1 before. -/
def WebServer.ErrorsBelow (s : State WebServer.config) (a : Action) : Prop :=
  a = .recv none → ∀ e ∈ s.batch.head?, errorsOn s e.fd < (receivedOn s e.fd).length

instance (s : State WebServer.config) (a : Action) : Decidable (WebServer.ErrorsBelow s a) :=
  match a with
  | .recv none =>
    decidable_of_iff
      (∀ e ∈ s.batch.head?, WebServer.errorsOn s e.fd < (WebServer.receivedOn s e.fd).length)
      ⟨fun h _ => h, fun h => h rfl⟩
  | .recv (some _) => isTrue fun h => by cases h
  | .initServer _ => isTrue fun h => by cases h
  | .epollWait _ => isTrue fun h => by cases h
  | .accept _ => isTrue fun h => by cases h
  | .send _ => isTrue fun h => by cases h
  | .finish _ => isTrue fun h => by cases h

variable {others : ℕ → Bool} {a : Action}

/-- In `reactor.c` there is never anything in `rbuffer` when `recv` is called. -/
theorem Reactor.errorsOnData_iff {s s' : State Reactor.config} (hs : Reachable others s)
    (hstep : step s a = some s') : ErrorsOnData s a ↔ NoErrors s a := by
  refine ⟨fun hdata hnone => ?_, fun hno hnone => absurd hnone hno⟩
  subst hnone
  obtain ⟨e, hnext, -⟩ := recvCb_of_step (table_of_reachable hs) hstep
  have hpos := hdata rfl e hnext.head?
  have hzero := (Reactor.lengths_of_reachable hs e.fd).1
  omega

/-- In `webserver.c` there is something in `rbuffer` where more bytes have been received than `recv`
has returned -1. -/
theorem WebServer.errorsOnData_iff {s s' : State WebServer.config} (hs : Reachable others s)
    (hstep : step s a = some s') : ErrorsOnData s a ↔ WebServer.ErrorsBelow s a := by
  have htable := table_of_reachable hs
  -- The balance, on the connection of the next event.
  have hrlen : a = .recv none → ∀ e ∈ s.batch.head?,
      (0 < (s.conn e.fd).rlen ↔ errorsOn s e.fd < (receivedOn s e.fd).length) := by
    rintro rfl e hhead
    obtain ⟨e', hnext, -⟩ := recvCb_of_step htable hstep
    obtain rfl : e' = e := Option.some.inj (hnext.head?.symm.trans hhead)
    obtain ⟨-, id, hfile⟩ := htable.next_recv hnext
    have herrors : errorsOn s e'.fd = errors s id := by
      unfold errorsOn
      rw [hfile]
    rw [herrors, receivedOn_eq hfile, (balance_of_reachable hs).rlen e'.fd id hfile]
    omega
  unfold ErrorsOnData ErrorsBelow
  exact forall_congr' fun hnone => forall₂_congr fun e hhead => hrlen hnone e hhead

/-- In both servers, whatever the events and whatever `recv` and `send` return: as long as `recv`
never returns -1 in `reactor.c`, and in `webserver.c` only on connections on which it has returned
-1 fewer times than bytes have been received since `accept`, `rlen` and `wlen` are within the
buffers in every state, and what is passed to `recv`, `memcpy`, `sprintf` and `send` is within the
buffers in every step. The first -1 that is none of these ends this: something is passed that is
not within a buffer, or `rlen` is not afterwards. -/
theorem lengths_of_errorsBelow (others : ℕ → Bool) :
    (∀ s : State Reactor.config, ReachableIf others NoErrors s →
      (∀ fd, (s.conn fd).InRange) ∧ s.fault ≠ some .length ∧
        ∀ a s', step s a = some s' →
          (((∀ p ∈ passed Reactor.copied s a, p.Within 512) ∧ ∀ fd, (s'.conn fd).InRange) ↔
            NoErrors s a)) ∧
    ∀ s : State WebServer.config, ReachableIf others WebServer.ErrorsBelow s →
      (∀ fd, (s.conn fd).InRange) ∧ s.fault ≠ some .length ∧
        ∀ a s', step s a = some s' →
          (((∀ p ∈ passed WebServer.copied s a, p.Within 1024) ∧ ∀ fd, (s'.conn fd).InRange) ↔
            WebServer.ErrorsBelow s a) := by
  constructor
  · intro s hs
    have hdata : ReachableIf others ErrorsOnData s :=
      Lib.Reaches.mono_of (J := Reachable others) (fun _ ht => ReachableIf.reachable ht)
        (fun _ _ _ ht hok hstep => (Reactor.errorsOnData_iff ht hstep).mpr hok) hs
    obtain ⟨hin, hfault, hiff⟩ := lengths_iff Reactor.copies hdata
    exact ⟨hin, hfault, fun a s' hstep =>
      (hiff a s' hstep).trans (Reactor.errorsOnData_iff (ReachableIf.reachable hs) hstep)⟩
  · intro s hs
    have hdata : ReachableIf others ErrorsOnData s :=
      Lib.Reaches.mono_of (J := Reachable others) (fun _ ht => ReachableIf.reachable ht)
        (fun _ _ _ ht hok hstep => (WebServer.errorsOnData_iff ht hstep).mpr hok) hs
    obtain ⟨hin, hfault, hiff⟩ := lengths_iff WebServer.copies hdata
    exact ⟨hin, hfault, fun a s' hstep =>
      (hiff a s' hstep).trans (WebServer.errorsOnData_iff (ReachableIf.reachable hs) hstep)⟩

/-- A client of `reactor.c` is accepted, and its first data are reported. -/
def reportedRun (listener client : ℕ) : List Action :=
  Reactor.opening listener ++
    [.epollWait [(listener, .epollin)], .accept client, .epollWait [(client, .epollin)]]

/-- A client of `webserver.c` gets the page, and then `recv` returns -1. -/
def errorRun (listener client : ℕ) (bytes : List UInt8) : List Action :=
  WebServer.twoRequests listener client bytes [72] ++
    [.epollWait [(client, .epollout)], .send 205, .epollWait [(client, .epollin)], .recv none]

/-- A run of `reactor.c` without errors, and one of `webserver.c` in which `recv` returns -1 with a
request in `rbuffer`. -/
theorem lengths_of_errorsBelow_run :
    (∃ s : State Reactor.config, s.kernel.received 0 = [97] ∧ (∀ fd, (s.conn fd).InRange) ∧
      s.fault ≠ some .length) ∧
    ∃ s : State WebServer.config, (s.conn 5).rlen = 3 ∧ (∀ fd, (s.conn fd).InRange) ∧
      s.fault ≠ some .length := by
  constructor
  · obtain ⟨s, hs, hreceived⟩ := exists_reachable (fun fd => decide (fd < 4)) NoErrors
      (reportedRun 4 24 ++ [.recv (some [97])])
      (fun s : State Reactor.config => s.kernel.received 0 = [97]) (by decide +kernel)
    obtain ⟨hin, hfault, -⟩ := (lengths_of_errorsBelow _).1 s hs
    exact ⟨s, hreceived, hin, hfault⟩
  · obtain ⟨s, hs, hrlen⟩ := exists_reachable (fun fd => decide (fd < 3)) WebServer.ErrorsBelow
      (errorRun 3 5 [71, 69, 84])
      (fun s : State WebServer.config => (s.conn 5).rlen = 3) (by decide +kernel)
    obtain ⟨hin, hfault, -⟩ := (lengths_of_errorsBelow _).2 s hs
    exact ⟨s, hrlen, hin, hfault⟩

/-- Where the first `recv` on a connection returns -1, `reactor.c` passes a negative length to
`memcpy`, and `webserver.c` keeps an `rlen` of -1. -/
theorem lengths_of_errorsBelow_early :
    (∃ (s s' : State Reactor.config) (p : Span), Reachable (fun fd => decide (fd < 4)) s ∧
      step s (.recv none) = some s' ∧ p ∈ passed Reactor.copied s (.recv none) ∧
      ¬p.Within 512) ∧
    ∃ s : State WebServer.config, Reachable (fun fd => decide (fd < 3)) s ∧
      (s.conn 5).rlen = -1 ∧ ¬(s.conn 5).InRange := by
  constructor
  · obtain ⟨s, hs, hfault⟩ := exists_reachable (fun fd => decide (fd < 4)) (fun _ _ => True)
      (reportedRun 4 24)
      (fun s : State Reactor.config =>
        (step s (.recv none)).any (fun s' => decide (s'.fault = some .length)) = true)
      (by decide +kernel)
    obtain ⟨s', hstep, hfault⟩ := exists_fault hfault
    obtain ⟨p, hp, hout⟩ := (fault_length_iff Reactor.copies
      (table_of_reachable (ReachableIf.reachable hs)) hstep).mp hfault
    exact ⟨s, s', p, hs, hstep, hp, hout⟩
  · obtain ⟨s, hs, hrlen⟩ := exists_reachable (fun fd => decide (fd < 3)) (fun _ _ => True)
      ((WebServer.twoRequests 3 5 [] []).take 4 ++ [.recv none])
      (fun s : State WebServer.config => (s.conn 5).rlen = -1) (by decide +kernel)
    refine ⟨s, hs, hrlen, fun hin => ?_⟩
    have hlo := hin.rlen.1
    omega

end CPStudy.Epoll

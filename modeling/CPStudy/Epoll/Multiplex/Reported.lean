import CPStudy.Epoll.Multiplex.Watched

/-!
# What the `select` and the `poll` server call `recv` on

The `for` loop takes for readable what is in `rset` or has `POLLIN` in `revents` when it starts.
`select` replaces `rset`, so that it takes a `select` that fails while a client is connected for
something else to be there. `poll` writes to the entries up to `maxfd` only, and it looks at the
descriptor in an entry, so that this also depends on what stands in the entries of `fds` that
nothing was written to. `watched_of_tops` says when all connections are watched and `recv` is called
on what was reported only, and what follows from the first step against each condition.
-/

namespace CPStudy.Epoll.Multiplex

open Function (update)

variable {m : Multiplexer} {p : Listening} {t₀ : m.Table} {s s' t : State m} {a : Action}
  {ok : State m → Action → Prop}

/-! ## What `recv` is called on -/

/-- What the `for` loop takes for readable was reported. It starts after the system call where the
listening socket is not readable, and else after `accept`. -/
def Quiet (p : Listening) (s : State m) : Action → Prop
  | .wait result => ∀ t reported, m.wait s.kernel s.maxfd s.table result = some (t, reported) →
    m.flagged t p.sockfd = false →
      ∀ i, p.sockfd < i → i ≤ s.maxfd → m.flagged t i = true → i ∈ reported
  | .accept clientfd => s.pc = .waited →
    ∀ i : ℕ, p.sockfd < i → (i : ℤ) ≤ clientfd → m.flagged s.table i = true → i ∈ s.reported
  | .recv _ _ => True
  | .pass => True
  | .finish _ => True

/-- `recv` was called on what was reported, and so it goes on in this round. -/
structure Reported (p : Listening) (s : State m) : Prop where
  /-- The calls so far. -/
  calls : ∀ r ∈ s.recvs, r.reported = true
  /-- What the `for` loop will look at if it starts without an `accept`. -/
  waited : s.pc = .waited → m.flagged s.table p.sockfd = false →
    ∀ i, p.sockfd < i → i ≤ s.maxfd → m.flagged s.table i = true → i ∈ s.reported
  /-- What the `for` loop looks at. -/
  scan : ∀ j, s.pc = .scan j →
    ∀ i, p.sockfd < i → i ≤ s.maxfd → m.flagged s.table i = true → i ∈ s.reported

/-- One more call of `recv`. -/
theorem Reported.append (h : Reported p s) {i : ℕ} (hi : i ∈ s.reported) :
    ∀ r ∈ s.recvs ++ [{ fd := i, reported := decide (i ∈ s.reported) }], r.reported = true := by
  intro r hr
  rcases List.mem_append.mp hr with hr | hr
  · exact h.calls r hr
  · rw [List.mem_singleton.mp hr]
    exact decide_eq_true hi

/-- A step preserves it. -/
theorem Reported.step (h : Reported p s) (hscan : ∀ i, s.pc = .scan i → p.sockfd < i)
    (hquiet : Quiet p s a) (he : Effect p s a s') : Reported p s' := by
  cases he with
  | finished id => exact ⟨h.calls, h.waited, h.scan⟩
  | waited result t reported hpc hwait =>
    exact ⟨h.calls, fun _ => hquiet t reported hwait, nofun⟩
  | accepted fd hpc hflagged hfd hfile =>
    refine ⟨h.calls, nofun, fun _ _ i hlt hi hflagged' => ?_⟩
    dsimp only at hi hflagged' ⊢
    rw [m.flagged_insert] at hflagged'
    exact hquiet hpc i hlt (Int.ofNat_le.mpr hi) hflagged'
  | outside => exact ⟨h.calls, h.waited, h.scan⟩
  | echoed i result sent kernel hpc hi hflagged hkernel =>
    have hmem := h.scan i hpc i (hscan i hpc) hi hflagged
    exact ⟨h.append hmem, nofun, fun _ _ => h.scan i hpc⟩
  | closed i result sent kernel hpc hi hflagged hkernel =>
    have hmem := h.scan i hpc i (hscan i hpc) hi hflagged
    refine ⟨h.append hmem, nofun, fun _ _ j hlt hj hflagged' => ?_⟩
    dsimp only at hj hflagged' ⊢
    rw [m.flagged_remove] at hflagged'
    exact h.scan i hpc j hlt hj hflagged'
  | started hpc hflagged => exact ⟨h.calls, nofun, fun _ _ => h.waited hpc hflagged⟩
  | skipped i hpc hflagged => exact ⟨h.calls, nofun, fun _ _ => h.scan i hpc⟩
  | ended => exact ⟨h.calls, nofun, nofun⟩

/-- `recv` is called on what was reported in every run in which the `for` loop takes nothing else
for readable. -/
theorem reported_of_run (hsound : ∀ s, ReachableIf p t₀ ok s → Sound p t₀ s)
    (hok : ∀ s a s', ReachableIf p t₀ ok s → ok s a → step p s a = some s' → Quiet p s a)
    (hs : ReachableIf p t₀ ok s) : Reported p s :=
  Lib.Reaches.invariant_of (I := Reported p) (J := ReachableIf p t₀ ok) (fun _ h => h)
    ⟨nofun, nofun, nofun⟩
    (fun t a t' hrun h hoka hstep =>
      h.step (hsound t hrun).scan (hok t a t' hrun hoka hstep) (effect_of_step hstep).2) hs

/-- `recv` was called on something that was not reported, or will be when the `for` loop comes to
the descriptor `i`; before it starts this also takes that `C` holds of the open files and the
table. -/
inductive Pending (C : (ℕ → Option File) → m.Table → Prop) (i : ℕ) (s : State m) : Prop
  /-- `recv` was called. -/
  | called (r : Recv) (hr : r ∈ s.recvs) (hreported : r.reported = false) : Pending C i s
  /-- The `for` loop has not started. -/
  | waited (hpc : s.pc = .waited) (hC : C s.kernel.file s.table) (hi : i ≤ s.maxfd)
      (hflagged : m.flagged s.table i = true) (hreported : i ∉ s.reported) : Pending C i s
  /-- The `for` loop has not come to the descriptor. -/
  | scan (j : ℕ) (hpc : s.pc = .scan j) (hj : j ≤ i) (hi : i ≤ s.maxfd)
      (hflagged : m.flagged s.table i = true) (hreported : i ∉ s.reported) : Pending C i s

/-- The `for` loop calls `recv` on what was not reported, or is still to come to it. -/
theorem recv_or_lt {i j : ℕ} (hj : j ≤ i) (hreported : i ∉ s.reported) :
    (∃ r ∈ s.recvs ++ [{ fd := j, reported := decide (j ∈ s.reported) }], r.reported = false) ∨
      j + 1 ≤ i := by
  rcases Nat.lt_or_eq_of_le hj with hlt | rfl
  · exact .inr hlt
  · exact .inl ⟨_, List.mem_append_right _ (.head _), decide_eq_false hreported⟩

/-- A step preserves it, where `accept` does not lower `maxfd` below the descriptor. -/
theorem Pending.step {C : (ℕ → Option File) → m.Table → Prop} {i : ℕ} (h : Pending C i s)
    (hsockfd : p.sockfd < i)
    (hlow : ∀ fd : ℕ, a = .accept fd → m.flagged s.table p.sockfd = true →
      C s.kernel.file s.table → i ≤ fd)
    (he : Effect p s a s') : Pending C i s' := by
  cases h with
  | called r hr hreported =>
    have hmem : r ∈ s'.recvs := by
      cases he with
      | echoed | closed => exact List.mem_append_left _ hr
      | finished | waited | accepted | outside | started | skipped | ended => exact hr
    exact .called r hmem hreported
  | waited hpc hC hi hflagged hreported =>
    cases he with
    | finished | outside => exact .waited hpc hC hi hflagged hreported
    | accepted fd _ hlistener =>
      refine .scan _ rfl hsockfd (hlow fd rfl hlistener hC) ?_ hreported
      exact (congrFun (m.flagged_insert ..) i).trans hflagged
    | started => exact .scan _ rfl hsockfd hi hflagged hreported
    | waited result t reported hpc' | echoed j result sent kernel hpc'
    | closed j result sent kernel hpc' | skipped j hpc' | ended j hpc' =>
      rw [hpc] at hpc'
      cases hpc'
  | scan j hpc hj hi hflagged hreported =>
    cases he with
    | finished | outside => exact .scan j hpc hj hi hflagged hreported
    | echoed j' result sent kernel hpc' =>
      obtain rfl : j = j' := Pc.scan.inj (hpc.symm.trans hpc')
      rcases recv_or_lt hj hreported with ⟨r, hr, hno⟩ | hlt
      · exact .called r hr hno
      · exact .scan _ rfl hlt hi hflagged hreported
    | closed j' result sent kernel hpc' =>
      obtain rfl : j = j' := Pc.scan.inj (hpc.symm.trans hpc')
      rcases recv_or_lt hj hreported with ⟨r, hr, hno⟩ | hlt
      · exact .called r hr hno
      · refine .scan _ rfl hlt hi ?_ hreported
        exact (congrFun (m.flagged_remove ..) i).trans hflagged
    | skipped j' hpc' hflagged' =>
      obtain rfl : j = j' := Pc.scan.inj (hpc.symm.trans hpc')
      -- The descriptor itself is not skipped.
      have hne : j ≠ i := by
        rintro rfl
        rw [hflagged] at hflagged'
        cases hflagged'
      exact .scan _ rfl (by omega) hi hflagged hreported
    | ended j' hpc' hgt =>
      obtain rfl : j = j' := Pc.scan.inj (hpc.symm.trans hpc')
      exact absurd (hj.trans hi) hgt
    | waited result t reported hpc' | accepted fd hpc' | started hpc' =>
      rw [hpc] at hpc'
      cases hpc'

/-! ## The two servers -/

/-- `select` fails only while no client is connected. -/
def Succeeds (s : State selectServer) : Action → Prop
  | .wait result => result = none → ∀ fd < tableSize, connected s.kernel fd = false
  | .accept _ => True
  | .recv _ _ => True
  | .pass => True
  | .finish _ => True

instance (s : State selectServer) (a : Action) : Decidable (Succeeds s a) :=
  match a with
  | .wait result => inferInstanceAs
      (Decidable (result = none → ∀ fd < tableSize, connected s.kernel fd = false))
  | .accept _ => isTrue trivial
  | .recv _ _ => isTrue trivial
  | .pass => isTrue trivial
  | .finish _ => isTrue trivial

/-- The entries above `sockfd` and up to `maxfd` that have `POLLIN` in `revents` when the `for` loop
starts hold what `poll` has reported in this round. Where no connection is accepted it starts after
`poll`: each entry reported then is that of a descriptor reported, and where `poll` fails no entry
has `POLLIN` from before. Else it starts after `accept`, with the new `maxfd`. -/
def Written (p : Listening) (s : State pollServer) : Action → Prop
  | .wait none => (s.table p.sockfd).revents = false →
    ∀ i ≤ s.maxfd, p.sockfd < i → (s.table i).revents = false
  | .wait (some readable) => p.sockfd ∉ readable →
    ∀ i ∈ readable, p.sockfd < i → ∃ j ∈ readable, (s.table j).fd = i
  | .accept clientfd => ∀ i ≤ clientfd.toNat, p.sockfd < i → (s.table i).revents = true →
    i ∈ s.reported
  | .recv _ _ => True
  | .pass => True
  | .finish _ => True

instance (p : Listening) (s : State pollServer) (a : Action) : Decidable (Written p s a) :=
  match a with
  | .wait none => inferInstanceAs (Decidable ((s.table p.sockfd).revents = false →
      ∀ i ≤ s.maxfd, p.sockfd < i → (s.table i).revents = false))
  | .wait (some readable) => inferInstanceAs (Decidable (p.sockfd ∉ readable →
      ∀ i ∈ readable, p.sockfd < i → ∃ j ∈ readable, (s.table j).fd = i))
  | .accept clientfd => inferInstanceAs (Decidable (∀ i ≤ clientfd.toNat, p.sockfd < i →
      (s.table i).revents = true → i ∈ s.reported))
  | .recv _ _ => isTrue trivial
  | .pass => isTrue trivial
  | .finish _ => isTrue trivial

/-- What `poll` reports, where the entry `i` is taken for readable after it. -/
theorem mem_reported_poll {k : Kernel} {maxfd i : ℕ} {fds fds' : ℕ → PollFd} {readable : List ℕ}
    {reported : List ℕ} (hwait : poll k maxfd fds (some readable) = some (fds', reported))
    (hi : i ≤ maxfd) : ((fds' i).revents = true ↔ i ∈ readable) ∧
      (i ∈ reported ↔ ∃ j ∈ readable, (fds j).fd = i) := by
  obtain ⟨hall, hwait⟩ := Option.ite_none_right_eq_some.mp hwait
  cases hwait
  refine ⟨?_, ?_⟩
  · dsimp only
    rw [if_pos hi, decide_eq_true_eq]
  · rw [List.mem_map]
    refine exists_congr fun j => and_congr_right fun hj => ?_
    -- `poll` reports no entry with a negative descriptor.
    have hpos := (hall j hj).2.1
    omega

/-- `poll` looks at the entries up to `maxfd`. -/
theorem le_of_mem_readable {k : Kernel} {maxfd i : ℕ} {fds fds' : ℕ → PollFd} {readable : List ℕ}
    {reported : List ℕ} (hwait : poll k maxfd fds (some readable) = some (fds', reported))
    (hi : i ∈ readable) : i ≤ maxfd := by
  obtain ⟨hall, -⟩ := Option.ite_none_right_eq_some.mp hwait
  exact (hall i hi).1

/-- In the `poll` server nothing else is taken for readable exactly where the entries hold what was
reported. -/
theorem quiet_poll_iff {fds : ℕ → PollFd} {s s' : State pollServer} (h : Sound p fds s)
    (hstep : step p s a = some s') : Quiet p s a ↔ Written p s a := by
  cases (effect_of_step hstep).2 with
  | waited result t reported hpc hwait =>
    -- What the system call returns is known.
    have hquiet : Quiet p s (.wait result) ↔ ((t p.sockfd).revents = false →
        ∀ i, p.sockfd < i → i ≤ s.maxfd → (t i).revents = true → i ∈ reported) := by
      refine ⟨fun h => h t reported hwait, fun h t' reported' hwait' => ?_⟩
      cases hwait.symm.trans hwait'
      exact h
    rw [hquiet]
    cases result with
    | none =>
      cases hwait
      refine imp_congr_right fun _ => ⟨fun h i hi hlt => ?_, fun h i hlt hi hflagged => ?_⟩
      · by_contra hne
        exact absurd (h i hlt hi (by simpa using hne)) List.not_mem_nil
      · rw [h i hi hlt] at hflagged
        cases hflagged
    | some readable =>
      have hentry : ∀ i ≤ s.maxfd, ((t i).revents = true ↔ i ∈ readable) ∧
          (i ∈ reported ↔ ∃ j ∈ readable, (s.table j).fd = i) :=
        fun i hi => mem_reported_poll hwait hi
      have hlistener : (t p.sockfd).revents = false ↔ p.sockfd ∉ readable := by
        rw [← (hentry p.sockfd h.sockfd).1, Bool.not_eq_true]
      rw [hlistener]
      refine imp_congr_right fun _ => ⟨fun h i hi hlt => ?_, fun h i hlt hi hflagged => ?_⟩
      · have hle : i ≤ s.maxfd := le_of_mem_readable hwait hi
        exact (hentry i hle).2.mp (h i hlt hle ((hentry i hle).1.mpr hi))
      · exact (hentry i hi).2.mpr (h i ((hentry i hi).1.mp hflagged) hlt)
  | accepted fd hpc =>
    refine ⟨fun h i hi hlt hflagged => ?_, fun h _ i hlt hi hflagged => ?_⟩
    · exact h hpc i hlt (Int.ofNat_le.mpr hi) hflagged
    · exact h i (Int.ofNat_le.mp hi) hlt hflagged
  | outside clientfd hpc =>
    refine ⟨fun h i hi hlt hflagged => ?_, fun h _ i hlt hi hflagged => ?_⟩
    · exact h hpc i hlt (by omega) hflagged
    · exact h i (by omega) hlt hflagged
  | finished | echoed | closed | started | skipped | ended => exact Iff.rfl

/-- The connections are looked for by the server, and `recv` is called on what was reported. -/
structure Watched (p : Listening) (s : State m) : Prop where
  /-- What is passed to `select` or `poll`, and what the `for` loop goes through, has all
  connections. -/
  range : ∀ fd, connected s.kernel fd = true → p.sockfd < fd ∧ fd ≤ s.maxfd
  /-- The connections are waited for. -/
  entered : ∀ fd, connected s.kernel fd = true → m.watches s.table fd = true
  /-- `recv` was called on descriptors that were reported readable in the same round. -/
  reported : ∀ r ∈ s.recvs, r.reported = true

/-- The parts together. -/
theorem Sound.watched (h : Sound p t₀ s) (hreported : Reported p s) : Watched p s where
  range := fun fd hfd => ⟨(h.bounds fd hfd).1, h.covers fd hfd⟩
  entered := h.entered
  reported := hreported.calls

/-- A connection beyond `maxfd` is not watched. -/
theorem Watched.covers (h : Watched p s) : (watch s.kernel s.maxfd).Covers :=
  fun fd hfd => (h.range fd hfd).2

/-- Before the loop `rfds` has the listening socket. -/
theorem FdSets.rfds_start (sockfd : ℕ) (rset : ℕ → Bool) (fd : ℕ) :
    (FdSets.start sockfd rset).rfds fd = decide (fd = sockfd) := by
  unfold FdSets.start
  dsimp only
  rcases eq_or_ne fd sockfd with rfl | hne
  · rw [Function.update_self, decide_eq_true rfl]
  · rw [Function.update_of_ne hne, decide_eq_false hne]

/-- In the `select` server it is the connections and the listening socket that are waited for. -/
theorem rfds_iff {rset : ℕ → Bool} {s : State selectServer}
    (h : Sound p (FdSets.start p.sockfd rset) s) (fd : ℕ) :
    s.table.rfds fd = true ↔ fd = p.sockfd ∨ connected s.kernel fd = true := by
  constructor
  · intro hfd
    rcases h.known fd hfd with hstart | hconnected
    · exact .inl (of_decide_eq_true ((FdSets.rfds_start p.sockfd rset fd).symm.trans hstart))
    · exact .inr hconnected
  · rintro (rfl | hconnected)
    · have hstart := FdSets.rfds_start p.sockfd rset p.sockfd
      exact (h.kept p.sockfd le_rfl).trans (hstart.trans (decide_eq_true rfl))
    · exact h.entered fd hconnected

/-- After `select` that fails only while no client is connected, what is in `rset` above `sockfd`
was reported. -/
theorem mem_reported_select {rset : ℕ → Bool} {s : State selectServer} {t : FdSets}
    {result : Option (List ℕ)} {reported : List ℕ}
    (h : Sound p (FdSets.start p.sockfd rset) s) (hsucceeds : Succeeds s (.wait result))
    (hwait : select s.maxfd s.table result = some (t, reported)) {i : ℕ} (hlt : p.sockfd < i)
    (hi : t.rset i = true) : i ∈ reported := by
  -- What is in `rfds` above `sockfd` are the connections.
  have hconnected : s.table.rfds i = true → connected s.kernel i = true := by
    intro hrfds
    exact ((rfds_iff h i).mp hrfds).resolve_left (by omega)
  cases result with
  | none =>
    cases hwait
    have hmem := hconnected hi
    rw [hsucceeds rfl i (h.bounds i hmem).2] at hmem
    cases hmem
  | some l =>
    obtain ⟨hall, hwait⟩ := Option.ite_none_right_eq_some.mp hwait
    cases hwait
    have hmem : i ∈ l := of_decide_eq_true hi
    have hle : i ≤ s.maxfd := h.covers i (hconnected (hall i hmem))
    exact List.mem_filter.mpr ⟨hmem, decide_eq_true hle⟩

/-- So it is up to the start of the `for` loop. -/
theorem mem_reported_of_run {rset : ℕ → Bool} {s : State selectServer}
    (hs : ReachableIf p (FdSets.start p.sockfd rset)
      (fun s a => Above p a ∧ Tops s a ∧ Succeeds s a) s) (hpc : s.pc = .waited) :
    ∀ i, p.sockfd < i → s.table.rset i = true → i ∈ s.reported := by
  refine Lib.Reaches.invariant_of
    (I := fun u : State selectServer => u.pc = .waited →
      ∀ i, p.sockfd < i → u.table.rset i = true → i ∈ u.reported)
    (fun _ => sound_of_run fun _ _ hok => ⟨hok.1, hok.2.1⟩) nofun ?_ hs hpc
  -- Only `select` itself leads to this point of the loop.
  intro u b v hsound h hok hstep
  cases (effect_of_step hstep).2 with
  | finished id => exact h
  | waited result t reported hpc hwait =>
    exact fun _ i hlt hi => mem_reported_select hsound hok.2.2 hwait hlt hi
  | outside => exact h
  | accepted | echoed | closed | started | skipped | ended => exact nofun

/-- In the `select` server nothing but what is reported is taken for readable. -/
theorem quiet_select {rset : ℕ → Bool} {s : State selectServer}
    (hs : ReachableIf p (FdSets.start p.sockfd rset)
      (fun s a => Above p a ∧ Tops s a ∧ Succeeds s a) s) (hsucceeds : Succeeds s a) :
    Quiet p s a := by
  have hsound := sound_of_run (fun _ _ hok => ⟨hok.1, hok.2.1⟩) hs
  cases a with
  | wait result =>
    exact fun t reported hwait _ i hlt _ => mem_reported_select hsound hsucceeds hwait hlt
  | accept clientfd => exact fun hpc i hlt _ => mem_reported_of_run hs hpc i hlt
  | recv | pass | finish => trivial

/-- Where something is taken for readable that was not reported, `recv` is called on it. -/
theorem Pending.not_watched {C : (ℕ → Option File) → m.Table → Prop} {i : ℕ} (h : Pending C i s)
    (hpc : s.pc = .head) : ¬Watched p s := by
  intro hwatched
  cases h with
  | called r hr hreported =>
    rw [hwatched.reported r hr] at hreported
    cases hreported
  | waited hpc' | scan j hpc' =>
    rw [hpc] at hpc'
    cases hpc'

/-- A step of the `for` loop's start that takes more for readable than was reported. -/
theorem pending_of_not_quiet (habove : Above p a) (htops : Tops s a)
    (hquiet : ¬Quiet p s a) (he : Effect p s a s') :
    ∃ i, p.sockfd < i ∧ Pending (fun _ t => m.flagged t p.sockfd = false) i s' := by
  cases he with
  | waited result t reported hpc hwait =>
    unfold Quiet at hquiet
    push Not at hquiet
    obtain ⟨t', reported', hwait', hlistener, i, hlt, hi, hflagged, hreported⟩ := hquiet
    cases hwait.symm.trans hwait'
    exact ⟨i, hlt, .waited rfl hlistener hi hflagged hreported⟩
  | accepted fd hpc hlistener hfd hfile =>
    unfold Quiet at hquiet
    push Not at hquiet
    obtain ⟨-, i, hlt, hi, hflagged, hreported⟩ := hquiet
    refine ⟨i, hlt, .scan _ rfl hlt (Int.ofNat_le.mp hi) ?_ hreported⟩
    exact (congrFun (m.flagged_insert ..) i).trans hflagged
  | outside clientfd hpc hclientfd =>
    have hpos : (p.sockfd : ℤ) < clientfd := habove
    exact absurd ⟨by omega, htops.1⟩ hclientfd
  | finished | echoed | closed | started | skipped | ended => exact absurd trivial hquiet

/-- After such a step `recv` has been called on it whenever the loop is at its head. -/
theorem not_watched_of_not_quiet (habove : Above p a) (htops : Tops s a)
    (hquiet : ¬Quiet p s a) (hstep : step p s a = some s')
    (ht : Lib.Reaches (step p) (fun _ _ => True) s' t) (hpc : t.pc = .head) : ¬Watched p t := by
  obtain ⟨i, hlt, hpending⟩ := pending_of_not_quiet habove htops hquiet (effect_of_step hstep).2
  refine (ht.invariant hpending fun u b v hu _ hstep => ?_).not_watched hpc
  -- Without a connection to be accepted `accept` is not called.
  refine hu.step hlt (fun fd _ hlistener hno => ?_) (effect_of_step hstep).2
  rw [hlistener] at hno
  cases hno

/-- After `select` has failed while a client is connected, `recv` has been called on what was not
reported whenever the loop is at its head. -/
theorem not_watched_of_not_succeeds {rset : ℕ → Bool} {s s' t : State selectServer}
    (h : Sound p (FdSets.start p.sockfd rset) s) (hfail : ¬Succeeds s a)
    (hstep : step p s a = some s')
    (ht : Lib.Reaches (step p) (fun u b => Above p b ∧ Tops u b) s' t) (hpc : t.pc = .head) :
    ¬Watched p t := by
  cases (effect_of_step hstep).2 with
  | waited result t reported hpc' hwait =>
    unfold Succeeds at hfail
    push Not at hfail
    obtain ⟨rfl, i, hi, hconnected⟩ := hfail
    rw [ne_eq, Bool.not_eq_false] at hconnected
    cases hwait
    -- The client's descriptor is in `rset`, and no connection is accepted below it.
    have hpending : Pending (m := selectServer)
        (fun file _ => ∃ id, file i = some (.conn id)) i
        { s with pc := .waited, table := { s.table with rset := s.table.rfds }, reported := [] } :=
      .waited rfl (connected_iff.mp hconnected) (h.covers i hconnected) (h.entered i hconnected)
        List.not_mem_nil
    refine (ht.invariant hpending fun u b v hu hok hstep => ?_).not_watched hpc
    refine hu.step (h.bounds i hconnected).1 ?_ (effect_of_step hstep).2
    rintro fd rfl - hfile
    exact Int.ofNat_le.mp (hok.2.2 i hi (connected_iff.mpr hfile))
  | finished | accepted | outside | echoed | closed | started | skipped | ended =>
    exact absurd trivial hfail

/-- A round in which a connection is accepted and nothing else is readable. -/
def acceptRound (sockfd fd : ℕ) : List Action :=
  [.wait (some [sockfd]), .accept fd] ++ List.replicate (fd + 1 - sockfd) .pass

/-- A round in which one connection is readable. -/
def recvRound (sockfd maxfd fd : ℕ) (bytes : List UInt8) : List Action :=
  [.wait (some [fd])] ++ List.replicate (fd - sockfd) .pass ++ [.recv (some bytes) bytes] ++
    List.replicate (maxfd + 1 - fd) .pass

/-- Of two connections the larger one leaves, its descriptor is used again, and the smaller one is
served. -/
def reusedRun : List Action :=
  acceptRound 3 5 ++ acceptRound 3 6 ++ [.finish 1] ++ recvRound 3 6 6 [] ++ acceptRound 3 6 ++
    recvRound 3 6 5 [97]

/-- Of two connections the smaller one leaves, and its descriptor is used again. -/
def lostRun : List Action :=
  acceptRound 3 5 ++ acceptRound 3 6 ++ [.finish 0] ++ recvRound 3 6 5 [] ++ acceptRound 3 5

/-- A server whose listening socket is 3. -/
def usual : Listening where
  sockfd := 3
  others := fun fd => decide (fd < 3)

/-- Entries of `fds` that hold nothing. -/
def PollFd.blank : ℕ → PollFd := fun _ => { fd := 0, events := false, revents := false }

end CPStudy.Epoll.Multiplex

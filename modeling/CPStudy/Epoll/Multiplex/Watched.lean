import CPStudy.Epoll.Multiplex.Model

/-!
# Which descriptors the `select` and the `poll` server watch

Both set `maxfd` to the descriptor of the connection accepted last, and look no further. A
descriptor that is used again is smaller than others, and those are then lost until a larger one is
accepted. `Sound` says what holds as long as each new descriptor is above the others (`Tops`), and
`not_covers_of_run` what follows when one is not.
-/

namespace CPStudy.Epoll.Multiplex

open Function (update)

/-- The descriptor is that of a connection. -/
def connected (k : Kernel) (fd : ℕ) : Bool :=
  match k.file fd with
  | some (.conn _) => true
  | some .listener => false
  | some .other => false
  | none => false

section

variable {k k' : Kernel} {fd : ℕ}

/-- A descriptor is that of a connection where its file is one. -/
theorem connected_iff : connected k fd = true ↔ ∃ id, k.file fd = some (.conn id) := by
  unfold connected
  split <;> simp_all

/-- It is the open files that say which descriptors are those of connections. -/
theorem connected_congr (h : k'.file = k.file) : connected k' = connected k := by
  funext fd
  unfold connected
  rw [h]

/-- A connection is accepted. -/
theorem connected_accept : connected (k.accept fd) = update (connected k) fd true := by
  funext i
  unfold connected Kernel.accept
  dsimp only
  rcases eq_or_ne i fd with rfl | hne
  · rw [Function.update_self, Function.update_self]
  · rw [Function.update_of_ne hne, Function.update_of_ne hne]

/-- A connection is closed. -/
theorem connected_close : connected (k.close fd) = update (connected k) fd false := by
  funext i
  unfold connected Kernel.close
  dsimp only
  rcases eq_or_ne i fd with rfl | hne
  · rw [Function.update_self, Function.update_self]
  · rw [Function.update_of_ne hne, Function.update_of_ne hne]

/-- `recv` and `send` leave the descriptors alone. -/
theorem file_echo {result : Option (List UInt8)} {sent : List UInt8}
    (h : echo k fd result sent = some k') : k'.file = k.file := by
  unfold echo at h
  split at h
  case h_1 =>
    obtain ⟨-, h⟩ := Option.ite_none_right_eq_some.mp h
    exact Option.some.inj h ▸ rfl
  case h_2 => exact Option.some.inj h ▸ rfl
  case h_3 => exact Option.some.inj h ▸ rfl
  case h_4 => cases h

end

variable {m : Multiplexer} {p : Listening} {t₀ : m.Table} {s s' t : State m} {a : Action}
  {ok : State m → Action → Prop}

/-! ## What one step can do -/

/-- The changes a step can make. -/
inductive Effect (p : Listening) (s : State m) : Action → State m → Prop
  /-- The peer of a connection reaches the end of its stream. -/
  | finished (id : ℕ) : Effect p s (.finish id) { s with kernel := s.kernel.finish id }
  /-- `select` or `poll` returns. -/
  | waited (result : Option (List ℕ)) (t : m.Table) (reported : List ℕ) (hpc : s.pc = .head)
      (hwait : m.wait s.kernel s.maxfd s.table result = some (t, reported)) :
      Effect p s (.wait result) { s with pc := .waited, table := t, reported := reported }
  /-- A connection is accepted. -/
  | accepted (fd : ℕ) (hpc : s.pc = .waited) (hflagged : m.flagged s.table p.sockfd = true)
      (hfd : fd < tableSize) (hfile : s.kernel.file fd = none) :
      Effect p s (.accept fd) { s with
        pc := .scan (p.sockfd + 1)
        kernel := s.kernel.accept fd
        table := m.insert s.table fd
        maxfd := fd }
  /-- A descriptor is entered outside the table. -/
  | outside (clientfd : ℤ) (hpc : s.pc = .waited)
      (hclientfd : ¬(0 ≤ clientfd ∧ clientfd < tableSize)) :
      Effect p s (.accept clientfd) { s with fault := true }
  /-- `recv` returns something else than 0. -/
  | echoed (i : ℕ) (result : Option (List UInt8)) (sent : List UInt8) (kernel : Kernel)
      (hpc : s.pc = .scan i) (hi : i ≤ s.maxfd) (hflagged : m.flagged s.table i = true)
      (hkernel : kernel.file = s.kernel.file) :
      Effect p s (.recv result sent) { s with
        pc := .scan (i + 1)
        kernel := kernel
        recvs := s.recvs ++ [{ fd := i, reported := decide (i ∈ s.reported) }] }
  /-- `recv` returns 0. -/
  | closed (i : ℕ) (result : Option (List UInt8)) (sent : List UInt8) (kernel : Kernel)
      (hpc : s.pc = .scan i) (hi : i ≤ s.maxfd) (hflagged : m.flagged s.table i = true)
      (hkernel : kernel.file = s.kernel.file) :
      Effect p s (.recv result sent) { s with
        pc := .scan (i + 1)
        kernel := kernel.close i
        table := m.remove s.table i
        recvs := s.recvs ++ [{ fd := i, reported := decide (i ∈ s.reported) }] }
  /-- No connection is to be accepted. -/
  | started (hpc : s.pc = .waited) (hflagged : m.flagged s.table p.sockfd = false) :
      Effect p s .pass { s with pc := .scan (p.sockfd + 1) }
  /-- There is nothing to be read. -/
  | skipped (i : ℕ) (hpc : s.pc = .scan i) (hflagged : m.flagged s.table i = false) :
      Effect p s .pass { s with pc := .scan (i + 1) }
  /-- The `for` loop ends. -/
  | ended (i : ℕ) (hpc : s.pc = .scan i) (hi : ¬i ≤ s.maxfd) :
      Effect p s .pass { s with pc := .head }

/-- `accept`. -/
theorem effect_accept {clientfd : ℤ} (h : accept p s clientfd = some s') :
    Effect p s (.accept clientfd) s' := by
  unfold accept at h
  obtain ⟨⟨hpc, hflagged⟩, h⟩ := Option.ite_none_right_eq_some.mp h
  split at h
  case isTrue hrange =>
    obtain ⟨hfile, h⟩ := Option.ite_none_right_eq_some.mp h
    obtain ⟨fd, rfl⟩ := Int.eq_ofNat_of_zero_le hrange.1
    exact Option.some.inj h ▸ .accepted fd hpc hflagged (Int.ofNat_lt.mp hrange.2) hfile
  case isFalse hrange => exact Option.some.inj h ▸ .outside clientfd hpc hrange

/-- `recv`. -/
theorem effect_receive {result : Option (List UInt8)} {sent : List UInt8}
    (h : receive s result sent = some s') : Effect p s (.recv result sent) s' := by
  unfold receive at h
  split at h
  case h_1 i hpc =>
    obtain ⟨⟨hi, hflagged⟩, h⟩ := Option.ite_none_right_eq_some.mp h
    obtain ⟨kernel, hecho, h⟩ := Option.map_eq_some_iff.mp h
    have hkernel := file_echo hecho
    dsimp only at h
    split at h
    case isTrue => exact h ▸ .closed i result sent kernel hpc hi hflagged hkernel
    case isFalse => exact h ▸ .echoed i result sent kernel hpc hi hflagged hkernel
  all_goals cases h

/-- The loop goes on. -/
theorem effect_pass (h : pass p s = some s') : Effect p s .pass s' := by
  unfold pass at h
  split at h
  case h_1 => cases h
  case h_2 hpc =>
    obtain ⟨hflagged, h⟩ := Option.ite_none_left_eq_some.mp h
    exact Option.some.inj h ▸ .started hpc (Bool.eq_false_iff.mpr hflagged)
  case h_3 i hpc =>
    split at h
    case isTrue =>
      obtain ⟨hflagged, h⟩ := Option.ite_none_left_eq_some.mp h
      exact Option.some.inj h ▸ .skipped i hpc (Bool.eq_false_iff.mpr hflagged)
    case isFalse hi => exact Option.some.inj h ▸ .ended i hpc hi

/-- Every step has one of the effects, and starts where nothing has gone wrong. -/
theorem effect_of_step (h : step p s a = some s') : s.fault = false ∧ Effect p s a s' := by
  unfold step at h
  obtain ⟨hfault, h⟩ := Option.ite_none_right_eq_some.mp h
  refine ⟨hfault, ?_⟩
  cases a with
  | wait result =>
    dsimp only at h
    unfold wait at h
    split at h
    case h_1 hpc =>
      obtain ⟨⟨t, reported⟩, hwait, h⟩ := Option.map_eq_some_iff.mp h
      exact h ▸ .waited result t reported hpc hwait
    all_goals cases h
  | accept clientfd => exact effect_accept h
  | recv result sent => exact effect_receive h
  | pass => exact effect_pass h
  | finish id => exact Option.some.inj h ▸ .finished id

/-! ## The connections and `maxfd` -/

/-- The connections, and how far the loop looks for them. -/
def watch (k : Kernel) (maxfd : ℕ) : Lib.Watch ℕ where
  members := {fd | connected k fd = true}
  bound := maxfd

/-- A connection is accepted. -/
theorem watch_accept (k : Kernel) (maxfd fd : ℕ) :
    watch (k.accept fd) fd = (watch k maxfd).put fd := by
  unfold watch Lib.Watch.put
  rw [connected_accept]
  congr 1
  ext i
  rcases eq_or_ne i fd with rfl | hne
  · simp
  · simp [hne]

/-- A connection is closed. -/
theorem watch_close (k : Kernel) (maxfd fd : ℕ) :
    watch (k.close fd) maxfd = (watch k maxfd).drop fd := by
  unfold watch Lib.Watch.drop
  rw [connected_close]
  congr 1
  ext i
  rcases eq_or_ne i fd with rfl | hne
  · simp
  · simp [hne]

/-- It is the open files that say which descriptors are looked for. -/
theorem watch_congr {k k' : Kernel} (h : k'.file = k.file) (maxfd : ℕ) :
    watch k' maxfd = watch k maxfd := by
  unfold watch
  rw [connected_congr h]

/-- `accept` returns a descriptor above `sockfd`. -/
def Above (p : Listening) : Action → Prop
  | .accept clientfd => p.sockfd < clientfd
  | .wait _ => True
  | .recv _ _ => True
  | .pass => True
  | .finish _ => True

instance (p : Listening) (a : Action) : Decidable (Above p a) :=
  match a with
  | .accept clientfd => inferInstanceAs (Decidable ((p.sockfd : ℤ) < clientfd))
  | .wait _ => isTrue trivial
  | .recv _ _ => isTrue trivial
  | .pass => isTrue trivial
  | .finish _ => isTrue trivial

/-- `accept` returns a descriptor that has a place in the table and is above those of all
connections. -/
def Tops (s : State m) : Action → Prop
  | .accept clientfd =>
    clientfd < tableSize ∧ ∀ fd < tableSize, connected s.kernel fd = true → (fd : ℤ) ≤ clientfd
  | .wait _ => True
  | .recv _ _ => True
  | .pass => True
  | .finish _ => True

instance (s : State m) (a : Action) : Decidable (Tops s a) :=
  match a with
  | .accept clientfd => inferInstanceAs (Decidable (clientfd < tableSize ∧
      ∀ fd < tableSize, connected s.kernel fd = true → (fd : ℤ) ≤ clientfd))
  | .wait _ => isTrue trivial
  | .recv _ _ => isTrue trivial
  | .pass => isTrue trivial
  | .finish _ => isTrue trivial

/-- What holds in every state as long as each new descriptor is above the others. -/
structure Sound (p : Listening) (t₀ : m.Table) (s : State m) : Prop where
  /-- The loop looks at all connections. -/
  covers : (watch s.kernel s.maxfd).Covers
  /-- They are above `sockfd` and have a place in the table. -/
  bounds : ∀ fd, connected s.kernel fd = true → p.sockfd < fd ∧ fd < tableSize
  /-- They are waited for. -/
  entered : ∀ fd, connected s.kernel fd = true → m.watches s.table fd = true
  /-- Nothing else is waited for that was not at the beginning. -/
  known : ∀ fd, m.watches s.table fd = true → m.watches t₀ fd = true ∨ connected s.kernel fd = true
  /-- What is waited for up to `sockfd` does not change. -/
  kept : ∀ fd ≤ p.sockfd, m.watches s.table fd = m.watches t₀ fd
  /-- The loop looks at the listening socket. -/
  sockfd : p.sockfd ≤ s.maxfd
  /-- The `for` loop begins after the listening socket. -/
  scan : ∀ i, s.pc = .scan i → p.sockfd < i
  /-- Nothing has gone wrong but at the beginning. -/
  fault : s.fault = decide (tableSize ≤ p.sockfd)

namespace Sound

/-- No descriptor is that of a connection before the loop. -/
theorem connected_init (fd : ℕ) : connected (State.init p t₀).kernel fd = false := by
  unfold connected State.init Kernel.listen Kernel.init
  dsimp only
  rcases eq_or_ne fd p.sockfd with rfl | hne
  · rw [Function.update_self]
  · rw [Function.update_of_ne hne]
    cases p.others fd <;> rfl

/-- Before the loop. -/
theorem init (p : Listening) (t₀ : m.Table) : Sound p t₀ (State.init p t₀) := by
  have hno : ∀ fd, connected (State.init p t₀).kernel fd ≠ true := by
    intro fd
    rw [connected_init]
    exact nofun
  exact {
    covers := fun fd hfd => absurd hfd (hno fd)
    bounds := fun fd hfd => absurd hfd (hno fd)
    entered := fun fd hfd => absurd hfd (hno fd)
    known := fun _ h => .inl h
    kept := fun _ _ => rfl
    sockfd := le_rfl
    scan := nofun
    fault := rfl }

/-- A step that enters nothing and takes nothing out. -/
theorem congr (h : Sound p t₀ s) (hkernel : s'.kernel.file = s.kernel.file)
    (htable : m.watches s'.table = m.watches s.table) (hmaxfd : s'.maxfd = s.maxfd)
    (hscan : ∀ i, s'.pc = .scan i → p.sockfd < i) (hfault : s'.fault = s.fault) :
    Sound p t₀ s' := by
  have hconnected := connected_congr hkernel
  constructor
  case covers =>
    rw [hmaxfd, watch_congr hkernel]
    exact h.covers
  case bounds => exact hconnected ▸ h.bounds
  case entered => exact hconnected ▸ htable ▸ h.entered
  case known => exact hconnected ▸ htable ▸ h.known
  case kept => exact htable ▸ h.kept
  case sockfd => exact hmaxfd ▸ h.sockfd
  case scan => exact hscan
  case fault => exact hfault ▸ h.fault

/-- A connection is accepted. -/
theorem accepted (h : Sound p t₀ s) {fd : ℕ} (habove : p.sockfd < fd) (hlt : fd < tableSize)
    (htops : ∀ i, connected s.kernel i = true → i ≤ fd) :
    Sound p t₀ { s with
      pc := .scan (p.sockfd + 1)
      kernel := s.kernel.accept fd
      table := m.insert s.table fd
      maxfd := fd } := by
  constructor
  case covers =>
    dsimp only
    rw [watch_accept s.kernel s.maxfd]
    -- `maxfd` is the new descriptor, so that it has to be the largest connected one.
    exact Lib.Watch.covers_put.mpr htops
  case bounds =>
    intro i hi
    dsimp only at hi
    rw [connected_accept] at hi
    rcases eq_or_ne i fd with rfl | hne
    · exact ⟨habove, hlt⟩
    · rw [Function.update_of_ne hne] at hi
      exact h.bounds i hi
  case entered =>
    intro i hi
    dsimp only at hi ⊢
    rw [connected_accept] at hi
    rw [m.watches_insert]
    rcases eq_or_ne i fd with rfl | hne
    · exact Function.update_self ..
    · rw [Function.update_of_ne hne] at hi ⊢
      exact h.entered i hi
  case known =>
    intro i hi
    dsimp only at hi ⊢
    rw [m.watches_insert] at hi
    rw [connected_accept]
    rcases eq_or_ne i fd with rfl | hne
    · exact .inr (Function.update_self ..)
    · rw [Function.update_of_ne hne] at hi ⊢
      exact h.known i hi
  case kept =>
    intro i hi
    dsimp only
    -- The new descriptor is above the listening one.
    have hne : i ≠ fd := by omega
    rw [m.watches_insert, Function.update_of_ne hne]
    exact h.kept i hi
  case sockfd => exact habove.le
  case scan =>
    rintro i ⟨⟩
    exact Nat.lt_succ_self _
  case fault => exact h.fault

/-- A connection is closed. -/
theorem closed (h : Sound p t₀ s) {i : ℕ} {kernel : Kernel} (hpc : s.pc = .scan i)
    (hkernel : kernel.file = s.kernel.file) {recvs : List Recv} :
    Sound p t₀ { s with
      pc := .scan (i + 1)
      kernel := kernel.close i
      table := m.remove s.table i
      recvs := recvs } := by
  have hi := h.scan i hpc
  constructor
  case covers =>
    dsimp only
    rw [watch_close, watch_congr hkernel]
    exact h.covers.drop
  case bounds =>
    intro j hj
    dsimp only at hj
    rw [connected_close, connected_congr hkernel] at hj
    rcases eq_or_ne j i with rfl | hne
    · rw [Function.update_self] at hj
      cases hj
    · rw [Function.update_of_ne hne] at hj
      exact h.bounds j hj
  case entered =>
    intro j hj
    dsimp only at hj ⊢
    rw [connected_close, connected_congr hkernel] at hj
    rw [m.watches_remove]
    -- The closed descriptor is connected no longer, and taken out of what is watched.
    rcases eq_or_ne j i with rfl | hne
    · rw [Function.update_self] at hj
      cases hj
    · rw [Function.update_of_ne hne] at hj ⊢
      exact h.entered j hj
  case known =>
    intro j hj
    dsimp only at hj ⊢
    rw [m.watches_remove] at hj
    rw [connected_close, connected_congr hkernel]
    rcases eq_or_ne j i with rfl | hne
    · rw [Function.update_self] at hj
      cases hj
    · rw [Function.update_of_ne hne] at hj ⊢
      exact h.known j hj
  case kept =>
    intro j hj
    dsimp only
    -- Only descriptors below the listening one are meant here, and the loop starts above it.
    have hne : j ≠ i := by omega
    rw [m.watches_remove, Function.update_of_ne hne]
    exact h.kept j hj
  case sockfd => exact h.sockfd
  case scan =>
    rintro j ⟨⟩
    omega
  case fault => exact h.fault

/-- A step preserves it. -/
theorem step (h : Sound p t₀ s) (habove : Above p a) (htops : Tops s a) (he : Effect p s a s') :
    Sound p t₀ s' := by
  cases he with
  | finished id => exact h.congr rfl rfl rfl h.scan rfl
  | waited result t reported hpc hwait =>
    exact h.congr rfl (m.watches_wait _ _ _ _ _ _ hwait) rfl nofun rfl
  | accepted fd hpc hflagged hfd hfile =>
    refine h.accepted (Int.ofNat_lt.mp habove) hfd fun i hi => ?_
    exact Int.ofNat_le.mp (htops.2 i (h.bounds i hi).2 hi)
  -- A descriptor above `sockfd` and below 1024 has a place.
  | outside clientfd hpc hclientfd =>
    have hpos : (p.sockfd : ℤ) < clientfd := habove
    exact absurd ⟨by omega, htops.1⟩ hclientfd
  | echoed i result sent kernel hpc hi hflagged hkernel =>
    have hscan := h.scan i hpc
    refine h.congr hkernel rfl rfl ?_ rfl
    rintro j ⟨⟩
    omega
  | closed i result sent kernel hpc hi hflagged hkernel => exact h.closed hpc hkernel
  | started hpc =>
    refine h.congr rfl rfl rfl ?_ rfl
    rintro j ⟨⟩
    exact Nat.lt_succ_self _
  | skipped i hpc hflagged =>
    have hscan := h.scan i hpc
    refine h.congr rfl rfl rfl ?_ rfl
    rintro j ⟨⟩
    omega
  | ended => exact h.congr rfl rfl rfl nofun rfl

end Sound

/-- It holds in every run in which each new descriptor is above the others. -/
theorem sound_of_run (hok : ∀ s a, ok s a → Above p a ∧ Tops s a) (hs : ReachableIf p t₀ ok s) :
    Sound p t₀ s :=
  Lib.Reaches.invariant (I := fun t => Sound p t₀ t) (Sound.init p t₀)
    (fun _ _ _ h hoka hstep => h.step (hok _ _ hoka).1 (hok _ _ hoka).2 (effect_of_step hstep).2) hs

/-- The first descriptor below another one loses the latter until another connection is accepted. -/
theorem not_covers_of_run {clientfd : ℤ} (habove : Above p (.accept clientfd))
    (hstep : step p s (.accept clientfd) = some s') (htops : ¬Tops s (.accept clientfd))
    (hs : Lib.Reaches (step p) (fun _ a => ∀ c, a ≠ .accept c) s' t) :
    t.fault = true ∨ ¬(watch t.kernel t.maxfd).Covers := by
  -- The invariant also has the fault, since the new descriptor may have no place in the table.
  refine Lib.Reaches.invariant
    (I := fun u : State m => u.fault = true ∨ ¬(watch u.kernel u.maxfd).Covers) ?_ ?_ hs
  · have he := (effect_of_step hstep).2
    have hpos : (p.sockfd : ℤ) < clientfd := habove
    cases he with
    | accepted fd hpc hflagged hfd hfile =>
      right
      -- All others below the new descriptor is what was ruled out.
      rw [watch_accept s.kernel s.maxfd, Lib.Watch.covers_put]
      intro hcon
      exact htops ⟨by omega, fun i _ hi => Int.ofNat_le.mpr (hcon i hi)⟩
    | outside => exact .inl rfl
  · intro u a u' hu hno hstep
    obtain ⟨hfault, he⟩ := effect_of_step hstep
    have hlost : ¬(watch u.kernel u.maxfd).Covers := by
      rcases hu with hu | hu
      · rw [hfault] at hu
        cases hu
      · exact hu
    right
    cases he with
    | accepted fd => exact absurd rfl (hno fd)
    | outside clientfd => exact absurd rfl (hno clientfd)
    -- What is closed was scanned, so it is not the connection beyond `maxfd`.
    | closed i result sent kernel hpc hi hflagged hkernel =>
      dsimp only
      rw [watch_close, watch_congr hkernel]
      exact Lib.Watch.not_covers_drop hlost hi
    | echoed i result sent kernel hpc hi hflagged hkernel =>
      dsimp only
      rw [watch_congr hkernel]
      exact hlost
    | finished | waited | started | skipped | ended => exact hlost

end CPStudy.Epoll.Multiplex

import CPStudy.Copy.Model
import CPStudy.Lib.Handle

/-!
# Value semantics of the copying classes

An object is a handle of its buffer. The operations that the classes declare make a buffer, give one
up, or do both, so that `Lib.Handles` holds in every run that makes no other copy, and each buffer
holds what the history of its owner says. The memberwise copies of the compiler put the number of
one buffer into two objects, and the values are shared from then on.
-/

namespace CPStudy.Copy

open Function (update)
open Lib (Handles)

variable {O : Type*} {s s' : State O} {a : Action O} {h : Heap} {x : O} {o : Object}

/-- An object with the buffer and the value that belong to it. -/
inductive Fits : Object → Buffer → Value → Prop
  /-- A string ends with the first null character of its buffer, and `length` is its length. -/
  | myString (data : ℕ) (str : List UInt8) (hstr : 0 ∉ str) :
      Fits (.myString data str.length) (.chars (str ++ [0])) (.str str)
  /-- An integer. -/
  | deepCopy (data : ℕ) (value : ℤ) : Fits (.deepCopy data) (.int value) (.int value)

/-- The buffer of the object holds the value that its history gives it. -/
def Holds (s : State O) (x : O) (o : Object) : Prop :=
  ∃ b v, s.heap.buffer o.data = some b ∧ s.value x = some v ∧ Fits o b v

/-- Value semantics: live objects have buffers of their own, which hold their values, and a buffer
is deleted at most once, and exactly once when no live object owns it. -/
structure ValueSemantics (s : State O) : Prop where
  /-- Two live objects own different buffers. -/
  distinct : ∀ x y o p, s.object x = some o → s.object y = some p → x ≠ y → o.data ≠ p.data
  /-- The buffer of a live object holds its value. -/
  holds : ∀ x o, s.object x = some o → Holds s x o
  /-- No buffer is deleted twice. -/
  nodup : s.heap.deleted.Nodup
  /-- A buffer that no live object owns was deleted once. -/
  count : ∀ k < s.heap.allocs, (∀ x o, s.object x = some o → o.data ≠ k) →
    s.heap.deleted.count k = 1

/-- A string without a null character, with one behind it, is cut there. -/
theorem takeWhile_terminated {str : List UInt8} (hstr : 0 ∉ str) :
    (str ++ [0]).takeWhile (· ≠ 0) = str := by
  have hall : ∀ c ∈ str, decide (c ≠ 0) = true := by
    intro c hc
    have hne : c ≠ 0 := by
      rintro rfl
      exact hstr hc
    exact decide_eq_true hne
  rw [List.takeWhile_append_of_pos hall]
  simp

/-- What stands before the first null character has none. -/
theorem zero_notMem_cstr (str : List UInt8) : 0 ∉ cstr str := by
  intro hmem
  have hne := List.mem_takeWhile_imp hmem
  simp at hne

/-- The string that a `const char*` stands for is what is before the first null character of the
array. -/
theorem takeWhile_cstr (str : List UInt8) : (str ++ [0]).takeWhile (· ≠ 0) = cstr str := by
  unfold cstr
  induction str with
  | nil => simp
  | cons c str ih =>
    rw [List.cons_append, List.takeWhile_cons, List.takeWhile_cons, ih]

/-- A string is copied into an array of its own length and one more. -/
theorem newChars_eq {src str : List UInt8} (hsrc : src.takeWhile (· ≠ 0) = str) :
    h.newChars (str.length + 1) src = h.new (.chars (str ++ [0])) := by
  have hlength : (str ++ [0]).length = str.length + 1 := List.length_append
  have hfault : (h.fault || decide (str.length + 1 < str.length + 1)) = h.fault := by simp
  unfold Heap.newChars strcpy
  dsimp only
  rw [hsrc, hlength, hfault, Nat.sub_self, List.replicate_zero, List.append_nil]

/-- The construction of a `MyString`. -/
theorem MyString.construct_eq (h : Heap) (str : List UInt8) :
    MyString.construct h (str ++ [0]) = ((h.new (.chars (cstr str ++ [0]))).1,
      .myString h.allocs (cstr str).length) := by
  unfold MyString.construct strlen
  dsimp only
  rw [takeWhile_cstr, newChars_eq (takeWhile_cstr str)]
  rfl

/-- The assignment of a `MyString` whose buffer is another one. -/
theorem MyString.assign_eq {data otherData : ℕ} {str : List UInt8} (hne : otherData ≠ data)
    (hb : h.buffer otherData = some (.chars (str ++ [0]))) (hstr : 0 ∉ str) :
    MyString.assign h data otherData str.length =
      (((h.delete data).new (.chars (str ++ [0]))).1, .myString h.allocs str.length) := by
  have hread : (h.delete data).readChars otherData = (h.delete data, str ++ [0]) := by
    have hb' : (h.delete data).buffer otherData = some (.chars (str ++ [0])) := by
      show update h.buffer data none otherData = _
      rw [Function.update_of_ne hne]
      exact hb
    unfold Heap.readChars
    rw [hb']
  unfold MyString.assign
  dsimp only
  rw [hread]
  dsimp only
  rw [newChars_eq (takeWhile_terminated hstr)]
  rfl

/-- The copy construction of a `DeepCopy`. -/
theorem DeepCopy.copyConstruct_eq {otherData : ℕ} {value : ℤ}
    (hb : h.buffer otherData = some (.int value)) :
    DeepCopy.copyConstruct h otherData = ((h.new (.int value)).1, .deepCopy h.allocs) := by
  unfold DeepCopy.copyConstruct Heap.readInt
  rw [hb]
  rfl

/-- The buffer that an object owns. -/
def holder (s : State O) (x : O) : Option ℕ := (s.object x).map Object.data

/-- A live object owns the buffer at `data`. -/
theorem holder_eq (hx : s.object x = some o) : holder s x = some o.data := by
  rw [holder, hx, Option.map_some]

/-- The objects are handles of their buffers, each of which holds its owner's value. -/
structure Inv (s : State O) : Prop where
  /-- Every access was to a buffer that was allocated. -/
  fault : s.heap.fault = false
  /-- The objects are handles of the buffers. -/
  handles : Handles (holder s) s.heap.allocs s.heap.deleted
  /-- The buffer of a live object holds its value. -/
  holds : ∀ x o, s.object x = some o → Holds s x o

/-- A `MyString` holds a string. -/
theorem Holds.myString {data length : ℕ} (hx : Holds s x (.myString data length)) :
    ∃ str : List UInt8, 0 ∉ str ∧ length = str.length ∧
      s.heap.buffer data = some (.chars (str ++ [0])) ∧ s.value x = some (.str str) := by
  obtain ⟨b, v, hb, hv, hfits⟩ := hx
  cases hfits with
  | myString data str hstr => exact ⟨str, hstr, rfl, hb, hv⟩

/-- A `DeepCopy` holds an integer. -/
theorem Holds.deepCopy {data : ℕ} (hx : Holds s x (.deepCopy data)) :
    ∃ value : ℤ, s.heap.buffer data = some (.int value) ∧ s.value x = some (.int value) := by
  obtain ⟨b, v, hb, hv, hfits⟩ := hx
  cases hfits with
  | deepCopy data value => exact ⟨value, hb, hv⟩

/-- An object keeps its value where neither it nor its buffer is concerned. -/
theorem Holds.congr (hx : Holds s x o) (hb : s'.heap.buffer o.data = s.heap.buffer o.data)
    (hv : s'.value x = s.value x) : Holds s' x o := by
  obtain ⟨b, v, hb', hv', hfits⟩ := hx
  exact ⟨b, v, hb.trans hb', hv.trans hv', hfits⟩

/-- A new buffer is not one that an object owns. -/
theorem Inv.data_ne_allocs (hs : Inv s) (hx : s.object x = some o) : o.data ≠ s.heap.allocs := by
  have hlt := hs.handles.lt (holder_eq hx)
  omega

/-- Two objects own different buffers. -/
theorem Inv.data_ne (hs : Inv s) {y : O} {p : Object} (hx : s.object x = some o)
    (hy : s.object y = some p) (hne : x ≠ y) : o.data ≠ p.data := by
  intro heq
  refine hne (hs.handles.unique (holder_eq hx) ?_)
  rw [holder_eq hy, heq]

/-- A buffer that an object owns is allocated. -/
theorem Inv.isNone_buffer (hs : Inv s) (hx : s.object x = some o) :
    (s.heap.buffer o.data).isNone = false := by
  obtain ⟨b, -, hb, -⟩ := hs.holds x o hx
  rw [hb]
  rfl

/-- The invariant is value semantics, and more. -/
theorem Inv.valueSemantics (hs : Inv s) : ValueSemantics s where
  distinct := fun _ _ _ _ hx hy hne => hs.data_ne hx hy hne
  holds := hs.holds
  nodup := hs.handles.nodup
  count := by
    intro k hk hnone
    refine hs.handles.count_eq_one hk fun x hx => ?_
    obtain ⟨o, ho, hdata⟩ := Option.map_eq_some_iff.mp hx
    exact hnone x o ho hdata

variable [DecidableEq O]

/-- What a step without a memberwise copy changes. -/
inductive Effect (s : State O) : State O → Prop
  /-- A new object makes its buffer. -/
  | make (this : O) (o : Object) (b : Buffer) (v : Value) (hthis : s.object this = none)
      (hdata : o.data = s.heap.allocs) (hfits : Fits o b v) :
      Effect s (s.put this ((s.heap.new b).1, o) (some v))
  /-- An object is assigned itself. -/
  | same : Effect s s
  /-- An object deletes its buffer and makes another one. -/
  | remake (this : O) (o p : Object) (b : Buffer) (v : Value) (hthis : s.object this = some p)
      (hdata : o.data = s.heap.allocs) (hfits : Fits o b v) :
      Effect s (s.put this (((s.heap.delete p.data).new b).1, o) (some v))
  /-- An object changes what its buffer holds. -/
  | write (this : O) (data : ℕ) (value : ℤ) (hthis : s.object this = some (.deepCopy data)) :
      Effect s (s.put this (s.heap.writeInt data value, .deepCopy data) (some (.int value)))
  /-- An object deletes its buffer. -/
  | destroy (this : O) (p : Object) (hthis : s.object this = some p) :
      Effect s
        { heap := s.heap.delete p.data
          object := update s.object this none
          value := update s.value this none }

/-- The buffers that objects own after one object has changed. -/
theorem holder_update {heap : Heap} {value : O → Option Value} (this : O) (p : Option Object) :
    holder { heap := heap, object := update s.object this p, value := value } =
      update (holder s) this (p.map Object.data) := by
  funext y
  unfold holder
  by_cases hy : y = this
  · subst hy
    simp
  · simp [hy]

/-- Every step without a memberwise copy has one of the effects. -/
theorem Inv.effect (hs : Inv s) (hdeep : deep s a = true) (hstep : step s a = some s') :
    Effect s s' := by
  unfold step at hstep
  rw [if_neg (by rw [hs.fault]; exact Bool.false_ne_true)] at hstep
  cases a with
  | constructMyString this str =>
    obtain ⟨hthis, hstep⟩ := Option.ite_none_right_eq_some.mp hstep
    rw [← Option.some.inj hstep, MyString.construct_eq]
    exact .make this _ _ _ hthis rfl (.myString _ _ (zero_notMem_cstr str))
  | constructDeepCopy this value =>
    obtain ⟨hthis, hstep⟩ := Option.ite_none_right_eq_some.mp hstep
    rw [← Option.some.inj hstep]
    exact .make this _ _ _ hthis rfl (.deepCopy _ _)
  | copyInit this other =>
    obtain ⟨hthis, hstep⟩ := Option.ite_none_right_eq_some.mp hstep
    obtain ⟨o, hother, rfl⟩ := Option.map_eq_some_iff.mp hstep
    cases o with
    | myString data length =>
      simp only [deep, hother] at hdeep
      cases hdeep
    | deepCopy data =>
      obtain ⟨value, hb, hv⟩ := (hs.holds other _ hother).deepCopy
      dsimp only
      rw [DeepCopy.copyConstruct_eq hb, hv]
      exact .make this _ _ _ hthis rfl (.deepCopy _ _)
  | assign this other =>
    dsimp only at hstep
    split at hstep
    case h_1 data length otherData otherLength hthis hother =>
      rcases eq_or_ne this other with rfl | hne
      · -- `this == &str`: nothing changes.
        have hsame : s.put this (s.heap, .myString data length) (s.value this) = s := by
          unfold State.put
          rw [← hthis, Function.update_eq_self, Function.update_eq_self]
        rw [if_pos rfl, hsame] at hstep
        rw [← Option.some.inj hstep]
        exact .same
      · rw [if_neg hne] at hstep
        obtain ⟨str, hstr, hlength, hb, hv⟩ := (hs.holds other _ hother).myString
        -- The two objects have buffers of their own, so that the source is still there to read.
        have hdata : otherData ≠ data := (hs.data_ne hthis hother hne).symm
        rw [← Option.some.inj hstep, hlength, MyString.assign_eq hdata hb hstr, hv]
        exact .remake this _ (.myString data length) _ _ hthis rfl (.myString _ _ hstr)
    case h_2 data otherData hthis hother =>
      simp only [deep, hthis, decide_eq_true_eq] at hdeep
      subst hdeep
      have hsame : s.put this (DeepCopy.assign s.heap otherData) (s.value this) = s := by
        unfold State.put DeepCopy.assign
        rw [← hother, Function.update_eq_self, Function.update_eq_self]
      rw [hsame] at hstep
      rw [← Option.some.inj hstep]
      exact .same
    case h_3 => cases hstep
  | setValue this val =>
    dsimp only at hstep
    split at hstep
    case h_1 data hthis =>
      rw [← Option.some.inj hstep]
      exact .write this data val hthis
    case h_2 => cases hstep
  | destroy this =>
    obtain ⟨p, hthis, rfl⟩ := Option.map_eq_some_iff.mp hstep
    exact .destroy this p hthis

/-- After an operation on one object that leaves the buffers of the others alone, all objects hold
their values if that one does. -/
theorem holds_put (hs : Inv s) {r : Heap × Object} {v? : Option Value}
    (hthis : Holds (s.put this r v?) this r.2)
    (hother : ∀ y o, y ≠ this → s.object y = some o →
      r.1.buffer o.data = s.heap.buffer o.data) :
    ∀ y o, (s.put this r v?).object y = some o → Holds (s.put this r v?) y o := by
  intro y o hy
  by_cases hyt : y = this
  · subst hyt
    obtain rfl : r.2 = o := by simpa [State.put] using hy
    exact hthis
  · have hy' : s.object y = some o := by simpa [State.put, hyt] using hy
    exact (hs.holds y o hy').congr (hother y o hyt hy') (Function.update_of_ne hyt ..)

/-- Every effect keeps the invariant. -/
theorem Inv.step (hs : Inv s) (heff : Effect s s') : Inv s' := by
  cases heff with
  | make this o b v hthis hdata hfits =>
    refine { fault := hs.fault, handles := ?_, holds := holds_put hs ?_ ?_ }
    · have hmade := hs.handles.make (i := this) (by rw [holder, hthis, Option.map_none])
      unfold State.put
      rw [holder_update, Option.map_some, hdata]
      exact hmade
    · refine ⟨b, v, ?_, Function.update_self .., hfits⟩
      show update s.heap.buffer s.heap.allocs (some b) o.data = _
      rw [hdata, Function.update_self]
    -- No object has the buffer that is allocated now.
    · intro y p _ hy
      exact Function.update_of_ne (hs.data_ne_allocs hy) ..
  -- `x = x` does nothing.
  | same => exact hs
  | remake this o p b v hthis hdata hfits =>
    refine { fault := ?_, handles := ?_, holds := holds_put hs ?_ ?_ }
    · show (s.heap.fault || (s.heap.buffer p.data).isNone) = false
      rw [hs.fault, hs.isNone_buffer hthis]
      rfl
    · -- The old buffer is given up before the new one is made.
      have hgiven := (hs.handles.give this).make (Function.update_self ..)
      rw [holder_eq hthis, Option.toList_some, Function.update_idem] at hgiven
      unfold State.put
      rw [holder_update, Option.map_some, hdata]
      exact hgiven
    · refine ⟨b, v, ?_, Function.update_self .., hfits⟩
      show update (update s.heap.buffer p.data none) s.heap.allocs (some b) o.data = _
      rw [hdata, Function.update_self]
    · intro y q hne hy
      show update (update s.heap.buffer p.data none) s.heap.allocs (some b) q.data = _
      rw [Function.update_of_ne (hs.data_ne_allocs hy),
        Function.update_of_ne (hs.data_ne hy hthis hne)]
  -- Only the object's own buffer is written to, and nobody else has it.
  | write this data value hthis =>
    refine { fault := ?_, handles := ?_, holds := holds_put hs ?_ ?_ }
    · have hnone := hs.isNone_buffer hthis
      show (s.heap.fault || (s.heap.buffer data).isNone) = false
      rw [hs.fault]
      exact hnone
    · have hdata : holder s this = some data := holder_eq hthis
      have hsame : update (holder s) this (some data) = holder s := by
        rw [← hdata, Function.update_eq_self]
      unfold State.put
      rw [holder_update]
      show Handles (update (holder s) this (some data)) _ _
      rw [hsame]
      exact hs.handles
    · exact ⟨.int value, .int value, Function.update_self .., Function.update_self ..,
        .deepCopy data value⟩
    · intro y q hne hy
      exact Function.update_of_ne (hs.data_ne hy hthis hne) ..
  -- Nobody else has the buffer that is deleted.
  | destroy this p hthis =>
    refine { fault := ?_, handles := ?_, holds := ?_ }
    · show (s.heap.fault || (s.heap.buffer p.data).isNone) = false
      rw [hs.fault, hs.isNone_buffer hthis]
      rfl
    · have hgiven := hs.handles.give this
      rw [holder_eq hthis, Option.toList_some] at hgiven
      rw [holder_update]
      exact hgiven
    · intro y q hy
      dsimp only at hy
      have hne : y ≠ this := by
        rintro rfl
        rw [Function.update_self] at hy
        cases hy
      have hy' : s.object y = some q := by rwa [Function.update_of_ne hne] at hy
      exact (hs.holds y q hy').congr (Function.update_of_ne (hs.data_ne hy' hthis hne) ..)
        (Function.update_of_ne hne ..)

/-- The invariant holds in every run without memberwise copies. -/
theorem Inv.reachable (hrun : ReachableIf (fun s a => deep s a = true) s) : Inv s := by
  refine Lib.Reaches.invariant ⟨rfl, Handles.init, ?_⟩
    (fun t a u ht hok hstep => ht.step (ht.effect hok hstep)) hrun
  intro x o hx
  cases hx

/-- A memberwise copy puts the number of one buffer into two live objects. -/
theorem shared_of_not_deep (hdeep : deep s a = false) (hstep : step s a = some s') :
    ¬ValueSemantics s' := by
  intro hv
  unfold step at hstep
  obtain ⟨-, hstep⟩ := Option.ite_none_left_eq_some.mp hstep
  cases a with
  | copyInit this other =>
    obtain ⟨hthis, hstep⟩ := Option.ite_none_right_eq_some.mp hstep
    obtain ⟨o, hother, rfl⟩ := Option.map_eq_some_iff.mp hstep
    -- The object did not exist before, and the other one did.
    have hne : other ≠ this := by
      rintro rfl
      rw [hthis] at hother
      cases hother
    cases o with
    | myString data length =>
      refine hv.distinct this other (.myString data length) (.myString data length) ?_ ?_
        hne.symm rfl
      · exact Function.update_self ..
      · exact (Function.update_of_ne hne ..).trans hother
    | deepCopy data =>
      simp only [deep, hother] at hdeep
      cases hdeep
  | assign this other =>
    dsimp only at hstep
    split at hstep
    case h_1 data length otherData otherLength hthis hother =>
      simp only [deep, hthis] at hdeep
      cases hdeep
    case h_2 data otherData hthis hother =>
      simp only [deep, hthis, decide_eq_false_iff_not] at hdeep
      rw [← Option.some.inj hstep] at hv
      -- Both objects have the buffer of the right one, and they are different objects.
      refine hv.distinct this other (.deepCopy otherData) (.deepCopy otherData) ?_ ?_ hdeep rfl
      · exact Function.update_self ..
      · exact (Function.update_of_ne (Ne.symm hdeep) ..).trans hother
    case h_3 => cases hstep
  | constructMyString => cases hdeep
  | constructDeepCopy => cases hdeep
  | setValue => cases hdeep
  | destroy => cases hdeep

/-- In every run that initialises no `MyString` from another one and assigns no `DeepCopy` another
one, the objects have value semantics in every state, and no access was to a buffer that was not
allocated. The first such copy of a run ends the value semantics: the state after it has two live
objects with one buffer. -/
theorem value_semantics_of_deep :
    (∀ s : State O, ReachableIf (fun s a => deep s a = true) s →
      ValueSemantics s ∧ s.heap.fault = false) ∧
    ∀ (s s' : State O) (a : Action O), ReachableIf (fun s a => deep s a = true) s →
      step s a = some s' → ¬deep s a = true → ¬ValueSemantics s' := by
  refine ⟨fun s hrun => ?_, fun s s' a _ hstep hdeep => ?_⟩
  · have hs := Inv.reachable hrun
    exact ⟨hs.valueSemantics, hs.fault⟩
  · exact shared_of_not_deep (Bool.not_eq_true _ ▸ hdeep) hstep

/-- Both classes are constructed, copied the deep way, assigned and destroyed. -/
def deepRun : List (Action (Fin 4)) :=
  [.constructMyString 0 [72, 105], .constructMyString 1 [], .assign 1 0, .assign 1 1,
    .constructDeepCopy 2 10, .copyInit 3 2, .setValue 2 20, .assign 3 3, .destroy 0, .destroy 2]

/-- The copies keep their values when the originals are changed and destroyed. -/
theorem value_semantics_of_deep_copies : ∃ s : State (Fin 4), s.value 1 = some (.str [72, 105]) ∧
    s.value 3 = some (.int 10) ∧ s.object 0 = none ∧ s.object 2 = none ∧
    ValueSemantics s ∧ s.heap.fault = false := by
  obtain ⟨s, hrun, hp⟩ := Lib.exists_reaches step deep (State.init (Fin 4)) deepRun
    (fun s => decide (s.value 1 = some (.str [72, 105]) ∧ s.value 3 = some (.int 10) ∧
      s.object 0 = none ∧ s.object 2 = none)) (by decide)
  obtain ⟨h1, h3, h0, h2⟩ := of_decide_eq_true hp
  exact ⟨s, h1, h3, h0, h2, value_semantics_of_deep.1 s hrun⟩

/-- `main` of `operator=.cpp`, up to its return: `str2` is initialised from `str1`, and both are
destroyed. -/
def mainRun : List (Action (Fin 2)) :=
  [.constructMyString 0 [72, 101, 108, 108, 111], .copyInit 1 0, .destroy 1, .destroy 0]

/-- Two integers, the second assigned the first. -/
def assignedRun : List (Action (Fin 2)) :=
  [.constructDeepCopy 0 10, .constructDeepCopy 1 20, .assign 1 0]

/-- `main` deletes the buffer of `"Hello"` twice, and after an assignment of a `DeepCopy` two
objects own one buffer. -/
theorem value_semantics_of_deep_shared :
    (∃ s : State (Fin 2), Reachable s ∧ s.heap.deleted = [0, 0] ∧ ¬ValueSemantics s) ∧
    ∃ s : State (Fin 2), Reachable s ∧ s.object 0 = some (.deepCopy 0) ∧
      s.object 1 = some (.deepCopy 0) ∧ ¬ValueSemantics s := by
  constructor
  · obtain ⟨s, hrun, hp⟩ := Lib.exists_reaches step (fun _ _ => true) (State.init (Fin 2)) mainRun
      (fun s => decide (s.heap.deleted = [0, 0])) (by decide)
    have hdeleted : s.heap.deleted = [0, 0] := of_decide_eq_true hp
    refine ⟨s, hrun.mono fun _ _ _ => trivial, hdeleted, fun hv => ?_⟩
    have hnodup := hv.nodup
    rw [hdeleted] at hnodup
    exact absurd hnodup (by decide)
  · obtain ⟨s, hrun, hp⟩ := Lib.exists_reaches step (fun _ _ => true) (State.init (Fin 2))
      assignedRun (fun s => decide (s.object 0 = some (.deepCopy 0) ∧
        s.object 1 = some (.deepCopy 0))) (by decide)
    obtain ⟨h0, h1⟩ := of_decide_eq_true hp
    refine ⟨s, hrun.mono fun _ _ _ => trivial, h0, h1, fun hv => ?_⟩
    exact hv.distinct 0 1 _ _ h0 h1 (by decide) rfl

end CPStudy.Copy

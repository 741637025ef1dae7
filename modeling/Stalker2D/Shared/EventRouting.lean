import Stalker2D.Shared.EventDelivery
import Stalker2D.Shared.FrozenStorage

/-!
# Events go to those who are subscribed for them

The indices of the types are given out once for all storages, while each storage has a
table of its own that is as long as it has needed to be. `Represents` relates a table to the
subscriptions the storage holds; the operations keep it, and as a storage is frozen while
it publishes, what a publication calls is what the storage held when it began.
-/

namespace Stalker2D.EventBus.Detail

variable {τ α : Type} [DecidableEq τ]

namespace SubscriberStorage

/-- The storage without its capacity. -/
def erase (storage : SubscriberStorage) : EventBus.SubscriberStorage :=
  ⟨storage.publishCount, storage.callbacks.elements⟩

/-- However much is allocated, the table grows to the index and keeps its lists. -/
theorem elements_reserveAndResizeIfNecessary (grow : Nat → Nat → Nat)
    (storage : SubscriberStorage) (index : Nat) :
    (storage.reserveAndResizeIfNecessary grow index).callbacks.elements =
      storage.erase.resizeIfNecessary index := by
  simp only [reserveAndResizeIfNecessary, EventBus.SubscriberStorage.resizeIfNecessary, erase]
  split
  next hle =>
    have hsize : storage.callbacks.size ≤ index + 1 := Nat.le_succ_of_le hle
    split
    · have hreserved : (storage.callbacks.reserve grow (index * 2)).size ≤ index + 1 := hsize
      rw [Vec.elements_resize hreserved, Vec.elements_reserve]
    · rw [Vec.elements_resize hsize]
  next hlt =>
    have hfits : index + 1 - storage.callbacks.elements.length = 0 :=
      Nat.sub_eq_zero_of_le (Nat.lt_of_not_le hlt)
    rw [hfits, List.replicate_zero, List.append_nil]

theorem elements_added (grow : Nat → Nat → Nat) (storage : SubscriberStorage)
    (index callback : Nat) : (storage.added grow index callback).callbacks.elements =
      (storage.erase.resizeIfNecessary index).modify index (· ++ [callback]) := by
  rw [added, Vec.elements_modify, elements_reserveAndResizeIfNecessary]

theorem size_added (grow : Nat → Nat → Nat) (storage : SubscriberStorage) (index callback : Nat) :
    (storage.added grow index callback).callbacks.size =
      max storage.callbacks.size (index + 1) := by
  simp only [Vec.size, elements_added, EventBus.SubscriberStorage.resizeIfNecessary, erase,
    List.length_modify, List.length_append, List.length_replicate]
  omega

/-- A callback is added to the list at its index, and to no other. -/
theorem callbacksAt_added (grow : Nat → Nat → Nat) (storage : SubscriberStorage)
    (index callback index' : Nat) : (storage.added grow index callback).callbacksAt index' =
      storage.callbacksAt index' ++ if index = index' then [callback] else [] := by
  rw [callbacksAt, elements_added, EventBus.SubscriberStorage.getD_added]
  rfl

end SubscriberStorage

section Held

variable {held : List (Subscription τ)} {type : τ}

theorem callbacksFor_append (held : List (Subscription τ)) (subscription : Subscription τ)
    (type : τ) : callbacksFor (held ++ [subscription]) type = callbacksFor held type ++
      if subscription.type = type then [subscription.callback] else [] :=
  map_filter_concat held subscription Subscription.callback (·.type = type)

theorem callbacksFor_eq_nil (h : ∀ subscription ∈ held, subscription.type ≠ type) :
    callbacksFor held type = [] := by
  rw [callbacksFor, List.map_eq_nil_iff, List.filter_eq_nil_iff]
  intro subscription hmem heq
  exact h subscription hmem (of_decide_eq_true heq)

end Held

/-- The table of a storage has, at the index of each type, what is held for the type. -/
structure Represents (types : List τ) (operations : Nat) (storage : SubscriberStorage)
    (held : List (Subscription τ)) : Prop where
  fits : storage.callbacks.size ≤ types.length
  lists : ∀ (index : Nat) type, types[index]? = some type →
    storage.callbacksAt index = callbacksFor held type
  known : ∀ subscription ∈ held, subscription.type ∈ types
  once : (held.map Subscription.callback).Nodup
  issued : ∀ subscription ∈ held, subscription.callback < operations

namespace Represents

variable {types : List τ} {operations : Nat} {storage : SubscriberStorage}
  {held : List (Subscription τ)}

/-- A storage without a table: new, cleared or moved from. -/
theorem empty (types : List τ) (operations : Nat) (h : storage.callbacks.elements = []) :
    Represents types operations storage [] where
  fits := by simp only [Vec.size, h, List.length_nil, Nat.zero_le]
  lists index type _ := by simp [SubscriberStorage.callbacksAt, h, callbacksFor]
  known _ hmem := by cases hmem
  once := List.nodup_nil
  issued _ hmem := by cases hmem

/-- Only the table matters, wherever it is. -/
theorem of_elements (represents : Represents types operations storage held)
    {other : SubscriberStorage} (h : other.callbacks.elements = storage.callbacks.elements) :
    Represents types operations other held where
  fits := by
    have := represents.fits
    rwa [Vec.size, h]
  lists index type hindex := by
    rw [← represents.lists index type hindex, SubscriberStorage.callbacksAt, h]
    rfl
  known := represents.known
  once := represents.once
  issued := represents.issued

theorem mono (represents : Represents types operations storage held) {later : Nat}
    (h : operations ≤ later) : Represents types later storage held :=
  { represents with
    issued := fun subscription hmem => Nat.lt_of_lt_of_le (represents.issued subscription hmem) h }

/-- An index is given out somewhere; nothing is subscribed for its type yet. -/
theorem eventIndex (represents : Represents types operations storage held) (type : τ) :
    Represents (EventBus.eventIndex types type).2 operations storage held := by
  obtain h | ⟨hnew, h⟩ := eventIndex_cases types type
  · rwa [h]
  · rw [h]
    refine ⟨?fits, ?lists, ?known, represents.once, represents.issued⟩
    case fits =>
      rw [List.length_append]
      exact Nat.le_add_right_of_le represents.fits
    case lists =>
      intro index type' hindex
      obtain hindex | ⟨rfl, rfl⟩ := getElem?_concat_cases hindex
      · exact represents.lists index type' hindex
      · have hbeyond : storage.callbacks.elements[types.length]? = none :=
          List.getElem?_eq_none represents.fits
        rw [SubscriberStorage.callbacksAt, hbeyond, callbacksFor_eq_nil]
        · rfl
        · rintro subscription hmem rfl
          exact hnew (represents.known subscription hmem)
    case known => exact fun subscription hmem =>
      List.mem_append_left _ (represents.known subscription hmem)

/-- A subscription for a type that has its index, whatever the length of the table. -/
theorem subscribe (represents : Represents types operations storage held) (nodup : types.Nodup)
    {index : Nat} {type : τ} (hindex : types[index]? = some type) (grow : Nat → Nat → Nat) :
    Represents types (operations + 1) (storage.added grow index operations)
      (held ++ [⟨type, operations⟩]) := by
  have hlt := (List.getElem?_eq_some_iff.mp hindex).1
  refine ⟨?fits, ?lists, ?known, ?once, ?issued⟩
  case fits =>
    have := represents.fits
    rw [SubscriberStorage.size_added]
    omega
  case lists =>
    intro index' type' hindex'
    rw [SubscriberStorage.callbacksAt_added, represents.lists index' type' hindex',
      callbacksFor_append]
    simp only [eq_iff_of_getElem? nodup hindex hindex']
  case known =>
    intro subscription hmem
    obtain hmem | hmem := List.mem_append.mp hmem
    · exact represents.known subscription hmem
    · rw [List.mem_singleton.mp hmem]
      exact List.mem_of_getElem? hindex
  case once =>
    rw [List.map_append, List.nodup_append]
    refine ⟨represents.once, List.nodup_singleton _, ?_⟩
    intro callback hmem callback' hmem'
    obtain ⟨subscription, hheld, rfl⟩ := List.mem_map.mp hmem
    rw [List.mem_singleton.mp hmem']
    exact Nat.ne_of_lt (represents.issued subscription hheld)
  case issued =>
    intro subscription hmem
    obtain hmem | hmem := List.mem_append.mp hmem
    · exact Nat.lt_succ_of_lt (represents.issued subscription hmem)
    · rw [List.mem_singleton.mp hmem]
      exact Nat.lt_succ_self operations

theorem nodup_callbacksFor (represents : Represents types operations storage held) (type : τ) :
    (callbacksFor held type).Nodup :=
  represents.once.sublist (List.filter_sublist.map _)

end Represents

namespace Holdings

variable {holdings : Holdings τ} {i j : Nat} {subscriptions : List (Subscription τ)}

omit [DecidableEq τ] in
theorem of_set_self (h : i < holdings.length) :
    Holdings.of (holdings.set i subscriptions) i = subscriptions := by
  rw [of, List.getElem?_set_self h, Option.getD_some]

omit [DecidableEq τ] in
theorem of_set_ne (h : i ≠ j) : Holdings.of (holdings.set i subscriptions) j = holdings.of j := by
  rw [of, List.getElem?_set_ne h, of]

omit [DecidableEq τ] in
theorem of_modify_self (h : i < holdings.length)
    (f : List (Subscription τ) → List (Subscription τ)) :
    Holdings.of (holdings.modify i f) i = f (holdings.of i) := by
  simp only [of, List.getElem?_modify, List.getElem?_eq_getElem h, if_true, Option.map_eq_map,
    Option.map_some, Option.getD_some]

omit [DecidableEq τ] in
theorem of_modify_ne (h : i ≠ j) (f : List (Subscription τ) → List (Subscription τ)) :
    Holdings.of (holdings.modify i f) j = holdings.of j := by
  simp only [of, List.getElem?_modify, if_neg h, Option.map_eq_map, Option.map_id']

omit [DecidableEq τ] in
theorem of_append_lt (h : i < holdings.length) :
    Holdings.of (holdings ++ [subscriptions]) i = holdings.of i := by
  rw [of, List.getElem?_append_left h, of]

omit [DecidableEq τ] in
theorem of_append_length (h : i = holdings.length) :
    Holdings.of (holdings ++ [subscriptions]) i = subscriptions := by
  rw [of, h, List.getElem?_concat_length, Option.getD_some]

end Holdings

namespace Objects

variable {grow : Nat → Nat → Nat} {s t : Objects τ α} {operation : Operation τ}

/-- The tables, the indices and what is held belong together. -/
structure Consistent (s : Objects τ α) : Prop where
  nodup : s.types.Nodup
  lengths : s.held.length = s.storages.length
  represents : ∀ (i : Nat) storage, s.storages[i]? = some storage →
    Represents s.types s.operations storage (s.held.of i)

theorem consistent_initial : Consistent ({} : Objects τ α) where
  nodup := List.nodup_nil
  lengths := rfl
  represents i storage h := by simp at h

theorem Consistent.setStorage (consistent : s.Consistent) {i : Nat} {old new : SubscriberStorage}
    (hold : s.storages[i]? = some old) (hstorages : t.storages = s.storages.set i new)
    (helements : new.callbacks.elements = old.callbacks.elements) (hheld : t.held = s.held)
    (htypes : t.types = s.types) (hoperations : t.operations = s.operations) : t.Consistent where
  nodup := htypes ▸ consistent.nodup
  lengths := by rw [hheld, hstorages, List.length_set, consistent.lengths]
  represents k storage h := by
    rw [hheld, htypes, hoperations]
    rw [hstorages] at h
    obtain ⟨rfl, rfl⟩ | ⟨-, h⟩ := getElem?_set_cases h
    · exact (consistent.represents k old hold).of_elements helements
    · exact consistent.represents k storage h

/-- An operation does to the tables what it does to what is held. -/
theorem Effect.consistent (effect : Effect grow s operation t) (consistent : s.Consistent) :
    (t.record operation (.ok ())).Consistent := by
  have hlengths := consistent.lengths
  have later : ∀ (i : Nat) storage, s.storages[i]? = some storage →
      Represents s.types (s.operations + 1) storage (s.held.of i) := fun i storage h =>
    (consistent.represents i storage h).mono (Nat.le_succ _)
  cases effect with
  | @subscribe i storage type hstorage hfree =>
    have hlt := (List.getElem?_eq_some_iff.mp hstorage).1
    refine ⟨nodup_eventIndex consistent.nodup type, ?_, fun k found hk => ?_⟩
    · simp only [record, Holdings.apply, List.length_modify, List.length_set, hlengths]
    · simp only [record, Holdings.apply]
      obtain ⟨rfl, rfl⟩ | ⟨hne, hk⟩ := getElem?_set_cases hk
      · rw [Holdings.of_modify_self (hlengths ▸ hlt)]
        exact ((consistent.represents k storage hstorage).eventIndex type).subscribe
          (nodup_eventIndex consistent.nodup type) (getElem?_eventIndex s.types type) grow
      · rw [Holdings.of_modify_ne (Ne.symm hne)]
        exact (later k found hk).eventIndex type
  | @clear i storage hstorage hfree =>
    have hlt := (List.getElem?_eq_some_iff.mp hstorage).1
    refine ⟨consistent.nodup, ?_, fun k found hk => ?_⟩
    · simp only [record, Holdings.apply, List.length_set, hlengths]
    · simp only [record, Holdings.apply]
      obtain ⟨rfl, rfl⟩ | ⟨hne, hk⟩ := getElem?_set_cases hk
      · rw [Holdings.of_set_self (hlengths ▸ hlt)]
        exact .empty _ _ rfl
      · rw [Holdings.of_set_ne (Ne.symm hne)]
        exact later k found hk
  | @moveConstruct i other hother hfree =>
    have hlt := (List.getElem?_eq_some_iff.mp hother).1
    refine ⟨consistent.nodup, ?_, fun k found hk => ?_⟩
    · simp only [record, Holdings.apply, List.length_append, List.length_set, hlengths,
        List.length_singleton]
    · simp only [record, Holdings.apply] at hk ⊢
      obtain hk | ⟨rfl, rfl⟩ := getElem?_concat_cases hk
      · have hold := (List.getElem?_eq_some_iff.mp hk).1
        rw [List.length_set] at hold
        rw [Holdings.of_append_lt (by rwa [List.length_set, hlengths])]
        obtain ⟨rfl, rfl⟩ | ⟨hne, hk⟩ := getElem?_set_cases hk
        · rw [Holdings.of_set_self (hlengths ▸ hlt)]
          exact .empty _ _ rfl
        · rw [Holdings.of_set_ne (Ne.symm hne)]
          exact later k found hk
      · rw [Holdings.of_append_length (by rw [List.length_set, List.length_set, hlengths])]
        exact (later i other hother).of_elements rfl
  | @selfAssign i storage hstorage =>
    refine ⟨consistent.nodup, ?_, fun k found hk => ?_⟩
    · simp only [record, Holdings.apply, if_true, hlengths]
    · simp only [record, Holdings.apply, if_true]
      exact later k found hk
  | @moveAssign i j storage other hne hstorage hother hfree hfree' =>
    have hlt := (List.getElem?_eq_some_iff.mp hstorage).1
    have hlt' := (List.getElem?_eq_some_iff.mp hother).1
    refine ⟨consistent.nodup, ?_, fun k found hk => ?_⟩
    · simp only [record, Holdings.apply, if_neg hne, List.length_set, hlengths]
    · simp only [record, Holdings.apply, if_neg hne]
      obtain ⟨rfl, rfl⟩ | ⟨hnej, hk⟩ := getElem?_set_cases hk
      · rw [Holdings.of_set_self (by rwa [List.length_set, hlengths])]
        exact .empty _ _ rfl
      · rw [Holdings.of_set_ne (Ne.symm hnej)]
        obtain ⟨rfl, rfl⟩ | ⟨hnei, hk⟩ := getElem?_set_cases hk
        · rw [Holdings.of_set_self (hlengths ▸ hlt)]
          exact (later j other hother).of_elements rfl
        · rw [Holdings.of_set_ne (Ne.symm hnei)]
          exact later k found hk

/-- What a storage holds does not change while it publishes. -/
theorem Effect.held_of_publishing (effect : Effect grow s operation t)
    (lengths : s.held.length = s.storages.length) {i : Nat} {storage : SubscriberStorage}
    (hstorage : s.storages[i]? = some storage) (hcount : storage.publishCount ≠ 0) :
    (s.held.apply s.operations operation).of i = s.held.of i := by
  have other : ∀ {j : Nat} {free : SubscriberStorage}, s.storages[j]? = some free →
      free.publishCount = 0 → j ≠ i := by
    rintro j free hfree hzero rfl
    exact hcount (Option.some.inj (hstorage.symm.trans hfree) ▸ hzero)
  cases effect with
  | subscribe type hj hfree => exact Holdings.of_modify_ne (other hj hfree) _
  | clear hj hfree => exact Holdings.of_set_ne (other hj hfree)
  | moveConstruct hj hfree =>
    have hlt := (List.getElem?_eq_some_iff.mp hstorage).1
    simp only [Holdings.apply]
    rw [Holdings.of_append_lt (by rwa [List.length_set, lengths]),
      Holdings.of_set_ne (other hj hfree)]
  | selfAssign hj => simp only [Holdings.apply, if_true]
  | moveAssign hne hj hk hfree hfree' =>
    simp only [Holdings.apply, if_neg hne]
    rw [Holdings.of_set_ne (other hk hfree'), Holdings.of_set_ne (other hj hfree)]

end Objects

/-- The publication a call of `publish` makes. -/
def Frame.number? : Frame τ α → Option Nat
  | .dispatch _ => none
  | .publish _ _ _ _ _ number => some number

namespace Objects

variable {grow : Nat → Nat → Nat} {s t : Objects τ α} {operation : Operation τ}

/-- The publications that are under way. -/
def numbers (s : Objects τ α) : List Nat := s.stack.filterMap Frame.number?

/-- The callbacks a publication has called, in order. -/
def callsOf (s : Objects τ α) (number : Nat) : List Nat :=
  (s.called.filter (·.number = number)).map Call.callback

/-- What holds of the loop of one call of `publish`. -/
structure Delivering (s : Objects τ α) (i : Nat) (event : Event τ α) (index position : Nat)
    (running : Bool) (number : Nat) : Prop where
  published : s.published[number]? =
    some { storage := i, event, due := callbacksFor (s.held.of i) event.type }
  index : s.types[index]? = some event.type
  called : s.callsOf number =
    (callbacksFor (s.held.of i) event.type).take (position + running.toNat)

/-- Every publication calls what its storage held, or is under way to. -/
structure Routed (s : Objects τ α) : Prop where
  consistent : s.Consistent
  counted : s.Counted
  numbers : s.numbers.Nodup
  frames : ∀ i event index position running number,
    .publish i event index position running number ∈ s.stack →
    s.Delivering i event index position running number
  finished : ∀ (number : Nat) publication, s.published[number]? = some publication →
    number ∉ s.numbers → s.callsOf number = publication.due
  once : ∀ publication ∈ s.published, publication.due.Nodup
  recorded : ∀ call ∈ s.called, call.number < s.published.length

theorem routed_initial : Routed ({} : Objects τ α) where
  consistent := consistent_initial
  counted := counted_initial
  numbers := List.nodup_nil
  frames _ _ _ _ _ _ h := by cases h
  finished _ _ h := by simp at h
  once _ h := by cases h
  recorded _ h := by cases h

/-- A change that no publication notices. -/
theorem Routed.keep (routed : s.Routed) (consistent : t.Consistent) (counted : t.Counted)
    (hstack : t.stack = s.stack) (hpublished : t.published = s.published)
    (hcalled : t.called = s.called)
    (htypes : ∀ (index : Nat) type, s.types[index]? = some type → t.types[index]? = some type)
    (hheld : ∀ i, s.publishing i ≠ 0 → t.held.of i = s.held.of i) : t.Routed where
  consistent := consistent
  counted := counted
  numbers := by
    rw [Objects.numbers, hstack]
    exact routed.numbers
  frames i event index position running number hmem := by
    rw [hstack] at hmem
    obtain ⟨published, hindex, called⟩ := routed.frames i event index position running number hmem
    have hpublishing : s.publishing i ≠ 0 :=
      Nat.ne_of_gt (List.countP_pos_iff.mpr ⟨_, hmem, decide_eq_true rfl⟩)
    refine ⟨?_, htypes index _ hindex, ?_⟩
    · rw [hpublished, hheld i hpublishing, published]
    · rw [callsOf, hcalled, hheld i hpublishing]
      exact called
  finished number publication h hnot := by
    rw [hpublished] at h
    rw [Objects.numbers, hstack] at hnot
    rw [callsOf, hcalled]
    exact routed.finished number publication h hnot
  once := hpublished ▸ routed.once
  recorded := by
    rw [hcalled, hpublished]
    exact routed.recorded

/-- The calls on the stack change without a change to what is under way. -/
theorem Routed.restack (routed : s.Routed) {stack : List (Frame τ α)}
    (counted : Counted { s with stack }) (hnumbers : stack.filterMap Frame.number? = s.numbers)
    (hframes : ∀ i event index position running number,
      .publish i event index position running number ∈ stack →
      s.Delivering i event index position running number) : Routed { s with stack } where
  consistent :=
    ⟨routed.consistent.nodup, routed.consistent.lengths, routed.consistent.represents⟩
  counted := counted
  numbers := by
    rw [Objects.numbers, hnumbers]
    exact routed.numbers
  frames i event index position running number hmem := by
    obtain ⟨published, hindex, called⟩ := hframes i event index position running number hmem
    exact ⟨published, hindex, called⟩
  finished number publication h hnot :=
    routed.finished number publication h (hnumbers ▸ hnot)
  once := routed.once
  recorded := routed.recorded

/-- Nothing was called for a publication that has not been made. -/
theorem Routed.callsOf_eq_nil (routed : s.Routed) {number : Nat}
    (h : s.published.length ≤ number) : s.callsOf number = [] := by
  rw [callsOf, List.map_eq_nil_iff, List.filter_eq_nil_iff]
  intro call hmem heq
  have hlt := routed.recorded call hmem
  rw [of_decide_eq_true heq] at hlt
  omega

/-- A publication is new: its number is that of no call under way. -/
theorem Routed.length_not_mem (routed : s.Routed) : s.published.length ∉ s.numbers := by
  intro hin
  obtain ⟨frame, hmem, hnumber⟩ := List.mem_filterMap.mp hin
  cases frame with
  | dispatch b => cases hnumber
  | publish i event index position running number =>
    obtain rfl := Option.some.inj hnumber
    have hpublished := (routed.frames i event index position running _ hmem).published
    rw [List.getElem?_eq_none (Nat.le_refl _)] at hpublished
    cases hpublished

/-- The table has the callbacks of the type at the index it has now. -/
theorem Consistent.callbacksAt (consistent : s.Consistent) {i : Nat} {storage : SubscriberStorage}
    (hstorage : s.storages[i]? = some storage) (type : τ) :
    storage.callbacksAt (eventIndex s.types type).1 = callbacksFor (s.held.of i) type :=
  ((consistent.represents i storage hstorage).eventIndex type).lists _ _
    (getElem?_eventIndex s.types type)

theorem Starts.routed {i : Nat} {event : Event τ α} (starts : s.Starts i event t)
    (routed : s.Routed) (counted : t.Counted) : t.Routed := by
  have consistent := routed.consistent
  have types : ∀ (index : Nat) type, s.types[index]? = some type →
      (eventIndex s.types event.type).2[index]? = some type :=
    fun _ _ h => getElem?_eventIndex_of_some h event.type
  have old : ∀ {number : Nat} {publication new : Publication τ α},
      s.published[number]? = some publication →
        (s.published ++ [new])[number]? = some publication := by
    intro number publication new h
    rw [List.getElem?_append_left (List.getElem?_eq_some_iff.mp h).1, h]
  have once : ∀ storage, s.storages[i]? = some storage → ∀ publication ∈ s.published ++
      [{ storage := i, event, due := callbacksFor (s.held.of i) event.type }],
        publication.due.Nodup := by
    intro storage hstorage publication hmem
    obtain hmem | hmem := List.mem_append.mp hmem
    · exact routed.once publication hmem
    · rw [List.mem_singleton.mp hmem]
      exact (consistent.represents i storage hstorage).nodup_callbacksFor event.type
  have recorded : ∀ new : Publication τ α, ∀ call ∈ s.called,
      call.number < (s.published ++ [new]).length := by
    intro new call hmem
    rw [List.length_append]
    exact Nat.lt_add_right _ (routed.recorded call hmem)
  cases starts with
  | @nobody storage hstorage hbeyond =>
    have hempty : callbacksFor (s.held.of i) event.type = [] := by
      rw [← consistent.callbacksAt hstorage, SubscriberStorage.callbacksAt,
        List.getElem?_eq_none hbeyond]
      rfl
    refine ⟨?consistent, counted, routed.numbers, ?frames, ?finished, once storage hstorage,
      recorded _⟩
    case consistent =>
      exact ⟨nodup_eventIndex consistent.nodup event.type, consistent.lengths,
        fun k found hk => (consistent.represents k found hk).eventIndex event.type⟩
    case frames =>
      intro j event' index position running number hmem
      obtain ⟨published, hindex, called⟩ :=
        routed.frames j event' index position running number hmem
      exact ⟨old published, types index _ hindex, called⟩
    case finished =>
      intro number publication h hnot
      obtain h | ⟨rfl, rfl⟩ := getElem?_concat_cases h
      · exact routed.finished number publication h hnot
      · exact (routed.callsOf_eq_nil (Nat.le_refl _)).trans hempty.symm
  | @calls storage hstorage hin =>
    refine ⟨?consistent, counted, ?numbers, ?frames, ?finished, once storage hstorage, recorded _⟩
    case consistent =>
      refine ⟨nodup_eventIndex consistent.nodup event.type, ?_, fun k found hk => ?_⟩
      · rw [List.length_set]
        exact consistent.lengths
      · obtain ⟨rfl, rfl⟩ | ⟨-, hk⟩ := getElem?_set_cases hk
        · exact ((consistent.represents k storage hstorage).eventIndex event.type).of_elements rfl
        · exact (consistent.represents k found hk).eventIndex event.type
    case numbers => exact List.nodup_cons.mpr ⟨routed.length_not_mem, routed.numbers⟩
    case frames =>
      intro j event' index position running number hmem
      obtain hmem | hmem := List.mem_cons.mp hmem
      · cases hmem
        refine ⟨List.getElem?_concat_length, getElem?_eventIndex s.types event.type, ?_⟩
        exact routed.callsOf_eq_nil (Nat.le_refl _)
      · obtain ⟨published, hindex, called⟩ :=
          routed.frames j event' index position running number hmem
        exact ⟨old published, types index _ hindex, called⟩
    case finished =>
      intro number publication h hnot
      have hnumber : number ≠ s.published.length ∧ number ∉ s.numbers := by
        constructor
        · rintro rfl
          exact hnot List.mem_cons_self
        · exact fun hin => hnot (List.mem_cons_of_mem _ hin)
      obtain h | ⟨rfl, -⟩ := getElem?_concat_cases h
      · exact routed.finished number publication h hnumber.2
      · exact absurd rfl hnumber.1

theorem Effect.getElem?_types (effect : Effect grow s operation t) {index : Nat} {type : τ}
    (h : s.types[index]? = some type) : t.types[index]? = some type := by
  cases effect with
  | subscribe type' hstorage hfree => exact getElem?_eventIndex_of_some h type'
  | _ => exact h

omit [DecidableEq τ] in
/-- A storage that publishes is there, and counts. -/
theorem Counted.storage_of_publishing (counted : s.Counted) {i : Nat} (h : s.publishing i ≠ 0) :
    ∃ storage, s.storages[i]? = some storage ∧ storage.publishCount ≠ 0 := by
  obtain ⟨frame, hmem, hpublishes⟩ := List.countP_pos_iff.mp (Nat.pos_of_ne_zero h)
  have hstorage := List.getElem?_eq_getElem (counted.frames frame hmem i hpublishes)
  exact ⟨_, hstorage, counted.count i _ hstorage ▸ h⟩

/-- An operation does nothing to the calls that are running: it would have thrown. -/
theorem Effect.routed (effect : Effect grow s operation t) (routed : s.Routed)
    (counted : (t.record operation (.ok ())).Counted) :
    (t.record operation (.ok ())).Routed := by
  have hrecord : t.stack = s.stack ∧ t.published = s.published ∧ t.called = s.called ∧
      t.held = s.held ∧ t.operations = s.operations := by
    cases effect <;> exact ⟨rfl, rfl, rfl, rfl, rfl⟩
  obtain ⟨hstack, hpublished, hcalled, hheld, hoperations⟩ := hrecord
  refine routed.keep (effect.consistent routed.consistent) counted hstack hpublished hcalled
    (fun index type => effect.getElem?_types) fun i hi => ?_
  obtain ⟨storage, hstorage, hcount⟩ := routed.counted.storage_of_publishing hi
  simp only [record, hheld, hoperations]
  exact effect.held_of_publishing routed.consistent.lengths hstorage hcount

theorem Consistent.create (consistent : s.Consistent) : s.create.Consistent where
  nodup := consistent.nodup
  lengths := by simp only [Objects.create, List.length_append, consistent.lengths,
    List.length_singleton]
  represents i storage h := by
    obtain h | ⟨rfl, rfl⟩ := getElem?_concat_cases h
    · have hlt := (List.getElem?_eq_some_iff.mp h).1
      simp only [Objects.create]
      rw [Holdings.of_append_lt (by rwa [consistent.lengths])]
      exact consistent.represents i storage h
    · simp only [Objects.create]
      rw [Holdings.of_append_length consistent.lengths.symm]
      exact .empty _ _ rfl

theorem Routed.create (routed : s.Routed) (counted : s.create.Counted) : s.create.Routed := by
  refine routed.keep routed.consistent.create counted rfl rfl rfl (fun _ _ h => h) fun i hi => ?_
  obtain ⟨storage, hstorage, -⟩ := routed.counted.storage_of_publishing hi
  have hlt := (List.getElem?_eq_some_iff.mp hstorage).1
  exact Holdings.of_append_lt (by rwa [routed.consistent.lengths])

/-- A change of the buses alone. -/
theorem Routed.setBuses (routed : s.Routed) {buses : List (AsyncEventBus τ α)}
    (counted : Counted { s with buses }) : Routed { s with buses } := by
  refine routed.keep ?_ counted rfl rfl rfl (fun _ _ h => h) fun _ _ => rfl
  exact ⟨routed.consistent.nodup, routed.consistent.lengths, routed.consistent.represents⟩

omit [DecidableEq τ] in
/-- One callback is called. -/
theorem callsOf_called (s : Objects τ α) (number : Nat) (call : Call) (stack : List (Frame τ α)) :
    callsOf { s with stack, called := s.called ++ [call] } number =
      s.callsOf number ++ if call.number = number then [call.callback] else [] :=
  map_filter_concat s.called call Call.callback (·.number = number)

/-- The calls below the innermost one are about other publications. -/
theorem Routed.below (routed : s.Routed) {i : Nat} {event : Event τ α}
    {index position number : Nat} {running : Bool} {rest : List (Frame τ α)}
    (hstack : s.stack = .publish i event index position running number :: rest) :
    s.Delivering i event index position running number ∧ s.numbers = number ::
      rest.filterMap Frame.number? ∧ (rest.filterMap Frame.number?).Nodup ∧
      ∀ j event' index' position' running' number',
        .publish j event' index' position' running' number' ∈ rest →
        s.Delivering j event' index' position' running' number' ∧ number' ≠ number := by
  have hnumbers : s.numbers = number :: rest.filterMap Frame.number? := by
    rw [Objects.numbers, hstack]
    rfl
  obtain ⟨hfresh, hnodup⟩ := List.nodup_cons.mp (hnumbers ▸ routed.numbers)
  refine ⟨routed.frames _ _ _ _ _ _ (hstack ▸ List.mem_cons_self), hnumbers, hnodup, ?_⟩
  intro j event' index' position' running' number' hmem
  refine ⟨routed.frames _ _ _ _ _ _ (hstack ▸ List.mem_cons_of_mem _ hmem), ?_⟩
  rintro rfl
  exact hfresh (List.mem_filterMap.mpr ⟨_, hmem, rfl⟩)

/-- All callbacks have been called, and the loop ends. -/
theorem Routed.ends (routed : s.Routed) {i : Nat} {event : Event τ α}
    {index position number : Nat} {rest : List (Frame τ α)} {storage : SubscriberStorage}
    (hstack : s.stack = .publish i event index position false number :: rest)
    (hstorage : s.storages[i]? = some storage)
    (hend : (storage.callbacksAt index)[position]? = none)
    (counted : Counted { s with
      storages := s.storages.set i { storage with publishCount := storage.publishCount - 1 }
      stack := rest }) :
    Routed { s with
      storages := s.storages.set i { storage with publishCount := storage.publishCount - 1 }
      stack := rest } := by
  obtain ⟨head, hnumbers, hnodup, below⟩ := routed.below hstack
  have consistent := routed.consistent
  rw [(consistent.represents i storage hstorage).lists index event.type head.index] at hend
  refine ⟨?consistent, counted, hnodup, ?frames, ?finished, routed.once, routed.recorded⟩
  case consistent => exact consistent.setStorage hstorage rfl rfl rfl rfl rfl
  case frames =>
    intro j event' index' position' running' number' hmem
    obtain ⟨⟨published, hindex, called⟩, -⟩ := below _ _ _ _ _ _ hmem
    exact ⟨published, hindex, called⟩
  case finished =>
    intro number' publication h hnot
    by_cases heq : number' = number
    · subst heq
      obtain rfl := Option.some.inj (head.published.symm.trans h)
      refine head.called.trans ?_
      exact List.take_of_length_le (List.getElem?_eq_none_iff.mp hend)
    · apply routed.finished number' publication h
      rw [hnumbers]
      exact fun hin => (List.mem_cons.mp hin).elim heq hnot

/-- The next callback is called. -/
theorem Routed.calls (routed : s.Routed) {i : Nat} {event : Event τ α}
    {index position number callback : Nat} {rest : List (Frame τ α)} {storage : SubscriberStorage}
    (hstack : s.stack = .publish i event index position false number :: rest)
    (hstorage : s.storages[i]? = some storage)
    (hcallback : (storage.callbacksAt index)[position]? = some callback)
    (counted : Counted { s with
      stack := .publish i event index position true number :: rest
      called := s.called ++ [{ number, callback }] }) :
    Routed { s with
      stack := .publish i event index position true number :: rest
      called := s.called ++ [{ number, callback }] } := by
  obtain ⟨head, hnumbers, hnodup, below⟩ := routed.below hstack
  have consistent := routed.consistent
  rw [(consistent.represents i storage hstorage).lists index event.type head.index] at hcallback
  have hcalled := fun n => callsOf_called s n { number, callback }
    (.publish i event index position true number :: rest)
  refine ⟨?consistent, counted, ?numbers, ?frames, ?finished, routed.once, ?recorded⟩
  case consistent => exact ⟨consistent.nodup, consistent.lengths, consistent.represents⟩
  case numbers =>
    have hall := routed.numbers
    rwa [hnumbers] at hall
  case frames =>
    intro j event' index' position' running' number' hmem
    obtain hmem | hmem := List.mem_cons.mp hmem
    · cases hmem
      refine ⟨head.published, head.index, ?_⟩
      rw [hcalled, if_pos rfl, head.called]
      show List.take position _ ++ [callback] = List.take (position + 1) _
      rw [List.take_add_one, hcallback]
      rfl
    · obtain ⟨⟨published, hindex, called⟩, hne⟩ := below _ _ _ _ _ _ hmem
      refine ⟨published, hindex, ?_⟩
      rw [hcalled, if_neg hne.symm, List.append_nil]
      exact called
  case finished =>
    intro number' publication h hnot
    have hne : number ≠ number' := by
      rintro rfl
      exact hnot List.mem_cons_self
    rw [hcalled, if_neg hne, List.append_nil]
    exact routed.finished number' publication h (hnumbers ▸ hnot)
  case recorded =>
    intro call hmem
    obtain hmem | hmem := List.mem_append.mp hmem
    · exact routed.recorded call hmem
    · obtain rfl := List.mem_singleton.mp hmem
      exact (List.getElem?_eq_some_iff.mp head.published).1

theorem Changes.routed (changes : Changes grow s t) (routed : s.Routed) : t.Routed := by
  have counted := changes.counted routed.counted
  cases changes with
  | create => exact routed.create counted
  | createBus =>
    have created : Changes grow s s.create := .create
    exact (routed.create (created.counted routed.counted)).setBuses counted
  | throws => exact routed
  | operation effect => exact effect.routed routed counted
  | clearBus hbus effect =>
    have cleared := effect.routed routed (Changes.operation effect |>.counted routed.counted)
    exact cleared.setBuses counted
  | publish huser starts => exact starts.routed routed counted
  | enqueue event hbus => exact routed.setBuses counted
  | dispatch b huser =>
    apply routed.restack counted
    · rfl
    · intro i event index position running number hmem
      obtain hmem | hmem := List.mem_cons.mp hmem
      · cases hmem
      · exact routed.frames i event index position running number hmem
  | returns hstack =>
    obtain ⟨head, hnumbers, -, below⟩ := routed.below hstack
    apply routed.restack counted
    · exact hnumbers.symm
    · intro j event' index' position' running' number' hmem
      obtain hmem | hmem := List.mem_cons.mp hmem
      · cases hmem
        exact ⟨head.published, head.index, head.called⟩
      · exact (below _ _ _ _ _ _ hmem).1
  | drained hstack =>
    apply routed.restack counted
    · rw [Objects.numbers, hstack]
      rfl
    · intro i event index position running number hmem
      exact routed.frames _ _ _ _ _ _ (hstack ▸ List.mem_cons_of_mem _ hmem)
  | @delivers b bus rest event eventPublishers _ hstack hbus hqueue starts =>
    have taken : Routed { s with buses := s.buses.set b { bus with eventPublishers } } :=
      routed.setBuses (routed.counted.setBus (.of_eq rfl) rfl hbus eventPublishers rfl)
    exact starts.routed taken counted
  | ends hstack hstorage hend => exact routed.ends hstack hstorage hend counted
  | calls hstack hstorage hcallback => exact routed.calls hstack hstorage hcallback counted

theorem invariant_routed : (step (τ := τ) (α := α) grow).Invariant Routed :=
  fun _ _ _ routed hstep => (changes_of_step hstep).routed routed

theorem Routed.callsOf_prefix (routed : s.Routed) {number : Nat} {publication : Publication τ α}
    (h : s.published[number]? = some publication) : s.callsOf number <+: publication.due := by
  by_cases hin : number ∈ s.numbers
  · obtain ⟨frame, hmem, hnumber⟩ := List.mem_filterMap.mp hin
    cases frame with
    | dispatch b => cases hnumber
    | publish i event index position running number' =>
      obtain rfl := Option.some.inj hnumber
      have delivering := routed.frames i event index position running number' hmem
      obtain rfl := Option.some.inj (delivering.published.symm.trans h)
      rw [delivering.called]
      exact List.take_prefix _ _
  · exact routed.finished number publication h hin ▸ List.prefix_rfl

/-- A subscription adds its callback at the index of its type, and changes no other list of
any storage, however the table has to grow. -/
theorem Consistent.lists_of_subscribe (consistent : s.Consistent) {i : Nat} {type : τ}
    (h : s.attempt grow (.subscribe i type false) = some (.ok (), t)) {k : Nat}
    {storage after : SubscriberStorage} (hstorage : s.storages[k]? = some storage)
    (hafter : t.storages[k]? = some after) (index : Nat) :
    after.callbacksAt index = storage.callbacksAt index ++
      if k = i ∧ t.types[index]? = some type then [s.operations] else [] := by
  obtain ⟨e, he, -⟩ | ⟨-, effect⟩ := attempt_cases h
  · cases he
  · cases effect with
    | @subscribe _ old _ hold hfree =>
      have hindex := getElem?_eventIndex s.types type
      have hiff : (eventIndex s.types type).1 = index ↔
          (eventIndex s.types type).2[index]? = some type := by
        constructor
        · rintro rfl
          exact hindex
        · intro hsame
          exact (List.getElem?_inj (List.getElem?_eq_some_iff.mp hindex).1
            (nodup_eventIndex consistent.nodup type)).mp (hindex.trans hsame.symm)
      obtain ⟨rfl, rfl⟩ | ⟨hne, hsame⟩ := getElem?_set_cases hafter
      · obtain rfl := Option.some.inj (hold.symm.trans hstorage)
        rw [SubscriberStorage.callbacksAt_added]
        simp only [hiff, true_and]
      · obtain rfl := Option.some.inj (hstorage.symm.trans hsame)
        rw [if_neg fun h => hne h.1, List.append_nil]

/-- Every publication calls the callbacks its storage held for the type when it began, each
once and in their order, and no others. Each table has what is held at the index of each
type, and a subscription that makes a table grow keeps all the lists there are. -/
theorem routing_exact {actions : List (Action τ α)} (run : (step grow).exec {} actions = some s) :
    (∀ (number : Nat) publication, s.published[number]? = some publication →
        publication.due.Nodup ∧ s.callsOf number <+: publication.due ∧
          (number ∉ s.numbers → s.callsOf number = publication.due)) ∧
      (∀ call ∈ s.called, call.number < s.published.length) ∧
      (∀ i event t, s.publish i event = some t → t.published = s.published ++
        [{ storage := i, event, due := callbacksFor (s.held.of i) event.type }]) ∧
      (∀ (i : Nat) storage, s.storages[i]? = some storage → ∀ (index : Nat) type,
        s.types[index]? = some type → storage.callbacksAt index = callbacksFor (s.held.of i) type) ∧
      (∀ i type t, s.attempt grow (.subscribe i type false) = some (.ok (), t) →
        ∀ (k : Nat) storage after, s.storages[k]? = some storage → t.storages[k]? = some after →
          ∀ index, after.callbacksAt index = storage.callbacksAt index ++
            if k = i ∧ t.types[index]? = some type then [s.operations] else []) := by
  have routed : s.Routed := invariant_routed.exec routed_initial run
  refine ⟨?calls, routed.recorded, ?publish, ?tables, ?subscribe⟩
  case calls =>
    intro number publication h
    exact ⟨routed.once publication (List.mem_of_getElem? h), routed.callsOf_prefix h,
      routed.finished number publication h⟩
  case publish =>
    intro i event t h
    cases starts_of_publish h <;> rfl
  case tables =>
    intro i storage hstorage index type hindex
    exact (routed.consistent.represents i storage hstorage).lists index type hindex
  case subscribe =>
    intro i type t h k storage after hstorage hafter index
    exact routed.consistent.lists_of_subscribe h hstorage hafter index

/-- The second storage gets the table of the first, which has grown past an index that only
the second had used. -/
def moved : List (Action Nat Nat) :=
  [.create, .create, .attempt (.subscribe 0 5 false), .attempt (.subscribe 1 6 false),
    .attempt (.subscribe 0 7 false), .attempt (.subscribe 0 5 false), .attempt (.moveAssign 1 0),
    .publish 1 ⟨5, 9⟩, .loop, .publish 1 ⟨7, 8⟩, .loop, .returns, .loop, .returns, .loop, .returns,
    .loop, .publish 1 ⟨6, 4⟩, .loop, .publish 0 ⟨5, 3⟩]

theorem routing_exact_after_move :
    ∃ s publication, (step fun _ n => n).exec {} moved = some s ∧
      s.published[0]? = some publication ∧ publication.due = [0, 3] ∧
      s.callsOf 0 = publication.due ∧ s.called.map Call.callback = [0, 2, 3] := by
  obtain ⟨s, publication, run, hpublished, hdue, hdone, hcalled⟩ :
      ∃ s publication, (step fun _ n => n).exec {} moved = some s ∧
        s.published[0]? = some publication ∧ publication.due = [0, 3] ∧ s.numbers = [] ∧
        s.called.map Call.callback = [0, 2, 3] := ⟨_, _, rfl, rfl, rfl, rfl, rfl⟩
  obtain ⟨calls, -⟩ := routing_exact run
  have hall := (calls 0 publication hpublished).2.2 (hdone ▸ List.not_mem_nil)
  exact ⟨s, publication, run, hpublished, hdue, hall, hcalled⟩

end Objects

end Stalker2D.EventBus.Detail

import Stalker2D.Machine.Lists
import Stalker2D.Shared.SubscribersStorage

/-!
# A storage is frozen while it publishes

The count of a storage is the number of its calls of `publish` on the stack, so it is not
zero while one of its callbacks runs, and then every operation on it throws before it has
touched anything. `Changes` lists what a step can do; later invariants start from it.
-/

namespace Stalker2D.EventBus.Detail

variable {τ α : Type} [DecidableEq τ]

/-- The error of `throwIfPublishing`. -/
def forbidden : Exception := .logicError "EventBus modification during publish is forbidden"

namespace SubscriberStorage

variable {storage : SubscriberStorage}

theorem throwIfPublishing_of_free (h : storage.publishCount = 0) :
    storage.throwIfPublishing = .ok () := by
  rw [throwIfPublishing, if_neg (not_not_intro h)]

theorem throwIfPublishing_of_publishing (h : storage.publishCount ≠ 0) :
    storage.throwIfPublishing = .error forbidden := by
  rw [throwIfPublishing, if_pos h]
  rfl

@[simp] theorem publishCount_reserveAndResizeIfNecessary (grow : Nat → Nat → Nat)
    (storage : SubscriberStorage) (index : Nat) :
    (storage.reserveAndResizeIfNecessary grow index).publishCount = storage.publishCount := by
  rw [reserveAndResizeIfNecessary]
  split <;> rfl

/-- A storage after its callback was subscribed at an index. -/
def added (grow : Nat → Nat → Nat) (storage : SubscriberStorage) (index callback : Nat) :
    SubscriberStorage :=
  { storage.reserveAndResizeIfNecessary grow index with
    callbacks := (storage.reserveAndResizeIfNecessary grow index).callbacks.modify index
      (· ++ [callback]) }

@[simp] theorem publishCount_added (grow : Nat → Nat → Nat) (storage : SubscriberStorage)
    (index callback : Nat) :
    (storage.added grow index callback).publishCount = storage.publishCount :=
  publishCount_reserveAndResizeIfNecessary grow storage index

end SubscriberStorage

namespace Operation

/-- The storages whose lists an operation is to change. -/
def Involves : Operation τ → Nat → Prop
  | .subscribe storage _ _, i => i = storage
  | .clear storage, i => i = storage
  | .moveConstruct other, i => i = other
  | .moveAssign storage other, i => storage ≠ other ∧ (i = storage ∨ i = other)

/-- The outcome of an operation that nothing forbids. -/
def answer : Operation τ → Except Exception Unit
  | .subscribe _ _ true => .error (.invalidArgument "callback is empty")
  | _ => .ok ()

end Operation

namespace Objects

variable {grow : Nat → Nat → Nat} {s t : Objects τ α} {operation : Operation τ}
  {outcome : Except Exception Unit}

/-- What an operation does that does not throw. -/
inductive Effect (grow : Nat → Nat → Nat) (s : Objects τ α) : Operation τ → Objects τ α → Prop
  | subscribe {i : Nat} {storage : SubscriberStorage} (type : τ)
      (hstorage : s.storages[i]? = some storage) (hfree : storage.publishCount = 0) :
      Effect grow s (.subscribe i type false)
        { s with
          storages := s.storages.set i
            (storage.added grow (eventIndex s.types type).1 s.operations)
          types := (eventIndex s.types type).2 }
  | clear {i : Nat} {storage : SubscriberStorage} (hstorage : s.storages[i]? = some storage)
      (hfree : storage.publishCount = 0) :
      Effect grow s (.clear i)
        { s with
          storages := s.storages.set i { storage with callbacks := storage.callbacks.clear } }
  | moveConstruct {i : Nat} {other : SubscriberStorage} (hother : s.storages[i]? = some other)
      (hfree : other.publishCount = 0) :
      Effect grow s (.moveConstruct i)
        { s with
          storages := s.storages.set i { other with callbacks := .empty } ++
            [{ callbacks := other.callbacks }] }
  | selfAssign {i : Nat} {storage : SubscriberStorage} (hstorage : s.storages[i]? = some storage) :
      Effect grow s (.moveAssign i i) s
  | moveAssign {i j : Nat} {storage other : SubscriberStorage} (hne : i ≠ j)
      (hstorage : s.storages[i]? = some storage) (hother : s.storages[j]? = some other)
      (hfree : storage.publishCount = 0) (hfree' : other.publishCount = 0) :
      Effect grow s (.moveAssign i j)
        { s with
          storages := (s.storages.set i { storage with callbacks := other.callbacks }).set j
            { other with callbacks := .empty } }

/-- An operation on a storage that publishes throws and leaves everything as it was. -/
theorem attempt_of_publishing (h : s.attempt grow operation = some (outcome, t)) {i : Nat}
    (hinvolves : operation.Involves i) {storage : SubscriberStorage}
    (hstorage : s.storages[i]? = some storage) (hcount : storage.publishCount ≠ 0) :
    outcome = .error forbidden ∧ t = s := by
  have hthrow := SubscriberStorage.throwIfPublishing_of_publishing hcount
  have hsame := set_of_getElem? hstorage
  cases operation with
  | subscribe j type empty =>
    obtain rfl : i = j := hinvolves
    simp only [attempt, hstorage, Option.map_some, SubscriberStorage.subscribe, hthrow, hsame,
      Option.some.injEq, Prod.mk.injEq] at h
    exact ⟨h.1.symm, h.2.symm⟩
  | clear j =>
    obtain rfl : i = j := hinvolves
    simp only [attempt, hstorage, Option.map_some, SubscriberStorage.clear, hthrow, hsame,
      Option.some.injEq, Prod.mk.injEq] at h
    exact ⟨h.1.symm, h.2.symm⟩
  | moveConstruct j =>
    obtain rfl : i = j := hinvolves
    simp only [attempt, hstorage, Option.map_some, SubscriberStorage.moveConstruct, hthrow, hsame,
      Option.some.injEq, Prod.mk.injEq] at h
    exact ⟨h.1.symm, h.2.symm⟩
  | moveAssign j k =>
    obtain ⟨hne, rfl | rfl⟩ := hinvolves
    · cases hother : s.storages[k]? with
      | none => simp [attempt, hne, hstorage, hother] at h
      | some other =>
        simp only [attempt, if_neg hne, hstorage, hother, SubscriberStorage.moveAssign, hthrow,
          hsame, set_of_getElem? hother, Option.some.injEq, Prod.mk.injEq] at h
        exact ⟨h.1.symm, h.2.symm⟩
    · cases htarget : s.storages[j]? with
      | none => simp [attempt, hne, htarget] at h
      | some target =>
        by_cases hfree : target.publishCount = 0
        · simp only [attempt, if_neg hne, htarget, hstorage, SubscriberStorage.moveAssign,
            SubscriberStorage.throwIfPublishing_of_free hfree, hthrow, hsame,
            set_of_getElem? htarget, Option.some.injEq, Prod.mk.injEq] at h
          exact ⟨h.1.symm, h.2.symm⟩
        · simp only [attempt, if_neg hne, htarget, hstorage, SubscriberStorage.moveAssign,
            SubscriberStorage.throwIfPublishing_of_publishing hfree, hsame,
            set_of_getElem? htarget, Option.some.injEq, Prod.mk.injEq] at h
          exact ⟨h.1.symm, h.2.symm⟩

/-- An operation on storages that do not publish has its own outcome; one that throws leaves
everything as it was. -/
theorem attempt_of_free (h : s.attempt grow operation = some (outcome, t))
    (hfree : ∀ i storage, operation.Involves i → s.storages[i]? = some storage →
      storage.publishCount = 0) :
    outcome = operation.answer ∧
      ((∃ e, outcome = .error e ∧ t = s) ∨ outcome = .ok () ∧ Effect grow s operation t) := by
  cases operation with
  | subscribe i type empty =>
    obtain ⟨storage, hstorage, h⟩ := Option.map_eq_some_iff.mp h
    have hcount := hfree i storage rfl hstorage
    have hgo := SubscriberStorage.throwIfPublishing_of_free hcount
    cases empty with
    | true =>
      simp only [SubscriberStorage.subscribe, hgo, if_true, Prod.mk.injEq,
        set_of_getElem? hstorage] at h
      obtain ⟨rfl, rfl⟩ := h
      exact ⟨rfl, .inl ⟨_, rfl, rfl⟩⟩
    | false =>
      simp only [SubscriberStorage.subscribe, hgo, Bool.false_eq_true, if_false,
        Prod.mk.injEq] at h
      obtain ⟨rfl, rfl⟩ := h
      exact ⟨rfl, .inr ⟨rfl, .subscribe type hstorage hcount⟩⟩
  | clear i =>
    obtain ⟨storage, hstorage, h⟩ := Option.map_eq_some_iff.mp h
    have hcount := hfree i storage rfl hstorage
    simp only [SubscriberStorage.clear, SubscriberStorage.throwIfPublishing_of_free hcount,
      Prod.mk.injEq] at h
    obtain ⟨rfl, rfl⟩ := h
    exact ⟨rfl, .inr ⟨rfl, .clear hstorage hcount⟩⟩
  | moveConstruct i =>
    obtain ⟨other, hother, h⟩ := Option.map_eq_some_iff.mp h
    have hcount := hfree i other rfl hother
    simp only [SubscriberStorage.moveConstruct, SubscriberStorage.throwIfPublishing_of_free hcount,
      Prod.mk.injEq] at h
    obtain ⟨rfl, rfl⟩ := h
    exact ⟨rfl, .inr ⟨rfl, .moveConstruct hother hcount⟩⟩
  | moveAssign i j =>
    simp only [attempt] at h
    split at h
    next heq =>
      subst heq
      obtain ⟨storage, hstorage, h⟩ := Option.map_eq_some_iff.mp h
      obtain ⟨rfl, rfl⟩ := Prod.mk.inj h
      exact ⟨rfl, .inr ⟨rfl, .selfAssign hstorage⟩⟩
    next hne =>
      split at h
      next storage other hstorage hother =>
        have hcount := hfree i storage ⟨hne, .inl rfl⟩ hstorage
        have hcount' := hfree j other ⟨hne, .inr rfl⟩ hother
        simp only [SubscriberStorage.moveAssign, SubscriberStorage.throwIfPublishing_of_free hcount,
          SubscriberStorage.throwIfPublishing_of_free hcount', Option.some.injEq,
          Prod.mk.injEq] at h
        obtain ⟨rfl, rfl⟩ := h
        exact ⟨rfl, .inr ⟨rfl, .moveAssign hne hstorage hother hcount hcount'⟩⟩
      next => cases h

/-- Whatever an operation does, it throws and changes nothing, or has its effect. -/
theorem attempt_cases (h : s.attempt grow operation = some (outcome, t)) :
    (∃ e, outcome = .error e ∧ t = s) ∨ outcome = .ok () ∧ Effect grow s operation t := by
  by_cases hfree : ∀ i storage, operation.Involves i → s.storages[i]? = some storage →
      storage.publishCount = 0
  · exact (attempt_of_free h hfree).2
  · push Not at hfree
    obtain ⟨i, storage, hinvolves, hstorage, hcount⟩ := hfree
    exact .inl ⟨forbidden, attempt_of_publishing h hinvolves hstorage hcount⟩

/-- `AsyncEventBus::clear` is `clear` on its storage, and on its queue if that does not throw. -/
theorem clearBus_cases {b : Nat} {bus : AsyncEventBus τ α} (hbus : s.buses[b]? = some bus)
    (h : s.clearBus b = some (outcome, t)) :
    ∃ storage, s.storages[bus.storage]? = some storage ∧
      ((storage.publishCount ≠ 0 ∧ outcome = .error forbidden ∧ t = s) ∨
        storage.publishCount = 0 ∧ outcome = .ok () ∧
          ∃ cleared, Effect grow s (.clear bus.storage) cleared ∧
            t = { cleared with buses := s.buses.set b { bus with eventPublishers := [] } }) := by
  simp only [clearBus, hbus, Option.bind_some] at h
  obtain ⟨storage, hstorage, h⟩ := Option.map_eq_some_iff.mp h
  refine ⟨storage, hstorage, ?_⟩
  by_cases hcount : storage.publishCount = 0
  · simp only [SubscriberStorage.clear, SubscriberStorage.throwIfPublishing_of_free hcount,
      Prod.mk.injEq] at h
    obtain ⟨rfl, rfl⟩ := h
    exact .inr ⟨hcount, rfl, _, .clear hstorage hcount, rfl⟩
  · simp only [SubscriberStorage.clear, SubscriberStorage.throwIfPublishing_of_publishing hcount,
      Prod.mk.injEq, set_of_getElem? hstorage] at h
    obtain ⟨rfl, rfl⟩ := h
    exact .inl ⟨hcount, rfl, rfl⟩

/-- `publish` has nobody to call, or is counted and at the head of its loop. -/
inductive Starts (s : Objects τ α) (i : Nat) (event : Event τ α) : Objects τ α → Prop
  | nobody {storage : SubscriberStorage} (hstorage : s.storages[i]? = some storage)
      (hbeyond : storage.callbacks.size ≤ (eventIndex s.types event.type).1) :
      Starts s i event
        { s with
          types := (eventIndex s.types event.type).2
          published := s.published ++
            [{ storage := i, event, due := callbacksFor (s.held.of i) event.type }] }
  | calls {storage : SubscriberStorage} (hstorage : s.storages[i]? = some storage)
      (hin : (eventIndex s.types event.type).1 < storage.callbacks.size) :
      Starts s i event
        { s with
          types := (eventIndex s.types event.type).2
          published := s.published ++
            [{ storage := i, event, due := callbacksFor (s.held.of i) event.type }]
          storages := s.storages.set i { storage with publishCount := storage.publishCount + 1 }
          stack := .publish i event (eventIndex s.types event.type).1 0 false s.published.length ::
            s.stack }

theorem starts_of_publish {i : Nat} {event : Event τ α} (h : s.publish i event = some t) :
    s.Starts i event t := by
  obtain ⟨storage, hstorage, rfl⟩ := Option.map_eq_some_iff.mp h
  by_cases hbeyond : storage.callbacks.size ≤ (eventIndex s.types event.type).1
  · have hstarts : s.Starts i event _ := .nobody hstorage hbeyond
    simpa only [if_pos hbeyond] using hstarts
  · have hstarts : s.Starts i event _ := .calls hstorage (Nat.lt_of_not_le hbeyond)
    simpa only [if_neg hbeyond] using hstarts

/-- Everything a step can do. -/
inductive Changes (grow : Nat → Nat → Nat) (s : Objects τ α) : Objects τ α → Prop
  | create : Changes grow s s.create
  | createBus :
      Changes grow s { s.create with buses := s.buses ++ [{ storage := s.storages.length }] }
  | throws : Changes grow s s
  | operation {operation : Operation τ} {t : Objects τ α} (effect : Effect grow s operation t) :
      Changes grow s (t.record operation (.ok ()))
  | clearBus {b : Nat} {bus : AsyncEventBus τ α} {t : Objects τ α}
      (hbus : s.buses[b]? = some bus) (effect : Effect grow s (.clear bus.storage) t) :
      Changes grow s
        { t.record (.clear bus.storage) (.ok ()) with
          buses := s.buses.set b { bus with eventPublishers := [] } }
  | publish {i : Nat} {event : Event τ α} {t : Objects τ α} (huser : s.userCode = true)
      (starts : s.Starts i event t) : Changes grow s t
  | enqueue {b : Nat} {bus : AsyncEventBus τ α} (event : Event τ α)
      (hbus : s.buses[b]? = some bus) :
      Changes grow s
        { s with
          buses := s.buses.set b { bus with eventPublishers := bus.eventPublishers ++ [event] } }
  | dispatch (b : Nat) (huser : s.userCode = true) :
      Changes grow s { s with stack := .dispatch b :: s.stack }
  | returns {i : Nat} {event : Event τ α} {index position number : Nat} {rest : List (Frame τ α)}
      (hstack : s.stack = .publish i event index position true number :: rest) :
      Changes grow s
        { s with stack := .publish i event index (position + 1) false number :: rest }
  | drained {b : Nat} {rest : List (Frame τ α)} (hstack : s.stack = .dispatch b :: rest) :
      Changes grow s { s with stack := rest }
  | delivers {b : Nat} {bus : AsyncEventBus τ α} {rest : List (Frame τ α)} {event : Event τ α}
      {eventPublishers : List (Event τ α)} {t : Objects τ α}
      (hstack : s.stack = .dispatch b :: rest) (hbus : s.buses[b]? = some bus)
      (hqueue : bus.eventPublishers = event :: eventPublishers)
      (starts : { s with buses := s.buses.set b { bus with eventPublishers } }.Starts
        bus.storage event t) : Changes grow s t
  | ends {i : Nat} {event : Event τ α} {index position number : Nat} {rest : List (Frame τ α)}
      {storage : SubscriberStorage}
      (hstack : s.stack = .publish i event index position false number :: rest)
      (hstorage : s.storages[i]? = some storage)
      (hend : (storage.callbacksAt index)[position]? = none) :
      Changes grow s
        { s with
          storages := s.storages.set i { storage with publishCount := storage.publishCount - 1 }
          stack := rest }
  | calls {i : Nat} {event : Event τ α} {index position number callback : Nat}
      {rest : List (Frame τ α)} {storage : SubscriberStorage}
      (hstack : s.stack = .publish i event index position false number :: rest)
      (hstorage : s.storages[i]? = some storage)
      (hcallback : (storage.callbacksAt index)[position]? = some callback) :
      Changes grow s
        { s with
          stack := .publish i event index position true number :: rest
          called := s.called ++ [{ number, callback }] }

theorem changes_of_act {action : Action τ α} (huser : s.userCode = true)
    (h : s.act grow action = some t) : Changes grow s t := by
  cases action with
  | create => exact Option.some.inj h ▸ .create
  | createBus => exact Option.some.inj h ▸ .createBus
  | attempt operation =>
    obtain ⟨⟨outcome, next⟩, hattempt, rfl⟩ := Option.map_eq_some_iff.mp h
    obtain ⟨e, rfl, rfl⟩ | ⟨rfl, effect⟩ := attempt_cases hattempt
    · exact .throws
    · exact .operation effect
  | clearBus b =>
    obtain ⟨bus, hbus, h⟩ := Option.bind_eq_some_iff.mp h
    obtain ⟨⟨outcome, next⟩, hclear, rfl⟩ := Option.map_eq_some_iff.mp h
    obtain ⟨storage, -, ⟨-, rfl, rfl⟩ | ⟨-, rfl, cleared, effect, rfl⟩⟩ :=
      @clearBus_cases _ _ _ grow _ _ _ _ _ hbus hclear
    · exact .throws
    · exact .clearBus hbus effect
  | publish i event => exact .publish huser (starts_of_publish h)
  | enqueue b event =>
    obtain ⟨bus, hbus, rfl⟩ := Option.map_eq_some_iff.mp h
    exact .enqueue event hbus
  | dispatch b =>
    obtain ⟨bus, -, rfl⟩ := Option.map_eq_some_iff.mp h
    exact .dispatch b huser
  | returns => cases h
  | loop => cases h

theorem changes_of_step {action : Action τ α} (hstep : step grow s action = some t) :
    Changes grow s t := by
  cases action with
  | returns =>
    simp only [step] at hstep
    split at hstep
    next hstack => exact Option.some.inj hstep ▸ .returns hstack
    next => cases hstep
  | loop =>
    simp only [step] at hstep
    split at hstep
    next b rest hstack =>
      obtain ⟨bus, hbus, h⟩ := Option.bind_eq_some_iff.mp hstep
      split at h
      next => exact Option.some.inj h ▸ .drained hstack
      next event eventPublishers hqueue =>
        exact .delivers hstack hbus hqueue (starts_of_publish h)
    next i event index position number rest hstack =>
      obtain ⟨storage, hstorage, rfl⟩ := Option.map_eq_some_iff.mp hstep
      split
      next hend => exact .ends hstack hstorage hend
      next callback hcallback => exact .calls hstack hstorage hcallback
    next => cases hstep
  | _ =>
    simp only [step, Option.ite_none_right_eq_some] at hstep
    exact changes_of_act hstep.1 hstep.2

end Objects

namespace Frame

/-- A call of `publish` on this storage. -/
def publishes (i : Nat) : Frame τ α → Bool
  | .dispatch _ => false
  | .publish j _ _ _ _ _ => decide (j = i)

/-- A call that waits for a callback or for a call it has made. -/
def waits : Frame τ α → Bool
  | .dispatch _ => true
  | .publish _ _ _ _ running _ => running

end Frame

namespace Objects

variable {grow : Nat → Nat → Nat} {s t : Objects τ α} {operation : Operation τ}
  {outcome : Except Exception Unit}

/-- The calls of `publish` on a storage that have not returned. -/
def publishing (s : Objects τ α) (i : Nat) : Nat := s.stack.countP (Frame.publishes i)

/-- A callback of the storage is running. -/
def Running (s : Objects τ α) (i : Nat) : Prop :=
  ∃ event index position number, .publish i event index position true number ∈ s.stack

/-- The counts are those of the stack. -/
structure Counted (s : Objects τ α) : Prop where
  count : ∀ i storage, s.storages[i]? = some storage → storage.publishCount = s.publishing i
  frames : ∀ frame ∈ s.stack, ∀ i, frame.publishes i = true → i < s.storages.length
  buses : ∀ bus ∈ s.buses, bus.storage < s.storages.length
  waiting : ∀ frame ∈ s.stack.tail, frame.waits = true

omit [DecidableEq τ] in
theorem counted_initial : Counted ({} : Objects τ α) where
  count _ _ h := by simp at h
  frames _ h := by cases h
  buses _ h := by cases h
  waiting _ h := by cases h

/-- The storages of `s` have kept their counts in `t`, and the others have never published. -/
structure KeepsCounts (s t : Objects τ α) : Prop where
  grows : s.storages.length ≤ t.storages.length
  counts : ∀ i storage, t.storages[i]? = some storage →
    (∃ old, s.storages[i]? = some old ∧ storage.publishCount = old.publishCount) ∨
      s.storages.length ≤ i ∧ storage.publishCount = 0

omit [DecidableEq τ] in
theorem KeepsCounts.refl (s : Objects τ α) : s.KeepsCounts s :=
  ⟨Nat.le_refl _, fun _ storage h => .inl ⟨storage, h, rfl⟩⟩

omit [DecidableEq τ] in
/-- One storage is replaced by one with the same count. -/
theorem KeepsCounts.set {i : Nat} {old new : SubscriberStorage}
    (hold : s.storages[i]? = some old) (hstorages : t.storages = s.storages.set i new)
    (hcount : new.publishCount = old.publishCount) : s.KeepsCounts t := by
  constructor
  case grows => simp only [hstorages, List.length_set, Nat.le_refl]
  case counts =>
    intro k storage h
    rw [hstorages] at h
    obtain ⟨rfl, rfl⟩ | ⟨-, h⟩ := getElem?_set_cases h
    · exact .inl ⟨old, hold, hcount⟩
    · exact .inl ⟨storage, h, rfl⟩

omit [DecidableEq τ] in
/-- A storage is added. -/
theorem KeepsCounts.add {new : SubscriberStorage} {u : Objects τ α} (h : s.KeepsCounts t)
    (hstorages : u.storages = t.storages ++ [new]) (hcount : new.publishCount = 0) :
    s.KeepsCounts u := by
  constructor
  case grows =>
    rw [hstorages, List.length_append]
    exact Nat.le_add_right_of_le h.grows
  case counts =>
    intro k storage hk
    rw [hstorages] at hk
    obtain hk | ⟨rfl, rfl⟩ := getElem?_concat_cases hk
    · exact h.counts k storage hk
    · exact .inr ⟨h.grows, hcount⟩

/-- No operation touches a count. -/
theorem Effect.keepsCounts (effect : Effect grow s operation t) :
    s.KeepsCounts t ∧ t.stack = s.stack ∧ t.buses = s.buses := by
  cases effect with
  | subscribe type hstorage hfree =>
    exact ⟨.set hstorage rfl (SubscriberStorage.publishCount_added ..), rfl, rfl⟩
  | clear hstorage hfree => exact ⟨.set hstorage rfl rfl, rfl, rfl⟩
  | @moveConstruct i other hother hfree =>
    have left : s.KeepsCounts
        { s with storages := s.storages.set i { other with callbacks := .empty } } :=
      .set hother rfl rfl
    exact ⟨left.add rfl rfl, rfl, rfl⟩
  | selfAssign hstorage => exact ⟨.refl s, rfl, rfl⟩
  | @moveAssign i j storage other hne hstorage hother hfree hfree' =>
    refine ⟨⟨?grows, ?counts⟩, rfl, rfl⟩
    case grows => simp only [List.length_set, Nat.le_refl]
    case counts =>
      intro k found hk
      obtain ⟨rfl, rfl⟩ | ⟨-, hk⟩ := getElem?_set_cases hk
      · exact .inl ⟨other, hother, rfl⟩
      · obtain ⟨rfl, rfl⟩ | ⟨-, hk⟩ := getElem?_set_cases hk
        · exact .inl ⟨storage, hstorage, rfl⟩
        · exact .inl ⟨found, hk, rfl⟩

omit [DecidableEq τ] in
theorem Counted.publishing_eq_zero (counted : s.Counted) {i : Nat}
    (h : s.storages.length ≤ i) : s.publishing i = 0 := by
  rw [publishing, List.countP_eq_zero]
  intro frame hmem hpublishes
  exact absurd (counted.frames frame hmem i hpublishes) (Nat.not_lt_of_le h)

omit [DecidableEq τ] in
/-- The calls on the stack stay the same. -/
theorem Counted.keep (counted : s.Counted) (keeps : s.KeepsCounts t) (hstack : t.stack = s.stack)
    (hbuses : ∀ bus ∈ t.buses, bus.storage < t.storages.length) : t.Counted where
  count i storage h := by
    rw [publishing, hstack]
    obtain ⟨old, hold, hcount⟩ | ⟨hnew, hcount⟩ := keeps.counts i storage h
    · exact hcount.trans (counted.count i old hold)
    · exact hcount.trans (counted.publishing_eq_zero hnew).symm
  frames frame hmem i hpublishes :=
    Nat.lt_of_lt_of_le (counted.frames frame (hstack ▸ hmem) i hpublishes) keeps.grows
  buses := hbuses
  waiting := by
    rw [hstack]
    exact counted.waiting

omit [DecidableEq τ] in
/-- The innermost call has changed, the storages have not. -/
theorem Counted.restack (counted : s.Counted) {stack : List (Frame τ α)}
    (hcount : ∀ i, stack.countP (Frame.publishes i) = s.publishing i)
    (hwaiting : ∀ frame ∈ stack.tail, frame.waits = true) : Counted { s with stack } where
  count i storage h := (counted.count i storage h).trans (hcount i).symm
  frames frame hmem i hpublishes := by
    have hpos : 0 < s.publishing i := by
      rw [← hcount, List.countP_pos_iff]
      exact ⟨frame, hmem, hpublishes⟩
    obtain ⟨old, hold, hsame⟩ := List.countP_pos_iff.mp hpos
    exact counted.frames old hold i hsame
  buses := counted.buses
  waiting := hwaiting

omit [DecidableEq τ] in
theorem KeepsCounts.of_eq (h : t.storages = s.storages) : s.KeepsCounts t where
  grows := Nat.le_of_eq (by rw [h])
  counts _ storage hk := .inl ⟨storage, h ▸ hk, rfl⟩

omit [DecidableEq τ] in
theorem Counted.all_wait (counted : s.Counted) (huser : s.userCode = true) :
    ∀ frame ∈ s.stack, frame.waits = true := by
  intro frame hmem
  have htail := counted.waiting
  cases hs : s.stack with
  | nil =>
    rw [hs] at hmem
    cases hmem
  | cons top rest =>
    rw [hs] at hmem htail
    obtain rfl | hmem := List.mem_cons.mp hmem
    · cases frame with
      | dispatch b => rfl
      | publish i event index position running number => rwa [userCode, hs] at huser
    · exact htail frame hmem

theorem Starts.counted {i : Nat} {event : Event τ α} (starts : s.Starts i event t)
    (counted : s.Counted) (hwait : ∀ frame ∈ s.stack, frame.waits = true) : t.Counted := by
  cases starts with
  | nobody hstorage hbeyond => exact counted.keep (.of_eq rfl) rfl counted.buses
  | @calls storage hstorage hin =>
    have hlt := (List.getElem?_eq_some_iff.mp hstorage).1
    constructor
    case count =>
      intro k found hk
      rw [publishing, List.countP_cons]
      obtain ⟨rfl, rfl⟩ | ⟨hne, hk⟩ := getElem?_set_cases hk
      · have hcount := counted.count k storage hstorage
        simp only [Frame.publishes, decide_true, if_true, hcount, publishing]
      · have hcount := counted.count k found hk
        simp only [Frame.publishes, decide_eq_true_eq, if_neg (Ne.symm hne), hcount, publishing,
          Nat.add_zero]
    case frames =>
      intro frame hmem k hpublishes
      rw [List.length_set]
      obtain rfl | hmem := List.mem_cons.mp hmem
      · obtain rfl := of_decide_eq_true hpublishes
        exact hlt
      · exact counted.frames frame hmem k hpublishes
    case buses =>
      intro bus hbus
      rw [List.length_set]
      exact counted.buses bus hbus
    case waiting => exact hwait

omit [DecidableEq τ] in
/-- A bus is changed, but not which storage it has. -/
theorem Counted.setBus (counted : s.Counted) (keeps : s.KeepsCounts t) (hstack : t.stack = s.stack)
    {b : Nat} {bus : AsyncEventBus τ α} (hbus : s.buses[b]? = some bus)
    (eventPublishers : List (Event τ α))
    (hbuses : t.buses = s.buses.set b { bus with eventPublishers }) : t.Counted := by
  apply counted.keep keeps hstack
  intro found hmem
  rw [hbuses] at hmem
  apply Nat.lt_of_lt_of_le _ keeps.grows
  obtain hmem | rfl := List.mem_or_eq_of_mem_set hmem
  · exact counted.buses found hmem
  · exact counted.buses bus (List.mem_of_getElem? hbus)

omit [DecidableEq τ] in
/-- Below the innermost call every call waits. -/
theorem Counted.rest_waits (counted : s.Counted) {top : Frame τ α} {rest : List (Frame τ α)}
    (hstack : s.stack = top :: rest) : ∀ frame ∈ rest, frame.waits = true := by
  have htail := counted.waiting
  rwa [hstack, List.tail_cons] at htail

omit [DecidableEq τ] in
/-- The loop of `publish` has ended, and its storage counts one call less. -/
theorem Counted.ends (counted : s.Counted) {i : Nat} {event : Event τ α}
    {index position number : Nat} {running : Bool} {rest : List (Frame τ α)}
    {storage : SubscriberStorage}
    (hstack : s.stack = .publish i event index position running number :: rest)
    (hstorage : s.storages[i]? = some storage) :
    Counted { s with
      storages := s.storages.set i { storage with publishCount := storage.publishCount - 1 }
      stack := rest } := by
  have hcounts : ∀ k, s.publishing k = rest.countP (Frame.publishes k) +
      if i = k then 1 else 0 := by
    intro k
    rw [publishing, hstack, List.countP_cons]
    simp only [Frame.publishes, decide_eq_true_eq]
  constructor
  case count =>
    intro k found hk
    show _ = rest.countP (Frame.publishes k)
    obtain ⟨rfl, rfl⟩ | ⟨hne, hk⟩ := getElem?_set_cases hk
    · have hcount := counted.count k storage hstorage
      rw [hcounts, if_pos rfl] at hcount
      show storage.publishCount - 1 = _
      omega
    · have hcount := counted.count k found hk
      rwa [hcounts, if_neg (Ne.symm hne)] at hcount
  case frames =>
    intro frame hmem k hpublishes
    rw [List.length_set]
    exact counted.frames frame (hstack ▸ List.mem_cons_of_mem _ hmem) k hpublishes
  case buses =>
    intro bus hbus
    rw [List.length_set]
    exact counted.buses bus hbus
  case waiting =>
    exact fun frame hmem => counted.rest_waits hstack frame (List.mem_of_mem_tail hmem)

theorem Changes.counted (changes : Changes grow s t) (counted : s.Counted) : t.Counted := by
  cases changes with
  | create =>
    have keeps : s.KeepsCounts s.create := (KeepsCounts.refl s).add rfl rfl
    exact counted.keep keeps rfl fun bus hbus =>
      Nat.lt_of_lt_of_le (counted.buses bus hbus) keeps.grows
  | createBus =>
    have keeps : s.KeepsCounts s.create := (KeepsCounts.refl s).add rfl rfl
    have hlength : s.create.storages.length = s.storages.length + 1 := List.length_append
    refine counted.keep ⟨keeps.grows, keeps.counts⟩ rfl fun bus hbus => ?_
    show bus.storage < s.create.storages.length
    rw [hlength]
    obtain hbus | hbus := List.mem_append.mp hbus
    · exact Nat.lt_succ_of_lt (counted.buses bus hbus)
    · rw [List.mem_singleton.mp hbus]
      exact Nat.lt_succ_self _
  | throws => exact counted
  | operation effect =>
    obtain ⟨keeps, hstack, hbuses⟩ := effect.keepsCounts
    refine counted.keep ⟨keeps.grows, keeps.counts⟩ hstack fun bus hbus => ?_
    have hold : bus ∈ s.buses := hbuses ▸ hbus
    exact Nat.lt_of_lt_of_le (counted.buses bus hold) keeps.grows
  | clearBus hbus effect =>
    obtain ⟨keeps, hstack, -⟩ := effect.keepsCounts
    exact counted.setBus ⟨keeps.grows, keeps.counts⟩ hstack hbus [] rfl
  | publish huser starts => exact starts.counted counted (counted.all_wait huser)
  | enqueue event hbus => exact counted.setBus (.of_eq rfl) rfl hbus _ rfl
  | dispatch b huser =>
    refine counted.restack (fun i => ?_) (counted.all_wait huser)
    rw [List.countP_cons_of_neg (by simp [Frame.publishes]), publishing]
  | @returns i event index position number rest hstack =>
    refine counted.restack (fun k => ?_) (counted.rest_waits hstack)
    rw [publishing, hstack, List.countP_cons, List.countP_cons]
    rfl
  | @drained b rest hstack =>
    refine counted.restack (fun k => ?_) fun frame hmem =>
      counted.rest_waits hstack frame (List.mem_of_mem_tail hmem)
    rw [publishing, hstack, List.countP_cons_of_neg (by simp [Frame.publishes])]
  | @delivers b bus rest event eventPublishers _ hstack hbus hqueue starts =>
    apply starts.counted (counted.setBus (.of_eq rfl) rfl hbus _ rfl)
    intro frame hmem
    rw [show s.stack = _ from hstack] at hmem
    obtain rfl | hmem := List.mem_cons.mp hmem
    · rfl
    · exact counted.rest_waits hstack frame hmem
  | ends hstack hstorage hend => exact counted.ends hstack hstorage
  | @calls i event index position number callback rest storage hstack hstorage hcallback =>
    have again :
        { s with stack := .publish i event index position true number :: rest }.Counted :=
      counted.restack (fun k => ?_) (counted.rest_waits hstack)
    · exact ⟨again.count, again.frames, again.buses, again.waiting⟩
    · rw [publishing, hstack, List.countP_cons, List.countP_cons]
      rfl

theorem invariant_counted : (step (τ := τ) (α := α) grow).Invariant Counted :=
  fun _ _ _ counted hstep => (changes_of_step hstep).counted counted

omit [DecidableEq τ] in
theorem Counted.running_iff (counted : s.Counted) (huser : s.userCode = true) {i : Nat} :
    s.Running i ↔ s.publishing i ≠ 0 := by
  rw [← Nat.pos_iff_ne_zero, publishing, List.countP_pos_iff]
  constructor
  · rintro ⟨event, index, position, number, hmem⟩
    exact ⟨_, hmem, decide_eq_true rfl⟩
  · rintro ⟨frame, hmem, hpublishes⟩
    have hwait := counted.all_wait huser frame hmem
    cases frame with
    | dispatch b => cases hpublishes
    | publish j event index position running number =>
      obtain rfl := of_decide_eq_true hpublishes
      obtain rfl : running = true := hwait
      exact ⟨event, index, position, number, hmem⟩

omit [DecidableEq τ] in
/-- A callback of a storage runs only while the storage counts. -/
theorem Running.publishing_ne_zero {i : Nat} (h : s.Running i) : s.publishing i ≠ 0 := by
  obtain ⟨event, index, position, number, hmem⟩ := h
  exact Nat.ne_of_gt (List.countP_pos_iff.mpr ⟨_, hmem, decide_eq_true rfl⟩)

theorem Starts.keepsLength {i : Nat} {event : Event τ α} (starts : s.Starts i event t) :
    s.storages.length ≤ t.storages.length := by
  cases starts with
  | nobody hstorage hbeyond => exact Nat.le_refl _
  | calls hstorage hin => simp only [List.length_set, Nat.le_refl]

/-- No storage ever goes. -/
theorem Changes.keepsLength (changes : Changes grow s t) :
    s.storages.length ≤ t.storages.length := by
  cases changes with
  | create => simp [Objects.create]
  | createBus => simp [Objects.create]
  | operation effect => exact effect.keepsCounts.1.grows
  | clearBus hbus effect => exact effect.keepsCounts.1.grows
  | publish huser starts => exact starts.keepsLength
  | delivers hstack hbus hqueue starts => exact starts.keepsLength
  | ends hstack hstorage hend => simp only [List.length_set, Nat.le_refl]
  | _ => exact Nat.le_refl _

theorem length_exec {actions : List (Action τ α)} (run : (step grow).exec s actions = some t) :
    s.storages.length ≤ t.storages.length := by
  have invariant : (step (τ := τ) (α := α) grow).Invariant
      fun u => s.storages.length ≤ u.storages.length :=
    fun _ _ _ hle hstep => Nat.le_trans hle (changes_of_step hstep).keepsLength
  exact invariant.exec (Nat.le_refl _) run

/-- In every run a storage is frozen while one of its callbacks runs: its count says so, every
operation on it throws before it changes anything, and so does `clear` of its bus. The count
is back where it was whenever the calls on the stack are, and where no callback of a storage
runs, the operations on it are accepted. -/
theorem frozen_while_publishing {actions : List (Action τ α)}
    (run : (step grow).exec {} actions = some s) :
    (∀ (i : Nat) storage, s.storages[i]? = some storage →
        storage.publishCount = s.publishing i ∧ (s.Running i → storage.publishCount ≠ 0)) ∧
      (∀ (more : List (Action τ α)) (t : Objects τ α), (step grow).exec s more = some t →
        t.stack = s.stack → ∀ (i : Nat) storage, s.storages[i]? = some storage →
          ∃ after, t.storages[i]? = some after ∧ after.publishCount = storage.publishCount) ∧
      (s.userCode = true → ∀ operation outcome t, s.attempt grow operation = some (outcome, t) →
        ((∃ i, operation.Involves i ∧ s.Running i) → outcome = .error forbidden ∧ t = s) ∧
          ((∀ i, operation.Involves i → ¬s.Running i) → outcome = operation.answer ∧
            (outcome = .ok () → Effect grow s operation t))) ∧
      (∀ i outcome t, s.attempt grow (.moveAssign i i) = some (outcome, t) →
        outcome = .ok () ∧ t = s) ∧
      (s.userCode = true → ∀ b bus outcome t, s.buses[b]? = some bus →
        s.clearBus b = some (outcome, t) →
          (s.Running bus.storage → outcome = .error forbidden ∧ t = s) ∧
            (¬s.Running bus.storage → outcome = .ok () ∧
              t.buses = s.buses.set b { bus with eventPublishers := [] })) := by
  have counted : s.Counted := invariant_counted.exec counted_initial run
  refine ⟨?counts, ?back, ?attempts, ?selfAssign, ?clear⟩
  case counts =>
    intro i storage hstorage
    have hcount := counted.count i storage hstorage
    exact ⟨hcount, fun hrunning => hcount ▸ hrunning.publishing_ne_zero⟩
  case back =>
    intro more t hmore hstack i storage hstorage
    have after : t.Counted := invariant_counted.exec counted hmore
    have hlt := Nat.lt_of_lt_of_le (List.getElem?_eq_some_iff.mp hstorage).1 (length_exec hmore)
    refine ⟨t.storages[i], List.getElem?_eq_getElem hlt, ?_⟩
    rw [after.count i _ (List.getElem?_eq_getElem hlt), counted.count i storage hstorage,
      publishing, hstack, publishing]
  case attempts =>
    intro huser operation outcome t hattempt
    constructor
    · rintro ⟨i, hinvolves, hrunning⟩
      obtain ⟨event, index, position, number, hmem⟩ := id hrunning
      have hlt := counted.frames _ hmem i (decide_eq_true rfl)
      have hstorage := List.getElem?_eq_getElem hlt
      refine attempt_of_publishing hattempt hinvolves hstorage ?_
      rw [counted.count i _ hstorage]
      exact hrunning.publishing_ne_zero
    · intro hfree
      have idle : ∀ i storage, operation.Involves i → s.storages[i]? = some storage →
          storage.publishCount = 0 := by
        intro i storage hinvolves hstorage
        rw [counted.count i storage hstorage]
        exact not_not.mp (mt (counted.running_iff huser).mpr (hfree i hinvolves))
      obtain ⟨hanswer, ⟨e, rfl, -⟩ | ⟨-, effect⟩⟩ := attempt_of_free hattempt idle
      · exact ⟨hanswer, fun h => nomatch h⟩
      · exact ⟨hanswer, fun _ => effect⟩
  case selfAssign =>
    intro i outcome t hattempt
    obtain ⟨houtcome, ⟨e, rfl, -⟩ | ⟨-, effect⟩⟩ :=
      attempt_of_free hattempt fun _ _ hinvolves _ => absurd rfl hinvolves.1
    · cases houtcome
    · cases effect with
      | selfAssign hstorage => exact ⟨houtcome, rfl⟩
      | moveAssign hne => exact absurd rfl hne
  case clear =>
    intro huser b bus outcome t hbus hclear
    obtain ⟨storage, hstorage, hcases⟩ := @clearBus_cases _ _ _ grow _ _ _ _ _ hbus hclear
    have hcount := counted.count bus.storage storage hstorage
    rw [counted.running_iff huser, ← hcount]
    obtain ⟨hpublishing, houtcome, hsame⟩ | ⟨hfree, houtcome, cleared, effect, rfl⟩ := hcases
    · exact ⟨fun _ => ⟨houtcome, hsame⟩, fun h => absurd hpublishing h⟩
    · exact ⟨fun h => absurd hfree h, fun _ => ⟨houtcome, rfl⟩⟩

/-- Two storages; a callback of the first publishes on it again. -/
def nested : List (Action Nat Nat) :=
  [.create, .create, .attempt (.subscribe 0 7 false), .publish 0 ⟨7, 1⟩, .loop,
    .publish 0 ⟨7, 2⟩, .loop]

theorem frozen_while_publishing_nested :
    ∃ s t outcome, (step fun _ n => n).exec {} nested = some s ∧
      s.attempt (fun _ n => n) (.moveAssign 1 0) = some (outcome, t) ∧
      outcome = .error forbidden ∧ t = s ∧
      ∃ storage, s.storages[0]? = some storage ∧ storage.publishCount = 2 := by
  obtain ⟨s, run, huser, hsome, hrunning, storage, hstorage, htwice⟩ :
      ∃ s, (step fun _ n => n).exec {} nested = some s ∧ s.userCode = true ∧
        (s.attempt (fun _ n => n) (.moveAssign 1 0)).isSome = true ∧ s.Running 0 ∧
        ∃ storage, s.storages[0]? = some storage ∧ s.publishing 0 = 2 :=
    ⟨_, rfl, rfl, rfl, ⟨_, _, _, _, List.mem_cons_self⟩, _, rfl, rfl⟩
  obtain ⟨⟨outcome, t⟩, hattempt⟩ := Option.isSome_iff_exists.mp hsome
  obtain ⟨counts, -, attempts, -⟩ := frozen_while_publishing run
  obtain ⟨throws, same⟩ := (attempts huser (.moveAssign 1 0) outcome t hattempt).1
    ⟨0, ⟨by decide, .inr rfl⟩, hrunning⟩
  have hcount := (counts 0 storage hstorage).1.trans htwice
  exact ⟨s, t, outcome, run, hattempt, throws, same, storage, hstorage, hcount⟩

end Objects

end Stalker2D.EventBus.Detail

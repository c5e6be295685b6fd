import Dumbo.Reactor.RingBuffer

/-!
# The poller of a Linux reactor

`IOPoller::poll`. What the kernel answers is a parameter; `process` and `report` of a message leave the
buffer alone.
-/

namespace Dumbo.Reactor

open RingBuffer

namespace IoPoller

def batchSize : Int := 512

/-- `data.ptr` of an event. -/
inductive EventData (M : Type*)
  | eventFd
  | null
  | message (msg : M)
  deriving DecidableEq, Repr

def EventData.isEventFd {M : Type*} : EventData M → Bool
  | .eventFd => true
  | _ => false

/-- What the system calls answer to a `max_events`; `none` is a negative result. -/
structure Kernel (M : Type*) where
  epollPwait : Int → Option (List (EventData M))
  ioGetevents : Int → Option (List M)

structure Poll (M : Type*) where
  buffer : RingBuffer M
  /-- the messages that `push_front` has been called for -/
  pushed : List M
  /-- the arguments of the system calls -/
  maxEvents : List Int

/-- Why the process ends. -/
inductive Stop (M : Type*)
  | terminate (s : Poll M)
  /-- the assertion in `push_front` -/
  | assertion (s : Poll M)

variable {M : Type*}

def pushFront (s : Poll M) (msg : M) : Except (Stop M) (Poll M) :=
  match s.buffer.pushFront msg with
  | some buffer => .ok { s with buffer := buffer, pushed := s.pushed ++ [msg] }
  | none => .error (.assertion s)

def fileMaxEvents (bufferCapacity otherEvents : Int) : Int := min (bufferCapacity - otherEvents) batchSize

def pollFileEvents (kernel : Kernel M) (bufferCapacity otherEvents : Int) (s : Poll M) :
    Except (Stop M) (Poll M) :=
  let maxEvents := fileMaxEvents bufferCapacity otherEvents
  let s := { s with maxEvents := s.maxEvents ++ [maxEvents] }
  match kernel.ioGetevents maxEvents with
  | some events => events.foldlM pushFront s
  | none => .error (.terminate s)

/-- The body of the loop in `poll`; `read_eventfd` is true. -/
def pollEvent (kernel : Kernel M) (bufferCapacity otherEvents : Int) (s : Poll M) :
    EventData M → Except (Stop M) (Poll M)
  | .eventFd => pollFileEvents kernel bufferCapacity otherEvents s
  | .null => .ok s
  | .message msg => pushFront s msg

def pollMaxEvents (buffer : RingBuffer M) : Int := min buffer.capacityI batchSize

def poll (kernel : Kernel M) (buffer : RingBuffer M) : Except (Stop M) (Poll M) :=
  if 0 < buffer.capacityI then
    let s := ⟨buffer, [], [pollMaxEvents buffer]⟩
    match kernel.epollPwait (pollMaxEvents buffer) with
    | some events => events.foldlM (pollEvent kernel buffer.capacityI (events.length - 1)) s
    | none => .error (.terminate s)
  else .ok ⟨buffer, [], []⟩

/-! ### What is pushed -/

/-- The kernel keeps to its limits, and reports the eventfd at most once. -/
structure Kernel.Limited (kernel : Kernel M) : Prop where
  epoll : ∀ n events, kernel.epollPwait n = some events →
    (events.length : Int) ≤ n ∧ events.countP EventData.isEventFd ≤ 1
  file : ∀ n events, kernel.ioGetevents n = some events → (events.length : Int) ≤ n

/-- The messages of an event, where the eventfd stands for `completions`. -/
def EventData.messages (completions : List M) : EventData M → List M
  | .eventFd => completions
  | .null => []
  | .message msg => [msg]

/-- What is to be pushed, in the order of the reports. -/
def reports (kernel : Kernel M) (buffer : RingBuffer M) : List M :=
  if 0 < buffer.capacityI then
    let events := (kernel.epollPwait (pollMaxEvents buffer)).getD []
    let completions := (kernel.ioGetevents (fileMaxEvents buffer.capacityI (events.length - 1))).getD []
    events.flatMap (EventData.messages completions)
  else []

/-- The poll at its end, or where the process has ended. -/
def reached : Except (Stop M) (Poll M) → Poll M
  | .ok s | .error (.terminate s) | .error (.assertion s) => s

/-- One call of `poll`. -/
structure PollOk (kernel : Kernel M) (buffer : RingBuffer M) : Prop where
  assertion : ∀ s, poll kernel buffer ≠ .error (.assertion s)
  bounded : (reached (poll kernel buffer)).pushed.length ≤ buffer.capacity
  maxEvents : ∀ n ∈ (reached (poll kernel buffer)).maxEvents, 1 ≤ n
  pushed : ∀ s, poll kernel buffer = .ok s →
    s.pushed = reports kernel buffer ∧ s.buffer.contents = buffer.contents ++ s.pushed
  /-- the process ends where a system call has failed -/
  terminate : ∀ s, poll kernel buffer = .error (.terminate s) →
    ∃ n, kernel.epollPwait n = none ∨ kernel.ioGetevents n = none

variable {k : Nat} {kernel : Kernel M} {buffer : RingBuffer M} {s : Poll M}

/-- What has been pushed has gone into the buffer. -/
structure Holds (k : Nat) (buffer : RingBuffer M) (s : Poll M) : Prop where
  sized : Sized k s.buffer
  available : s.buffer.available = buffer.available + s.pushed.length
  contents : s.buffer.contents = buffer.contents ++ s.pushed

theorem Holds.pushFront (hk : k < 64) (h : Holds k buffer s)
    (hroom : buffer.available + s.pushed.length < 2 ^ k) (msg : M) :
    ∃ t, pushFront s msg = .ok t ∧ Holds k buffer t ∧ t.pushed = s.pushed ++ [msg] ∧
      t.maxEvents = s.maxEvents := by
  obtain ⟨buffer', hpush, hsized, havailable, hcontents⟩ :=
    h.sized.pushFront hk (by rw [h.available]; exact hroom) msg
  refine ⟨{ s with buffer := buffer', pushed := s.pushed ++ [msg] }, ?_, ⟨hsized, ?_, ?_⟩, rfl, rfl⟩
  · rw [IoPoller.pushFront, hpush]
  · rw [List.length_append, havailable, h.available]
    rfl
  · rw [hcontents, h.contents, List.append_assoc]

theorem Holds.pushAll (hk : k < 64) (msgs : List M) (h : Holds k buffer s)
    (hroom : buffer.available + s.pushed.length + msgs.length ≤ 2 ^ k) :
    ∃ t, msgs.foldlM IoPoller.pushFront s = .ok t ∧ Holds k buffer t ∧ t.pushed = s.pushed ++ msgs ∧
      t.maxEvents = s.maxEvents := by
  induction msgs generalizing s with
  | nil => exact ⟨s, rfl, h, (List.append_nil _).symm, rfl⟩
  | cons msg msgs ih =>
    rw [List.length_cons] at hroom
    obtain ⟨u, hu, hholds, hpushed, hmax⟩ := h.pushFront hk (by omega) msg
    obtain ⟨t, ht, hlast, hall, hmax'⟩ := ih hholds (by rw [hpushed, List.length_append]; simp; omega)
    refine ⟨t, ?_, hlast, ?_, hmax'.trans hmax⟩
    · rw [List.foldlM_cons, hu]
      exact ht
    · rw [hall, hpushed, List.append_assoc]
      rfl

/-- The pushes that an event stands for, where the eventfd may bring `n`. -/
def EventData.cost (n : Nat) : EventData M → Nat
  | .eventFd => n
  | .null => 0
  | .message _ => 1

theorem cost_le (n : Nat) (events : List (EventData M)) :
    (events.map (EventData.cost n)).sum + events.countP EventData.isEventFd ≤
      events.length + events.countP EventData.isEventFd * n := by
  induction events with
  | nil => exact Nat.zero_le _
  | cons event events ih =>
    rw [List.map_cons, List.sum_cons, List.length_cons]
    cases event with
    | eventFd =>
      rw [List.countP_cons_of_pos rfl, Nat.succ_mul, EventData.cost]
      omega
    | null =>
      rw [List.countP_cons_of_neg (by simp [EventData.isEventFd]), EventData.cost]
      omega
    | message msg =>
      rw [List.countP_cons_of_neg (by simp [EventData.isEventFd]), EventData.cost]
      omega

/-- The loop from `s` ends in `t`. -/
structure Ends (k : Nat) (kernel : Kernel M) (buffer : RingBuffer M) (capacity others : Int) (n : Nat)
    (events : List (EventData M)) (s t : Poll M) : Prop where
  holds : Holds k buffer t
  bound : t.pushed.length ≤ s.pushed.length + (events.map (EventData.cost n)).sum
  maxEvents : ∀ m ∈ t.maxEvents, m ∈ s.maxEvents ∨
    m = fileMaxEvents capacity others ∧ 0 < events.countP EventData.isEventFd
  result : events.foldlM (pollEvent kernel capacity others) s = .ok t ∧
      t.pushed = s.pushed ++ events.flatMap (EventData.messages
        ((kernel.ioGetevents (fileMaxEvents capacity others)).getD [])) ∨
    events.foldlM (pollEvent kernel capacity others) s = .error (.terminate t) ∧
      kernel.ioGetevents (fileMaxEvents capacity others) = none

variable {capacity others : Int} {event : EventData M} {events : List (EventData M)} {n : Nat}
  {u t : Poll M}

theorem Ends.cons (h : Ends k kernel buffer capacity others n events u t)
    (hstep : pollEvent kernel capacity others s event = .ok u)
    (hpushed : u.pushed = s.pushed ++ event.messages
      ((kernel.ioGetevents (fileMaxEvents capacity others)).getD []))
    (hbound : u.pushed.length ≤ s.pushed.length + event.cost n)
    (hmax : ∀ m ∈ u.maxEvents,
      m ∈ s.maxEvents ∨ m = fileMaxEvents capacity others ∧ event.isEventFd = true) :
    Ends k kernel buffer capacity others n (event :: events) s t := by
  have hrest := h.bound
  refine ⟨h.holds, ?_, fun m hm => ?_, ?_⟩
  · rw [List.map_cons, List.sum_cons]
    omega
  · rcases h.maxEvents m hm with hm | ⟨rfl, hpos⟩
    · refine (hmax m hm).imp id fun ⟨he, hfd⟩ => ⟨he, ?_⟩
      rw [List.countP_cons_of_pos hfd]
      exact Nat.succ_pos _
    · refine .inr ⟨rfl, Nat.lt_of_lt_of_le hpos ?_⟩
      rw [List.countP_cons]
      exact Nat.le_add_right _ _
  · rw [List.foldlM_cons, hstep]
    refine h.result.imp (fun ⟨hfold, hall⟩ => ⟨hfold, ?_⟩) fun ⟨hfold, hnone⟩ => ⟨hfold, hnone⟩
    rw [hall, hpushed, List.append_assoc, List.flatMap_cons]

/-- The loop pushes the messages of its events, or ends where `io_getevents` fails. -/
theorem Holds.pollEvents (hk : k < 64)
    (hfile : ∀ completions, kernel.ioGetevents (fileMaxEvents capacity others) = some completions →
      completions.length ≤ n) (h : Holds k buffer s)
    (hroom : buffer.available + s.pushed.length + (events.map (EventData.cost n)).sum ≤ 2 ^ k) :
    ∃ t, Ends k kernel buffer capacity others n events s t := by
  induction events generalizing s with
  | nil => exact ⟨s, h, Nat.le_refl _, fun m hm => .inl hm, .inl ⟨rfl, (List.append_nil _).symm⟩⟩
  | cons event events ih =>
    rw [List.map_cons, List.sum_cons] at hroom
    cases event with
    | null =>
      obtain ⟨t, ht⟩ := ih h (by omega)
      exact ⟨t, ht.cons rfl (List.append_nil _).symm (Nat.le_add_right _ _) fun m hm => .inl hm⟩
    | message msg =>
      rw [EventData.cost] at hroom
      obtain ⟨u, hu, hholds, hpushed, hmax⟩ := h.pushFront hk (by omega) msg
      have hlength : u.pushed.length = s.pushed.length + 1 := by
        rw [hpushed, List.length_append]
        rfl
      obtain ⟨t, ht⟩ := ih hholds (by omega)
      exact ⟨t, ht.cons hu hpushed (Nat.le_of_eq hlength) fun m hm => .inl (hmax ▸ hm)⟩
    | eventFd =>
      rw [EventData.cost] at hroom
      have hgrown : Holds k buffer
          { s with maxEvents := s.maxEvents ++ [fileMaxEvents capacity others] } :=
        ⟨h.sized, h.available, h.contents⟩
      have hmem : ∀ m ∈ s.maxEvents ++ [fileMaxEvents capacity others],
          m ∈ s.maxEvents ∨ m = fileMaxEvents capacity others := fun m hm =>
        (List.mem_append.mp hm).imp id List.mem_singleton.mp
      cases hanswer : kernel.ioGetevents (fileMaxEvents capacity others) with
      | none =>
        refine ⟨_, hgrown, Nat.le_add_right _ _, fun m hm => ?_, .inr ⟨?_, hanswer⟩⟩
        · refine (hmem m hm).imp id fun he => ⟨he, ?_⟩
          rw [List.countP_cons_of_pos rfl]
          exact Nat.succ_pos _
        · rw [List.foldlM_cons, pollEvent, pollFileEvents, hanswer]
          rfl
      | some completions =>
        have hlength := hfile completions hanswer
        obtain ⟨u, hu, hholds, hpushed, hmax⟩ := hgrown.pushAll hk completions (by
          show buffer.available + s.pushed.length + completions.length ≤ 2 ^ k
          omega)
        have hcount : u.pushed.length = s.pushed.length + completions.length := by
          rw [hpushed, List.length_append]
        obtain ⟨t, ht⟩ := ih hholds (by omega)
        refine ⟨t, ht.cons ?_ ?_ ?_ fun m hm => ?_⟩
        · rw [pollEvent, pollFileEvents, hanswer]
          exact hu
        · rw [hanswer]
          exact hpushed
        · rw [hcount, EventData.cost]
          omega
        · rw [hmax] at hm
          exact (hmem m hm).imp id fun he => ⟨he, rfl⟩

/-- What `poll_file_events` asks for is at least one, and no more than what is left. -/
theorem fileMaxEvents_bounds {capacity others : Int} (h : others < capacity) :
    1 ≤ fileMaxEvents capacity others ∧ fileMaxEvents capacity others ≤ capacity - others := by
  rw [fileMaxEvents, batchSize]
  constructor <;> omega

theorem pollMaxEvents_bounds (h : 0 < buffer.capacityI) :
    1 ≤ pollMaxEvents buffer ∧ pollMaxEvents buffer ≤ buffer.capacityI := by
  rw [pollMaxEvents, batchSize]
  constructor <;> omega

/-- However the kernel mixes the events, there is room for what it reports. -/
theorem poll_never_overruns (hk : k < 64) (hsized : Sized k buffer) (hkernel : kernel.Limited) :
    PollOk kernel buffer := by
  have hcapacity := hsized.capacity hk
  rw [ringSize, hsized.size] at hcapacity
  have hint := capacityI_le buffer
  by_cases hpos : 0 < buffer.capacityI
  · obtain ⟨hlimit, hle⟩ := pollMaxEvents_bounds hpos
    cases hanswer : kernel.epollPwait (pollMaxEvents buffer) with
    | none =>
      have hpoll : poll kernel buffer = .error (.terminate ⟨buffer, [], [pollMaxEvents buffer]⟩) := by
        rw [poll, if_pos hpos, hanswer]
      refine ⟨fun s hs => ?_, ?_, ?_, fun s hs => ?_, fun s _ => ⟨_, .inl hanswer⟩⟩
      · rw [hpoll] at hs
        exact absurd hs (by simp)
      · rw [hpoll]
        exact Nat.zero_le _
      · rw [hpoll]
        exact List.forall_mem_singleton.mpr hlimit
      · rw [hpoll] at hs
        exact absurd hs (by simp)
    | some events =>
      obtain ⟨hlength, hfds⟩ := hkernel.epoll _ _ hanswer
      have hothers : (events.length : Int) - 1 < buffer.capacityI := by omega
      obtain ⟨hfirst, hmin⟩ := fileMaxEvents_bounds hothers
      have hfile : ∀ completions,
          kernel.ioGetevents (fileMaxEvents buffer.capacityI (events.length - 1)) = some completions →
            completions.length ≤ (buffer.capacityI - (events.length - 1)).toNat := by
        intro completions hc
        have hcount := Int.le_trans (hkernel.file _ _ hc) hmin
        exact (Int.le_toNat (Int.le_trans (Int.natCast_nonneg _) hcount)).mpr hcount
      have hcost := cost_le (buffer.capacityI - (events.length - 1)).toNat events
      have htotal : (events.map
          (EventData.cost (buffer.capacityI - (events.length - 1)).toNat)).sum ≤ buffer.capacity := by
        have hfew : events.countP EventData.isEventFd ≤ events.length := List.countP_le_length
        rcases Nat.le_one_iff_eq_zero_or_eq_one.mp hfds with hzero | hone
        · rw [hzero, Nat.zero_mul] at hcost
          omega
        · rw [hone, Nat.one_mul] at hcost
          omega
      have hstart : Holds k buffer ⟨buffer, [], [pollMaxEvents buffer]⟩ :=
        ⟨hsized, rfl, (List.append_nil _).symm⟩
      have hroom : buffer.available + 0 + (events.map
          (EventData.cost (buffer.capacityI - (events.length - 1)).toNat)).sum ≤ 2 ^ k := by omega
      obtain ⟨t, ht⟩ := hstart.pollEvents hk hfile hroom
      have hbound : t.pushed.length ≤ buffer.capacity := by
        have hb := ht.bound
        rw [List.length_nil, Nat.zero_add] at hb
        exact Nat.le_trans hb htotal
      have hlimits : ∀ m ∈ t.maxEvents, 1 ≤ m := by
        intro m hm
        rcases ht.maxEvents m hm with hm | ⟨he, _⟩
        · rw [List.mem_singleton.mp hm]
          exact hlimit
        · rw [he]
          exact hfirst
      have hpoll : poll kernel buffer =
          events.foldlM (pollEvent kernel buffer.capacityI (events.length - 1))
            ⟨buffer, [], [pollMaxEvents buffer]⟩ := by
        rw [poll, if_pos hpos, hanswer]
      rcases ht.result with ⟨hfold, hpushed⟩ | ⟨hfold, hnone⟩
      · rw [hfold] at hpoll
        refine ⟨fun s hs => ?_, by rw [hpoll]; exact hbound, by rw [hpoll]; exact hlimits,
          fun s hs => ?_, fun s hs => ?_⟩
        · rw [hpoll] at hs
          exact absurd hs (by simp)
        · rw [hpoll, Except.ok.injEq] at hs
          subst hs
          refine ⟨?_, ht.holds.contents⟩
          rw [hpushed, reports, if_pos hpos, hanswer]
          rfl
        · rw [hpoll] at hs
          exact absurd hs (by simp)
      · rw [hfold] at hpoll
        refine ⟨fun s hs => ?_, by rw [hpoll]; exact hbound, by rw [hpoll]; exact hlimits,
          fun s hs => ?_, fun s _ => ⟨_, .inr hnone⟩⟩
        · rw [hpoll] at hs
          exact absurd hs (by simp)
        · rw [hpoll] at hs
          exact absurd hs (by simp)
  · have hpoll : poll kernel buffer = .ok ⟨buffer, [], []⟩ := by rw [poll, if_neg hpos]
    refine ⟨fun s hs => ?_, ?_, ?_, fun s hs => ?_, fun s hs => ?_⟩
    · rw [hpoll] at hs
      exact absurd hs (by simp)
    · rw [hpoll]
      exact Nat.zero_le _
    · rw [hpoll]
      exact fun m hm => absurd hm List.not_mem_nil
    · rw [hpoll, Except.ok.injEq] at hs
      subst hs
      exact ⟨by rw [reports, if_neg hpos], (List.append_nil _).symm⟩
    · rw [hpoll] at hs
      exact absurd hs (by simp)

/-- A kernel that has these events and completions at hand. -/
def Kernel.having (events : List (EventData M)) (completions : List M) : Kernel M where
  epollPwait n := if 0 < n then some (events.take n.toNat) else none
  ioGetevents n := if 0 < n then some (completions.take n.toNat) else none

theorem Kernel.having_limited {events : List (EventData M)} (completions : List M)
    (h : events.countP EventData.isEventFd ≤ 1) : (Kernel.having events completions).Limited := by
  have hlength : ∀ {α : Type _} (l : List α) {n : Int}, 0 < n → ((l.take n.toNat).length : Int) ≤ n := by
    intro α l n hn
    rw [List.length_take]
    omega
  refine ⟨fun n events' hs => ?_, fun n completions' hs => ?_⟩
  · obtain ⟨hn, hevents⟩ := Option.ite_none_right_eq_some.mp hs
    obtain rfl := Option.some.inj hevents
    exact ⟨hlength _ hn, Nat.le_trans ((List.take_sublist _ _).countP_le) h⟩
  · obtain ⟨hn, hcompletions⟩ := Option.ite_none_right_eq_some.mp hs
    obtain rfl := Option.some.inj hcompletions
    exact hlength _ hn

/-- The eventfd is reported first, with more completions than there is room for besides the message. -/
theorem poll_never_overruns_four :
    (reached (poll (.having [.eventFd, .message 7] [1, 2, 3, 4]) (create 0 (2 ^ 2)))).pushed =
        [1, 2, 3, 7] ∧
      PollOk (.having [.eventFd, .message 7] [1, 2, 3, 4]) (create 0 (2 ^ 2)) :=
  ⟨by decide, poll_never_overruns (k := 2) (by decide) ⟨rfl, by decide⟩
    (Kernel.having_limited _ (by decide))⟩

end IoPoller

end Dumbo.Reactor

import Dumbo.Reactor.LinuxIoInvariant

/-!
# Wake-ups reach their own waiter

A message that is queued somewhere (an inbox, another reactor, a handler, the kernel's completion
queue, the I/O ring) will finish later, and its fiber waits for it meanwhile. The one exception is
the readiness of a socket: the registration stays in the epoll set when nobody waits.
-/

namespace Dumbo.Reactor.LinuxIo

open Transition

/-- A request or a reply on its way. -/
def State.Located (s : State) (m : MsgId) : Prop :=
  m ∈ s.inbox ∨ m ∈ s.remote ∨ ∃ h, (s.fiber h).handler = some m

/-- The events of `m` that are still to be finished. -/
def State.events (s : State) (m : MsgId) : Nat := s.aio m + s.ring.count m

structure Waits (s : State) : Prop where
  located : ∀ m, s.Located m → ∃ f, s.kind m = some (.lambda f false) ∨ s.kind m = some .oneWay ∨
    s.kind m = some .foreign
  lambda : ∀ m f, s.Located m → s.kind m = some (.lambda f false) →
    (s.fiber f).status = .waiting m
  nodup : (s.inbox ++ s.remote).Nodup
  handler : ∀ h m, (s.fiber h).handler = some m → m ∉ s.inbox ∧ m ∉ s.remote
  handler_inj : ∀ h h' m, (s.fiber h).handler = some m → (s.fiber h').handler = some m → h = h'
  events : ∀ m, 0 < s.events m → ∃ f, s.kind m = some (.singleIo f false) ∨
    s.kind m = some (.multiIo f 0) ∨ s.kind m = some (.fiberIo f 0)
  single : ∀ m f r, s.heap m = some (.singleIo f r) → 0 < s.events m →
    (s.fiber f).status = .waiting m ∧ s.events m = 1 ∧ (m ∈ s.ring → r = true)
  multi : ∀ m f n, s.heap m = some (.multiIo f n) → 0 < s.events m →
    (s.fiber f).status = .waiting m ∧ s.events m = n ∧ n < 2 ^ 64
  socket : ∀ m f c, s.heap m = some (.fiberIo f c) → c < 2 ^ 64 ∧ s.aio m = 0 ∧ s.events m ≤ 1 ∧
    (0 < s.events m → c = 1 → (s.fiber f).status = .waiting m)
  reported : ∀ l, s.loop = .poll l → ∀ m f, m ∈ s.ring → s.kind m = some (.fiberIo f 0) →
    ∃ fd ∈ l, s.epoll fd = some m
  idle : (∀ l, s.loop ≠ .poll l) → s.loop ≠ .drain → s.ring = []
  resumes : ∀ r ∈ s.resumes, r.2 = .waiting r.1

variable {s t : State} {f : FiberId} {m : MsgId}

theorem waits_initial : Waits initial := by
  constructor <;> simp [initial, State.Located, State.events, State.kind, Message.erase]

/-- Requests and replies are of other classes than the messages of the poller. -/
theorem Waits.events_of_located (hw : Waits s) (hl : s.Located m) : s.events m = 0 := by
  apply Nat.eq_zero_of_not_pos
  intro he
  obtain ⟨f, hk⟩ := hw.located m hl
  obtain ⟨g, hk'⟩ := hw.events m he
  rcases hk with hk | hk | hk <;> rw [hk] at hk' <;> simp at hk'

theorem Waits.congr (hw : Waits s) (hheap : t.heap = s.heap)
    (hhandler : ∀ f, (t.fiber f).handler = (s.fiber f).handler)
    (hstatus : ∀ f m, (s.fiber f).status = .waiting m → (t.fiber f).status = .waiting m)
    (hinbox : t.inbox = s.inbox) (hremote : t.remote = s.remote) (haio : t.aio = s.aio)
    (hring : t.ring = s.ring) (hepoll : ∀ l, s.loop = .poll l → t.epoll = s.epoll)
    (hloop : t.loop = s.loop) (hresumes : t.resumes = s.resumes) : Waits t := by
  have hkind : t.kind = s.kind := by
    funext m
    simp only [State.kind, hheap]
  have hlocated (m : MsgId) : t.Located m ↔ s.Located m := by
    simp only [State.Located, hinbox, hremote, hhandler]
  have hevents (m : MsgId) : t.events m = s.events m := by
    simp only [State.events, haio, hring]
  obtain ⟨h1, h2, h3, h4, h5, h6, h7, h8, h9, h10, h11, h12⟩ := hw
  constructor <;>
    simp only [hkind, hlocated, hevents, hheap, hhandler, hinbox, hremote, hring, hloop, haio,
      hresumes]
  · exact h1
  · exact fun m f hm hk => hstatus f m (h2 m f hm hk)
  · exact h3
  · exact h4
  · exact h5
  · exact h6
  · exact fun m f r hm hk => ⟨hstatus f m (h7 m f r hm hk).1, (h7 m f r hm hk).2⟩
  · exact fun m f n hm hk => ⟨hstatus f m (h8 m f n hm hk).1, (h8 m f n hm hk).2⟩
  · exact fun m f c hm => ⟨(h9 m f c hm).1, (h9 m f c hm).2.1, (h9 m f c hm).2.2.1,
      fun hk hc => hstatus f m ((h9 m f c hm).2.2.2 hk hc)⟩
  · intro l hl
    rw [hepoll l hl]
    exact h10 l hl
  · exact h11
  · exact h12

theorem State.kind_of_heap {msg : Message} (h : s.heap m = some msg) :
    s.kind m = some msg.erase := by
  simp [State.kind, h]

/-- `m` has nothing left to finish. -/
def State.Done (s : State) (m : MsgId) : Prop := ¬ s.Located m ∧ s.events m = 0

/-- The proper wake-up: the fiber waits for the message that finishes, and nothing else will
finish that message. -/
theorem Waits.resume (hw : Waits s) (hf : (s.fiber f).status = .waiting m) (hdone : s.Done m) :
    Waits (s.resume m f) := by
  have hstatus (g : FiberId) (m' : MsgId) (hne : m' ≠ m) (h : (s.fiber g).status = .waiting m') :
      ((s.resume m f).fiber g).status = .waiting m' := by
    have hg : g ≠ f := by
      rintro rfl
      simp_all
    simpa [State.resume, hf, State.setStatus, State.setFiber, Function.update_of_ne hg] using h
  have hhandler (g : FiberId) : ((s.resume m f).fiber g).handler = (s.fiber g).handler := by
    simp only [State.resume, hf, State.setStatus, State.setFiber, Function.update_apply]
    split
    · simp [*]
    · rfl
  have hlocated (m' : MsgId) : (s.resume m f).Located m' ↔ s.Located m' := by
    simp only [State.Located, hhandler]
    simp [State.resume, hf, State.setStatus, State.setFiber]
  have hresumes : (s.resume m f).resumes = s.resumes ++ [(m, .waiting m)] := by
    simp [State.resume, hf, State.setStatus, State.setFiber]
  have hrest : (s.resume m f).heap = s.heap ∧ (s.resume m f).inbox = s.inbox ∧
      (s.resume m f).remote = s.remote ∧ (s.resume m f).aio = s.aio ∧
      (s.resume m f).ring = s.ring ∧ (s.resume m f).epoll = s.epoll ∧
      (s.resume m f).loop = s.loop := by
    simp [State.resume, hf, State.setStatus, State.setFiber]
  obtain ⟨e1, e2, e3, e4, e5, e6, e7⟩ := hrest
  have hkind : (s.resume m f).kind = s.kind := by
    funext m
    simp only [State.kind, e1]
  have hevents (m' : MsgId) : (s.resume m f).events m' = s.events m' := by
    simp only [State.events, e4, e5]
  obtain ⟨h1, h2, h3, h4, h5, h6, h7, h8, h9, h10, h11, h12⟩ := hw
  constructor <;>
    simp only [hkind, hlocated, hevents, hhandler, hresumes, e1, e2, e3, e4, e5, e6, e7]
  · exact h1
  · intro m' g hl hk
    exact hstatus g m' (fun he => hdone.1 (he ▸ hl)) (h2 m' g hl hk)
  · exact h3
  · exact h4
  · exact h5
  · exact h6
  · intro m' g r hm he
    have hne : m' ≠ m := fun h => absurd (h ▸ hdone.2) (Nat.ne_of_gt he)
    exact ⟨hstatus g m' hne (h7 m' g r hm he).1, (h7 m' g r hm he).2⟩
  · intro m' g n hm he
    have hne : m' ≠ m := fun h => absurd (h ▸ hdone.2) (Nat.ne_of_gt he)
    exact ⟨hstatus g m' hne (h8 m' g n hm he).1, (h8 m' g n hm he).2⟩
  · intro m' g c hm
    refine ⟨(h9 m' g c hm).1, (h9 m' g c hm).2.1, (h9 m' g c hm).2.2.1, fun he hc => ?_⟩
    have hne : m' ≠ m := fun h => absurd (h ▸ hdone.2) (Nat.ne_of_gt he)
    exact hstatus g m' hne ((h9 m' g c hm).2.2.2 he hc)
  · exact h10
  · exact h11
  · intro r hr
    rcases List.mem_append.mp hr with hr | hr
    · exact h12 r hr
    · rw [List.mem_singleton.mp hr]

theorem Waits.store (hw : Waits s) (hdone : s.Done m) (msg : Option Message)
    (hmsg : ∀ f c, msg = some (.fiberIo f c) → c < 2 ^ 64) : Waits (s.store m msg) := by
  have hother (m' : MsgId) (hne : m' ≠ m) : (s.store m msg).heap m' = s.heap m' := by
    simp [State.store, hne]
  have hkind (m' : MsgId) (hne : m' ≠ m) : (s.store m msg).kind m' = s.kind m' := by
    simp only [State.kind, hother m' hne]
  have hl (m' : MsgId) (h : s.Located m') : m' ≠ m := fun he => hdone.1 (he ▸ h)
  have he (m' : MsgId) (h : 0 < s.events m') : m' ≠ m :=
    fun he => absurd (he ▸ hdone.2) (Nat.ne_of_gt h)
  obtain ⟨h1, h2, h3, h4, h5, h6, h7, h8, h9, h10, h11, h12⟩ := hw
  refine ⟨fun m' h => ?_, fun m' g h hk => ?_, h3, h4, h5, fun m' h => ?_, fun m' g r hm h => ?_,
    fun m' g n hm h => ?_, fun m' g c hm => ?_, fun l hloop m' g hr hk => ?_, h11, h12⟩
  · rw [hkind m' (hl m' h)]
    exact h1 m' h
  · rw [hkind m' (hl m' h)] at hk
    exact h2 m' g h hk
  · rw [hkind m' (he m' h)]
    exact h6 m' h
  · rw [hother m' (he m' h)] at hm
    exact h7 m' g r hm h
  · rw [hother m' (he m' h)] at hm
    exact h8 m' g n hm h
  · by_cases hne : m' = m
    · subst hne
      refine ⟨hmsg g c (by simpa [State.store] using hm), ?_, ?_, fun h => absurd h ?_⟩
      · exact Nat.eq_zero_of_add_eq_zero_right hdone.2
      · change s.events m' ≤ 1
        rw [hdone.2]
        exact Nat.zero_le _
      · change ¬ 0 < s.events m'
        rw [hdone.2]
        exact Nat.lt_irrefl _
    · rw [hother m' hne] at hm
      exact h9 m' g c hm
  · have hpos : 0 < s.events m' :=
      Nat.lt_of_lt_of_le (List.count_pos_iff.mpr hr) (Nat.le_add_left _ _)
    rw [hkind m' (he m' hpos)] at hk
    exact h10 l hloop m' g hr hk

theorem Waits.done_of_fresh (hw : Waits s) (h : s.kind m = none) : s.Done m := by
  refine ⟨fun hl => ?_, Nat.eq_zero_of_not_pos fun he => ?_⟩
  · obtain ⟨f, hk⟩ := hw.located m hl
    simp [h] at hk
  · obtain ⟨f, hk⟩ := hw.events m he
    simp [h] at hk

theorem Waits.alloc (hw : Waits s) (ho : Owned s) (msg : Message)
    (hmsg : ∀ f c, msg = .fiberIo f c → c < 2 ^ 64) : Waits (s.alloc msg) := by
  have hs := hw.store (hw.done_of_fresh (ho.heap s.nmsgs (Nat.le_refl _))) (some msg)
    (by simpa using hmsg)
  exact hs.congr rfl (fun _ => rfl) (fun _ _ h => h) rfl rfl rfl rfl (fun _ _ => rfl) rfl rfl

theorem Waits.ring_nil (hw : Waits s) (ho : Owned s) (hf : s.active = some f) : s.ring = [] := by
  have hloop := ho.loop f hf
  exact hw.idle (by simp [hloop]) (by simp [hloop])

theorem Waits.done_of_owned (hw : Waits s) (ho : Owned s) (hf : s.active = some f) {msg : Message}
    (hm : (s.fiber f).pc.owned f = some (m, msg)) : s.Done m := by
  have hk := (ho.fiber f).owned m msg hm
  obtain ⟨msg', hheap, herase⟩ := Option.map_eq_some_iff.mp hk
  have hactive := (ho.fiber f).active.mpr hf
  have hring := hw.ring_nil ho hf
  have hmsg : msg = .lambda f false ∨ msg = .singleIo f false ∨ msg = .multiIo f 0 ∨
      msg = .fiberIo f 0 := by
    cases hpc : (s.fiber f).pc <;> simp_all [Pc.owned]
  refine ⟨fun hl => ?_, Nat.eq_zero_of_not_pos fun he => ?_⟩
  · obtain ⟨g, hg⟩ := hw.located m hl
    rw [hk] at hg
    rcases hmsg with rfl | rfl | rfl | rfl
    · rw [hw.lambda m f hl hk] at hactive
      cases hactive
    all_goals simp at hg
  · rcases hmsg with rfl | rfl | rfl | rfl
    · obtain ⟨g, hg⟩ := hw.events m he
      rw [hk] at hg
      simp at hg
    · cases msg' <;> simp only [Message.erase, reduceCtorEq, Message.singleIo.injEq] at herase
      rw [herase.1] at hheap
      simp [((hw.single m f _ hheap) he).1] at hactive
    · cases msg' <;> simp only [Message.erase, reduceCtorEq, Message.multiIo.injEq] at herase
      rw [herase.1] at hheap
      simp [((hw.multi m f _ hheap) he).1] at hactive
    · cases msg' <;> simp only [Message.erase, reduceCtorEq, Message.fiberIo.injEq] at herase
      have hz := (hw.socket m _ _ hheap).2.1
      simp [State.events, hz, hring] at he

theorem Waits.setFiber (hw : Waits s) (ho : Owned s) (hf : s.active = some f) {x : Fiber}
    (hx : x.handler = (s.fiber f).handler) (active : Option FiberId) :
    Waits { s.setFiber f x with active := active } := by
  have hactive := (ho.fiber f).active.mpr hf
  refine hw.congr rfl (fun g => ?_) (fun g m h => ?_) rfl rfl rfl rfl (fun _ _ => rfl) rfl rfl <;>
    simp only [State.setFiber, Function.update_apply]
  · split
    · rw [hx]
      simp [*]
    · rfl
  · rw [if_neg]
    · exact h
    · rintro rfl
      simp [hactive] at h

theorem State.Done.setFiber (h : s.Done m) {x : Fiber} (hx : x.handler = (s.fiber f).handler)
    (active : Option FiberId) : State.Done { s.setFiber f x with active := active } m := by
  refine ⟨fun hl => h.1 ?_, h.2⟩
  rcases hl with hl | hl | ⟨g, hg⟩
  · exact .inl hl
  · exact .inr (.inl hl)
  · refine .inr (.inr ⟨g, ?_⟩)
    simp only [State.setFiber, Function.update_apply] at hg
    split at hg
    · simp_all
    · exact hg

theorem State.Done.suspend (h : s.Done m) (f : FiberId) (m' : MsgId) (pc : Pc) :
    (s.suspend f m' pc).Done m :=
  h.setFiber (x := { s.fiber f with status := .waiting m', pc := pc }) rfl none

theorem State.Done.setPc (h : s.Done m) (f : FiberId) (pc : Pc) : (s.setPc f pc).Done m :=
  h.setFiber (x := { s.fiber f with pc := pc }) rfl s.active

theorem Waits.suspend (hw : Waits s) (ho : Owned s) (hf : s.active = some f) (m : MsgId) (pc : Pc) :
    Waits (s.suspend f m pc) :=
  hw.setFiber ho hf (x := { s.fiber f with status := .waiting m, pc := pc }) rfl none

theorem Waits.setPc (hw : Waits s) (ho : Owned s) (hf : s.active = some f) (pc : Pc) :
    Waits (s.setPc f pc) :=
  hw.setFiber ho hf (x := { s.fiber f with pc := pc }) rfl s.active

theorem Waits.return (hw : Waits s) (ho : Owned s) (hf : s.active = some f) {msg : Message}
    (hm : (s.fiber f).pc.owned f = some (m, msg)) (pc : Pc) :
    Waits ((s.store m none).setPc f pc) := by
  have hdone : (s.setPc f pc).Done m := (hw.done_of_owned ho hf hm).setPc f pc
  exact (hw.setPc ho hf pc).store hdone none (by simp)

theorem Waits.enqueue (hw : Waits s) (hdone : s.Done m)
    (hm : ∃ f, (s.kind m = some (.lambda f false) ∧ (s.fiber f).status = .waiting m) ∨
      s.kind m = some .oneWay ∨ s.kind m = some .foreign) :
    Waits { s with inbox := s.inbox ++ [m] } := by
  have hlocated (m' : MsgId) :
      State.Located { s with inbox := s.inbox ++ [m] } m' ↔ s.Located m' ∨ m' = m := by
    simp only [State.Located, List.mem_append, List.mem_singleton]
    tauto
  have hnot := hdone.1
  simp only [State.Located, not_or, not_exists] at hnot
  obtain ⟨h1, h2, h3, h4, h5, h6, h7, h8, h9, h10, h11, h12⟩ := hw
  refine ⟨fun m' h => ?_, fun m' g h hk => ?_, ?_, fun h m' hh => ?_, h5, h6, h7, h8, h9, h10, h11,
    h12⟩
  · rcases (hlocated m').mp h with h | rfl
    · exact h1 m' h
    · obtain ⟨g, hg⟩ := hm
      exact ⟨g, hg.imp_left And.left⟩
  · rcases (hlocated m').mp h with h | rfl
    · exact h2 m' g h hk
    · obtain ⟨g', hg⟩ := hm
      have hk' : s.kind m' = some (.lambda g false) := hk
      rw [hk'] at hg
      simp only [Option.some.injEq, Message.lambda.injEq, and_true, reduceCtorEq, or_false] at hg
      obtain ⟨rfl, hst⟩ := hg
      exact hst
  · have hperm : (s.inbox ++ [m] ++ s.remote).Perm (m :: (s.inbox ++ s.remote)) := by
      simp
    refine hperm.nodup_iff.mpr (List.nodup_cons.mpr ⟨?_, h3⟩)
    simp [hnot]
  · refine ⟨?_, (h4 h m' hh).2⟩
    simp only [List.mem_append, List.mem_singleton, not_or]
    refine ⟨(h4 h m' hh).1, ?_⟩
    rintro rfl
    exact hnot.2.2 h hh

theorem Waits.submitRemote (hw : Waits s) (hdone : s.Done m)
    (hm : s.kind m = some (.lambda f false) ∧ (s.fiber f).status = .waiting m) :
    Waits { s with remote := s.remote ++ [m] } := by
  have hlocated (m' : MsgId) :
      State.Located { s with remote := s.remote ++ [m] } m' ↔ s.Located m' ∨ m' = m := by
    simp only [State.Located, List.mem_append, List.mem_singleton]
    tauto
  have hnot := hdone.1
  simp only [State.Located, not_or, not_exists] at hnot
  obtain ⟨h1, h2, h3, h4, h5, h6, h7, h8, h9, h10, h11, h12⟩ := hw
  refine ⟨fun m' h => ?_, fun m' g h hk => ?_, ?_, fun h m' hh => ?_, h5, h6, h7, h8, h9, h10, h11,
    h12⟩
  · rcases (hlocated m').mp h with h | rfl
    · exact h1 m' h
    · exact ⟨f, .inl hm.1⟩
  · rcases (hlocated m').mp h with h | rfl
    · exact h2 m' g h hk
    · have hk' : s.kind m' = some (.lambda g false) := hk
      rw [hm.1] at hk'
      simp only [Option.some.injEq, Message.lambda.injEq, and_true] at hk'
      exact hk' ▸ hm.2
  · simp only [← List.append_assoc]
    refine List.nodup_append.mpr ⟨h3, by simp, fun a ha b hb => ?_⟩
    rintro rfl
    simp only [List.mem_singleton] at hb
    subst hb
    simp [hnot] at ha
  · refine ⟨(h4 h m' hh).1, ?_⟩
    simp only [List.mem_append, List.mem_singleton, not_or]
    refine ⟨(h4 h m' hh).2, ?_⟩
    rintro rfl
    exact hnot.2.2 h hh

theorem Waits.submitAio (hw : Waits s) (hdone : s.Done m) (n : Nat)
    (hm : (s.fiber f).status = .waiting m ∧ ((∃ r, s.heap m = some (.singleIo f r)) ∧ n = 1 ∨
      s.heap m = some (.multiIo f n) ∧ n < 2 ^ 64)) : Waits (s.submitAio m n) := by
  have hzero : s.aio m = 0 ∧ s.ring.count m = 0 := Nat.add_eq_zero_iff.mp hdone.2
  have hring : m ∉ s.ring := by
    rw [← List.count_pos_iff, hzero.2]
    exact Nat.lt_irrefl _
  have hself : (s.submitAio m n).events m = n := by
    simp [State.events, State.submitAio, hzero]
  have hother (m' : MsgId) (hne : m' ≠ m) : (s.submitAio m n).events m' = s.events m' := by
    simp [State.events, State.submitAio, hne]
  obtain ⟨h1, h2, h3, h4, h5, h6, h7, h8, h9, h10, h11, h12⟩ := hw
  refine ⟨h1, h2, h3, h4, h5, fun m' h => ?_, fun m' g r hg h => ?_, fun m' g k hg h => ?_,
    fun m' g c hg => ?_, h10, h11, h12⟩
  · by_cases hne : m' = m
    · subst hne
      refine ⟨f, ?_⟩
      rcases hm.2 with ⟨⟨r, hr⟩, -⟩ | ⟨hr, -⟩
      · exact .inl (State.kind_of_heap hr)
      · exact .inr (.inl (State.kind_of_heap hr))
    · rw [hother m' hne] at h
      exact h6 m' h
  · have hg' : s.heap m' = some (.singleIo g r) := hg
    by_cases hne : m' = m
    · subst hne
      rcases hm.2 with ⟨⟨r', hr⟩, rfl⟩ | ⟨hr, -⟩ <;> rw [hr] at hg' <;> cases hg'
      exact ⟨hm.1, hself, fun hin => absurd hin hring⟩
    · rw [hother m' hne] at h ⊢
      exact h7 m' g r hg' h
  · have hg' : s.heap m' = some (.multiIo g k) := hg
    by_cases hne : m' = m
    · subst hne
      rcases hm.2 with ⟨⟨r', hr⟩, rfl⟩ | ⟨hr, hlt⟩ <;> rw [hr] at hg' <;> cases hg'
      exact ⟨hm.1, hself, hlt⟩
    · rw [hother m' hne] at h ⊢
      exact h8 m' g k hg' h
  · have hg' : s.heap m' = some (.fiberIo g c) := hg
    have hne : m' ≠ m := by
      rintro rfl
      rcases hm.2 with ⟨⟨r', hr⟩, rfl⟩ | ⟨hr, hlt⟩ <;> rw [hr] at hg' <;> cases hg'
    rw [hother m' hne]
    refine ⟨(h9 m' g c hg').1, ?_, (h9 m' g c hg').2.2⟩
    simp only [State.submitAio, Function.update_of_ne hne]
    exact (h9 m' g c hg').2.1

theorem Waits.spawn (hw : Waits s) (ho : Owned s) {handler : Option MsgId}
    (hh : ∀ m, handler = some m → ¬ s.Located m ∧
      ∃ f, (s.kind m = some (.lambda f false) ∧ (s.fiber f).status = .waiting m) ∨
        s.kind m = some .oneWay ∨ s.kind m = some .foreign) : Waits (s.spawn handler) := by
  have hnew := (ho.fiber s.nfibers).fresh (Nat.le_refl _)
  have hhandler (g : FiberId) : ((s.spawn handler).fiber g).handler =
      if g = s.nfibers then handler else (s.fiber g).handler := by
    simp only [State.spawn, State.setFiber, Function.update_apply]
    split <;> rfl
  have hstatus (g : FiberId) (m : MsgId) (h : (s.fiber g).status = .waiting m) :
      ((s.spawn handler).fiber g).status = .waiting m := by
    have hne : g ≠ s.nfibers := by
      rintro rfl
      simp [hnew] at h
    simpa [State.spawn, State.setFiber, Function.update_of_ne hne] using h
  have hlocated (m : MsgId) : (s.spawn handler).Located m ↔ s.Located m ∨ handler = some m := by
    simp only [State.Located, hhandler]
    constructor
    · rintro (h | h | ⟨g, hg⟩)
      · exact .inl (.inl h)
      · exact .inl (.inr (.inl h))
      · split at hg
        · exact .inr hg
        · exact .inl (.inr (.inr ⟨g, hg⟩))
    · rintro ((h | h | ⟨g, hg⟩) | h)
      · exact .inl h
      · exact .inr (.inl h)
      · refine .inr (.inr ⟨g, ?_⟩)
        rw [if_neg]
        · exact hg
        · rintro rfl
          simp [hnew] at hg
      · exact .inr (.inr ⟨s.nfibers, by rw [if_pos rfl, h]⟩)
  have hkind : (s.spawn handler).kind = s.kind := rfl
  have hevents (m : MsgId) : (s.spawn handler).events m = s.events m := rfl
  obtain ⟨h1, h2, h3, h4, h5, h6, h7, h8, h9, h10, h11, h12⟩ := hw
  refine ⟨fun m h => ?_, fun m g h hk => ?_, h3, fun g m h => ?_, fun g g' m h h' => ?_, h6,
    fun m g r hm h => ?_, fun m g n hm h => ?_, fun m g c hm => ?_, h10, h11, h12⟩
  · rcases (hlocated m).mp h with h | h
    · exact h1 m h
    · obtain ⟨-, g, hg⟩ := hh m h
      exact ⟨g, hg.imp_left And.left⟩
  · rcases (hlocated m).mp h with h | h
    · exact hstatus g m (h2 m g h hk)
    · obtain ⟨-, g', hg⟩ := hh m h
      rw [hkind] at hk
      rw [hk] at hg
      simp only [Option.some.injEq, Message.lambda.injEq, and_true, reduceCtorEq, or_false] at hg
      obtain ⟨rfl, hst⟩ := hg
      exact hstatus _ m hst
  · rw [hhandler] at h
    split at h
    · have hn := (hh m h).1
      simp only [State.Located, not_or] at hn
      exact ⟨hn.1, hn.2.1⟩
    · exact h4 g m h
  · rw [hhandler] at h h'
    split at h <;> split at h'
    · simp [*]
    · exact absurd (.inr (.inr ⟨g', h'⟩)) (hh m h).1
    · exact absurd (.inr (.inr ⟨g, h⟩)) (hh m h').1
    · exact h5 g g' m h h'
  · exact ⟨hstatus g m (h7 m g r hm h).1, (h7 m g r hm h).2⟩
  · exact ⟨hstatus g m (h8 m g n hm h).1, (h8 m g n hm h).2⟩
  · exact ⟨(h9 m g c hm).1, (h9 m g c hm).2.1, (h9 m g c hm).2.2.1,
      fun he hc => hstatus g m ((h9 m g c hm).2.2.2 he hc)⟩

theorem Waits.popInbox (hw : Waits s) {rest : List MsgId} (hin : s.inbox = m :: rest) {n k : Nat}
    (hloop : s.loop = .receive n) :
    Waits { s with inbox := rest, loop := .receive k } ∧
      State.Done { s with inbox := rest, loop := .receive k } m := by
  have hsub (m' : MsgId) (h : State.Located { s with inbox := rest, loop := .receive k } m') :
      s.Located m' := by
    rcases h with h | h
    · exact .inl (by rw [hin]; exact List.mem_cons_of_mem _ h)
    · exact .inr h
  have hnodup := hw.nodup
  rw [hin, List.cons_append, List.nodup_cons] at hnodup
  have hempty := hw.idle (by simp [hloop]) (by simp [hloop])
  have hevents : s.events m = 0 := hw.events_of_located (.inl (by simp [hin]))
  obtain ⟨h1, h2, h3, h4, h5, h6, h7, h8, h9, h10, h11, h12⟩ := hw
  refine ⟨⟨fun m' h => h1 m' (hsub m' h), fun m' g h => h2 m' g (hsub m' h), hnodup.2,
    fun g m' h => ⟨fun hr => (h4 g m' h).1 (by rw [hin]; exact List.mem_cons_of_mem _ hr),
      (h4 g m' h).2⟩, h5, h6, h7, h8, h9, by simp, fun _ _ => hempty, h12⟩, ?_, hevents⟩
  rintro (h | h | ⟨g, h⟩)
  · exact hnodup.1 (List.mem_append_left _ h)
  · exact hnodup.1 (List.mem_append_right _ h)
  · exact (h4 g m h).1 (by simp [hin])

theorem Waits.receive (hw : Waits s) (ho : Owned s) {rest : List MsgId} (hin : s.inbox = m :: rest)
    {n k : Nat} (hloop : s.loop = .receive n) (hf : s.active = none) :
    Waits ({ s with inbox := rest, loop := .receive k }.processFn m) := by
  obtain ⟨hpop, hdone⟩ := hw.popInbox hin (k := k) hloop
  have hop : Owned { s with inbox := rest, loop := .receive k } :=
    ho.congr rfl rfl rfl rfl rfl rfl rfl fun hne => absurd hf hne
  have hl : s.Located m := .inl (by simp [hin])
  obtain ⟨f, hk⟩ := hw.located m hl
  have hspawn : Waits (State.spawn { s with inbox := rest, loop := .receive k } (some m)) := by
    refine hpop.spawn hop fun m' h => ?_
    cases h
    refine ⟨hdone.1, f, ?_⟩
    rcases hk with hk | hk | hk
    · exact .inl ⟨hk, hw.lambda m f hl hk⟩
    · exact .inr (.inl hk)
    · exact .inr (.inr hk)
  simp only [State.processFn]
  cases hheap : s.heap m with
  | none => simp [State.kind, hheap] at hk
  | some msg =>
    simp only
    have hk' := State.kind_of_heap hheap
    rw [hk'] at hk
    split
    · rename_i hret
      cases msg with
      | lambda g r => exact hpop.resume (hw.lambda m g hl hk') hdone
      | _ => simp [Message.erase, Message.isReturn] at hk hret
    · exact hspawn

theorem Waits.popRing (hw : Waits s) {rest : List MsgId} (hring : s.ring = m :: rest)
    (hloop : s.loop = .drain) {msg : Message} (msg' : Message) (hheap : s.heap m = some msg)
    (herase : msg'.erase = msg.erase) (hsingle : ∀ f r, msg' = .singleIo f r → msg = msg')
    (hmulti : ∀ f n, msg' = .multiIo f n → msg = .multiIo f (n + 1))
    (hsocket : ∀ f c, msg' = .fiberIo f c → c < 2 ^ 64) :
    Waits ({ s with ring := rest }.store m (some msg')) ∧ ¬ s.Located m ∧
      State.events ({ s with ring := rest }.store m (some msg')) m + 1 = s.events m := by
  have hkind : ({ s with ring := rest }.store m (some msg')).kind = s.kind :=
    kind_store_eq (s := { s with ring := rest }) hheap herase
  have hself : State.events ({ s with ring := rest }.store m (some msg')) m + 1 = s.events m := by
    simp [State.events, State.store, hring, Nat.add_assoc]
  have hother (m' : MsgId) (hne : m' ≠ m) :
      State.events ({ s with ring := rest }.store m (some msg')) m' = s.events m' := by
    simp [State.events, State.store, hring, List.count_cons_of_ne (Ne.symm hne)]
  have hheap' (m' : MsgId) (hne : m' ≠ m) :
      ({ s with ring := rest }.store m (some msg')).heap m' = s.heap m' := by
    simp [State.store, hne]
  have hnew : ({ s with ring := rest }.store m (some msg')).heap m = some msg' := by
    simp [State.store]
  have hpos : 0 < s.events m := by
    rw [← hself]
    exact Nat.succ_pos _
  have hloc : ¬ s.Located m := fun hl => Nat.ne_of_gt hpos (hw.events_of_located hl)
  refine ⟨?_, hloc, hself⟩
  obtain ⟨h1, h2, h3, h4, h5, h6, h7, h8, h9, h10, h11, h12⟩ := hw
  refine ⟨?_, ?_, h3, h4, h5, fun m' h => ?_, fun m' g r hm h => ?_, fun m' g n hm h => ?_,
    fun m' g c hm => ?_, fun l hl => ?_, fun _ hd => absurd hloop hd, h12⟩
  · rw [hkind]
    exact h1
  · rw [hkind]
    exact h2
  · rw [hkind]
    refine h6 m' ?_
    by_cases hne : m' = m
    · exact hne ▸ hpos
    · rwa [hother m' hne] at h
  · by_cases hne : m' = m
    · subst hne
      rw [hnew] at hm
      have hmsg := hsingle g r (Option.some.inj hm)
      have hone := (h7 m' g r (by rw [hheap, hmsg, Option.some.inj hm]) hpos).2.1
      omega
    · rw [hheap' m' hne] at hm
      rw [hother m' hne] at h ⊢
      obtain ⟨hst, hone, hret⟩ := h7 m' g r hm h
      exact ⟨hst, hone, fun hr => hret (by rw [hring]; exact List.mem_cons_of_mem _ hr)⟩
  · by_cases hne : m' = m
    · subst hne
      rw [hnew] at hm
      have hmsg := hmulti g n (Option.some.inj hm)
      obtain ⟨hst, hn, hlt⟩ := h8 m' g (n + 1) (by rw [hheap, hmsg]) hpos
      exact ⟨hst, by omega, by omega⟩
    · rw [hheap' m' hne] at hm
      rw [hother m' hne] at h ⊢
      exact h8 m' g n hm h
  · by_cases hne : m' = m
    · subst hne
      rw [hnew] at hm
      have hc := Option.some.inj hm
      subst hc
      cases msg <;> simp only [Message.erase, reduceCtorEq, Message.fiberIo.injEq] at herase
      obtain ⟨-, haio, hle, -⟩ := h9 m' _ _ hheap
      exact ⟨hsocket g c rfl, haio, by omega, fun h => by omega⟩
    · rw [hheap' m' hne] at hm
      rw [hother m' hne]
      exact h9 m' g c hm
  · have hl' : s.loop = .poll l := hl
    simp [hloop] at hl'

theorem predSize_lt (n : Nat) : predSize n < 2 ^ 64 := Nat.mod_lt _ (by decide)

theorem predSize_succ {n : Nat} (h : n + 1 < 2 ^ 64) : predSize (n + 1) = n := by
  simp only [predSize]
  omega

theorem predSize_eq_zero {n : Nat} (h : n < 2 ^ 64) : predSize n = 0 ↔ n = 1 := by
  simp only [predSize]
  omega

theorem Waits.drain (hw : Waits s) {rest : List MsgId} (hring : s.ring = m :: rest)
    (hloop : s.loop = .drain) : Waits ({ s with ring := rest }.processFn m) := by
  have hpos : 0 < s.events m := by
    simp only [State.events, hring, List.count_cons_self]
    omega
  obtain ⟨f, hk⟩ := hw.events m hpos
  simp only [State.processFn]
  cases hheap : s.heap m with
  | none => simp [State.kind, hheap] at hk
  | some msg =>
    simp only
    rw [State.kind_of_heap hheap] at hk
    cases msg <;> simp only [Message.erase, Option.some.injEq, reduceCtorEq, false_or, or_false] at hk
    case singleIo g r =>
      obtain ⟨hst, hone, hret⟩ := hw.single m g r hheap hpos
      have hr : r = true := hret (by simp [hring])
      subst hr
      obtain ⟨hpop, hloc, hev⟩ := hw.popRing hring hloop (.singleIo g true) hheap rfl (by simp) (by simp)
        (by simp)
      have hsame : { s with ring := rest }.store m (some (.singleIo g true)) =
          { s with ring := rest } := by
        simp only [State.store, ← hheap, Function.update_eq_self]
      rw [hsame] at hpop hev
      simp only [Message.isReturn, if_true, State.finish]
      exact hpop.resume hst ⟨hloc, by omega⟩
    case multiIo g n =>
      obtain ⟨hst, hn, hlt⟩ := hw.multi m g n hheap hpos
      obtain ⟨n, rfl⟩ : ∃ k, n = k + 1 := ⟨n - 1, by omega⟩
      obtain ⟨hpop, hloc, hev⟩ := hw.popRing hring hloop (.multiIo g n) hheap
        (by simp only [Message.erase]) (by simp) (by simp) (by simp)
      simp only [Message.isReturn, if_true, State.finish, predSize_succ hlt]
      split
      · exact hpop.resume hst ⟨hloc, by omega⟩
      · exact hpop
    case fiberIo g c =>
      obtain ⟨hc, haio, hle, hst⟩ := hw.socket m g c hheap
      obtain ⟨hpop, hloc, hev⟩ := hw.popRing hring hloop (.fiberIo g (predSize c)) hheap
        (by simp only [Message.erase]) (by simp) (by simp) fun f' c' h => by
          simp only [Message.fiberIo.injEq] at h
          exact h.2 ▸ predSize_lt c
      simp only [Message.isReturn, if_true, State.finish]
      split
      · rename_i hzero
        exact hpop.resume (hst hpos ((predSize_eq_zero hc).mp hzero)) ⟨hloc, by omega⟩
      · exact hpop

/-- The condition on the poller: it reports a descriptor only while the message registered for it
exists and, if the event makes that message wake its fiber, only while the fiber is in its wait. -/
def pollOk (s : State) : Action → Bool
  | .pollSocket fd =>
    match s.epoll fd with
    | none => true
    | some m =>
      match s.heap m with
      | some (.fiberIo f count) => count ≠ 1 || (s.fiber f).status = .waiting m
      | _ => false
  | _ => true

theorem pollOk_socket {fd : Fd} (h : pollOk s (.pollSocket fd)) (he : s.epoll fd = some m) :
    ∃ f count, s.heap m = some (.fiberIo f count) ∧
      (count = 1 → (s.fiber f).status = .waiting m) := by
  simp only [pollOk, he] at h
  split at h
  · rename_i f count hheap
    refine ⟨f, count, hheap, fun hc => ?_⟩
    simpa [hc] using h
  · cases h

theorem Waits.pollSocket (hw : Waits s) (ho : Owned s) {fd : Fd} {l : List Fd}
    (hloop : s.loop = .poll l) (he : s.epoll fd = some m) (hfd : fd ∉ l) {count : Nat}
    (hheap : s.heap m = some (.fiberIo f count))
    (hst : count = 1 → (s.fiber f).status = .waiting m) :
    Waits { s with ring := s.ring ++ [m], loop := .poll (l ++ [fd]) } := by
  have hk := State.kind_of_heap hheap
  have hring : m ∉ s.ring := by
    intro hin
    obtain ⟨fd', hl, he'⟩ := hw.reported l hloop m f hin hk
    exact hfd (ho.data_inj fd fd' m he he' ▸ hl)
  have hzero : s.events m = 0 := by
    simp [State.events, (hw.socket m f count hheap).2.1, List.count_eq_zero_of_not_mem hring]
  have hself : s.aio m + (s.ring ++ [m]).count m = 1 := by
    have hz : s.aio m + s.ring.count m = 0 := hzero
    simp only [List.count_append, List.count_singleton_self]
    omega
  have hother (m' : MsgId) (hne : m' ≠ m) :
      s.aio m' + (s.ring ++ [m]).count m' = s.events m' := by
    simp [State.events, List.count_append, Ne.symm hne]
  obtain ⟨h1, h2, h3, h4, h5, h6, h7, h8, h9, h10, h11, h12⟩ := hw
  refine ⟨h1, h2, h3, h4, h5, fun m' h => ?_, fun m' g r hm h => ?_, fun m' g n hm h => ?_,
    fun m' g c hm => ?_, fun l' hl' m' g hin hk' => ?_,
    fun hne => absurd rfl (hne (l ++ [fd])), h12⟩ <;> simp only [State.events] at *
  · by_cases hne : m' = m
    · exact ⟨f, .inr (.inr (hne ▸ hk))⟩
    · rw [hother m' hne] at h
      exact h6 m' h
  · have hne : m' ≠ m := by
      rintro rfl
      simp [hheap] at hm
    rw [hother m' hne] at h ⊢
    obtain ⟨g1, g2, g3⟩ := h7 m' g r hm h
    exact ⟨g1, g2, by simpa [hne] using g3⟩
  · have hne : m' ≠ m := by
      rintro rfl
      simp [hheap] at hm
    rw [hother m' hne] at h ⊢
    exact h8 m' g n hm h
  · by_cases hne : m' = m
    · subst hne
      rw [hheap] at hm
      cases hm
      exact ⟨(h9 m' f count hheap).1, (h9 m' f count hheap).2.1, Nat.le_of_eq hself, fun _ hc => hst hc⟩
    · rw [hother m' hne]
      exact h9 m' g c hm
  · cases hl'
    rcases List.mem_append.mp hin with hin | hin
    · obtain ⟨fd', hl', he'⟩ := h10 l hloop m' g hin hk'
      exact ⟨fd', List.mem_append_left _ hl', he'⟩
    · rw [List.mem_singleton.mp hin]
      exact ⟨fd, by simp, he⟩

theorem Waits.pollFile (hw : Waits s) {l : List Fd} (hloop : s.loop = .poll l) (hm : 0 < s.aio m)
    (hsingle : ∀ f r, s.heap m = some (.singleIo f r) → r = true) :
    Waits { s with ring := s.ring ++ [m], aio := Function.update s.aio m (s.aio m - 1) } := by
  have hevents (m' : MsgId) : State.events { s with
      ring := s.ring ++ [m], aio := Function.update s.aio m (s.aio m - 1) } m' = s.events m' := by
    by_cases hne : m' = m
    · subst hne
      simp only [State.events, Function.update_self, List.count_append, List.count_singleton_self]
      omega
    · simp [State.events, hne, List.count_append, Ne.symm hne]
  have hpos : 0 < s.events m := Nat.lt_of_lt_of_le hm (Nat.le_add_right _ _)
  obtain ⟨h1, h2, h3, h4, h5, h6, h7, h8, h9, h10, h11, h12⟩ := hw
  refine ⟨h1, h2, h3, h4, h5, fun m' h => ?_, fun m' g r hg h => ?_, fun m' g n hg h => ?_,
    fun m' g c hg => ?_, fun l' hl' m' g hin hk => ?_, fun hne => absurd hloop (hne l), h12⟩
  · rw [hevents] at h
    exact h6 m' h
  · rw [hevents] at h ⊢
    obtain ⟨g1, g2, g3⟩ := h7 m' g r hg h
    refine ⟨g1, g2, fun hin => ?_⟩
    rcases List.mem_append.mp hin with hin | hin
    · exact g3 hin
    · rw [List.mem_singleton] at hin
      subst hin
      exact hsingle g r hg
  · rw [hevents] at h ⊢
    exact h8 m' g n hg h
  · rw [hevents]
    obtain ⟨g1, g2, g3, g4⟩ := h9 m' g c hg
    refine ⟨g1, ?_, g3, g4⟩
    have hne : m' ≠ m := by
      rintro rfl
      omega
    simp only [Function.update_of_ne hne]
    exact g2
  · rcases List.mem_append.mp hin with hin | hin
    · exact h10 l' hl' m' g hin hk
    · rw [List.mem_singleton] at hin
      subst hin
      obtain ⟨msg, hmsg, herase⟩ := Option.map_eq_some_iff.mp hk
      cases msg <;> simp only [Message.erase, reduceCtorEq] at herase
      have hz := (h9 m' _ _ hmsg).2.1
      omega

theorem Waits.process_singleIo (hw : Waits s) {r : Bool} (hm : s.heap m = some (.singleIo f r)) :
    Waits (s.store m (some (.singleIo f true))) := by
  have hkind : (s.store m (some (.singleIo f true))).kind = s.kind :=
    kind_store_eq hm (by simp only [Message.erase])
  have hother (m' : MsgId) (hne : m' ≠ m) :
      (s.store m (some (.singleIo f true))).heap m' = s.heap m' := by
    simp [State.store, hne]
  have hnew : (s.store m (some (.singleIo f true))).heap m = some (.singleIo f true) := by
    simp [State.store]
  obtain ⟨h1, h2, h3, h4, h5, h6, h7, h8, h9, h10, h11, h12⟩ := hw
  refine ⟨by rw [hkind]; exact h1, by rw [hkind]; exact h2, h3, h4, h5, by rw [hkind]; exact h6,
    fun m' g r' hg he => ?_, fun m' g n hg he => ?_, fun m' g c hg => ?_, by rw [hkind]; exact h10,
    h11, h12⟩
  · by_cases hne : m' = m
    · subst hne
      rw [hnew] at hg
      cases hg
      exact ⟨(h7 m' f r hm he).1, (h7 m' f r hm he).2.1, fun _ => rfl⟩
    · rw [hother m' hne] at hg
      exact h7 m' g r' hg he
  · have hne : m' ≠ m := by
      rintro rfl
      simp [hnew] at hg
    rw [hother m' hne] at hg
    exact h8 m' g n hg he
  · have hne : m' ≠ m := by
      rintro rfl
      simp [hnew] at hg
    rw [hother m' hne] at hg
    exact h9 m' g c hg

theorem Waits.eraseRemote (hw : Waits s) (hm : m ∈ s.remote) :
    Waits { s with remote := s.remote.erase m } ∧
      State.Done { s with remote := s.remote.erase m } m := by
  have hnodup := List.nodup_append.mp hw.nodup
  have hnot : m ∉ s.remote.erase m := hnodup.2.1.not_mem_erase
  have hin : m ∉ s.inbox := fun hi => hnodup.2.2 m hi m hm rfl
  have hsub (m' : MsgId) (h : State.Located { s with remote := s.remote.erase m } m') :
      s.Located m' := h.imp_right (Or.imp_left List.mem_of_mem_erase)
  have hev := hw.events_of_located (.inr (.inl hm))
  obtain ⟨h1, h2, h3, h4, h5, h6, h7, h8, h9, h10, h11, h12⟩ := hw
  refine ⟨⟨fun m' h => h1 m' (hsub m' h), fun m' g h => h2 m' g (hsub m' h), ?_,
    fun g m' h => ⟨(h4 g m' h).1, fun hr => (h4 g m' h).2 (List.mem_of_mem_erase hr)⟩, h5, h6, h7,
    h8, h9, h10, h11, h12⟩, ?_, hev⟩
  · exact h3.sublist ((List.erase_sublist).append_left s.inbox)
  · rintro (h | h | ⟨g, h⟩)
    · exact hin h
    · exact hnot h
    · exact (h4 g m h).2 hm

theorem Waits.endHandler (hw : Waits s) (ho : Owned s) (hf : s.active = some f)
    (hm : (s.fiber f).handler = some m) :
    Waits { s.setFiber f ⟨.terminated, .user, none⟩ with active := none } ∧
      State.Done { s.setFiber f ⟨.terminated, .user, none⟩ with active := none } m := by
  have hactive := (ho.fiber f).active.mpr hf
  have hhandler (g : FiberId) :
      ((s.setFiber f ⟨.terminated, .user, none⟩).fiber g).handler =
        if g = f then none else (s.fiber g).handler := by
    simp only [State.setFiber, Function.update_apply]
    split <;> rfl
  have hstatus (g : FiberId) (m' : MsgId) (h : (s.fiber g).status = .waiting m') :
      ((s.setFiber f ⟨.terminated, .user, none⟩).fiber g).status = .waiting m' := by
    have hne : g ≠ f := by
      rintro rfl
      simp [hactive] at h
    simpa [State.setFiber, Function.update_of_ne hne] using h
  have hsub (m' : MsgId)
      (h : State.Located { s.setFiber f ⟨.terminated, .user, none⟩ with active := none } m') :
      s.Located m' := by
    rcases h with h | h | ⟨g, h⟩
    · exact .inl h
    · exact .inr (.inl h)
    · simp only [hhandler] at h
      split at h
      · cases h
      · exact .inr (.inr ⟨g, h⟩)
  have hev := hw.events_of_located (.inr (.inr ⟨f, hm⟩))
  obtain ⟨h1, h2, h3, h4, h5, h6, h7, h8, h9, h10, h11, h12⟩ := hw
  refine ⟨⟨fun m' h => h1 m' (hsub m' h), fun m' g h hk => hstatus g m' (h2 m' g (hsub m' h) hk),
    h3, fun g m' h => ?_, fun g g' m' h h' => ?_, h6, fun m' g r hg he => ?_,
    fun m' g n hg he => ?_, fun m' g c hg => ?_, h10, h11, h12⟩, ?_, hev⟩
  · simp only [hhandler] at h
    split at h
    · cases h
    · exact h4 g m' h
  · simp only [hhandler] at h h'
    split at h <;> split at h'
    · cases h
    · cases h
    · cases h'
    · exact h5 g g' m' h h'
  · exact ⟨hstatus g m' (h7 m' g r hg he).1, (h7 m' g r hg he).2⟩
  · exact ⟨hstatus g m' (h8 m' g n hg he).1, (h8 m' g n hg he).2⟩
  · exact ⟨(h9 m' g c hg).1, (h9 m' g c hg).2.1, (h9 m' g c hg).2.2.1,
      fun he hc => hstatus g m' ((h9 m' g c hg).2.2.2 he hc)⟩
  · rintro (h | h | ⟨g, h⟩)
    · exact (h4 f m hm).1 h
    · exact (h4 f m hm).2 h
    · simp only [hhandler] at h
      split at h
      · cases h
      · rename_i hne
        exact hne (h5 g f m h hm)

theorem Waits.setStatus (hw : Waits s) (hf : ∀ m, (s.fiber f).status ≠ .waiting m) (st : Status)
    (active : Option FiberId) : Waits { s.setStatus f st with active := active } := by
  refine hw.congr rfl (fun g => ?_) (fun g m h => ?_) rfl rfl rfl rfl (fun _ _ => rfl) rfl rfl <;>
    simp only [State.setStatus, State.setFiber, Function.update_apply]
  · split
    · simp [*]
    · rfl
  · rw [if_neg]
    · exact h
    · rintro rfl
      exact hf m h

theorem Waits.stepLoop (hw : Waits s) (ho : Owned s) (hf : s.active = none) {a : Action}
    (hok : pollOk s a) (h : stepLoop s a = some t) : Waits t := by
  cases a <;> simp only [LinuxIo.stepLoop, reduceCtorEq] at h
  case eventLoop =>
    split at h
    · rename_i l hloop
      cases h
      obtain ⟨h1, h2, h3, h4, h5, h6, h7, h8, h9, h10, h11, h12⟩ := hw
      exact ⟨h1, h2, h3, h4, h5, h6, h7, h8, h9, by simp, by simp, h12⟩
    · rename_i hloop
      split at h
      · cases h
        exact hw.drain (by assumption) hloop
      · rename_i hnil
        cases h
        obtain ⟨h1, h2, h3, h4, h5, h6, h7, h8, h9, h10, h11, h12⟩ := hw
        exact ⟨h1, h2, h3, h4, h5, h6, h7, h8, h9, by simp, fun _ _ => hnil, h12⟩
    · rename_i n hloop
      split at h <;> cases h
      exact hw.receive ho (by assumption) hloop hf
    · rename_i hloop
      cases h
      have hnil := hw.idle (by simp [hloop]) (by simp [hloop])
      obtain ⟨h1, h2, h3, h4, h5, h6, h7, h8, h9, h10, h11, h12⟩ := hw
      exact ⟨h1, h2, h3, h4, h5, h6, h7, h8, h9, by simp, fun _ _ => hnil, h12⟩
    · rename_i hloop
      cases h
      have hnil := hw.idle (by simp [hloop]) (by simp [hloop])
      obtain ⟨h1, h2, h3, h4, h5, h6, h7, h8, h9, h10, h11, h12⟩ := hw
      exact ⟨h1, h2, h3, h4, h5, h6, h7, h8, h9, by simp [hnil], fun _ _ => hnil, h12⟩
  case pollSocket fd =>
    split at h
    · rename_i l m hloop he
      split at h <;> cases h
      rename_i hc
      obtain ⟨f, count, hheap, hst⟩ := pollOk_socket hok he
      exact hw.pollSocket ho hloop he hc.1 hheap hst
    · cases h
  case pollFile m =>
    split at h
    · rename_i l hloop
      split at h
      · rename_i hc
        split at h
        · rename_i f r hheap
          cases h
          have hp := (hw.process_singleIo hheap).pollFile (m := m) hloop hc.1
            (by simp [State.store])
          exact hp.congr rfl (fun _ => rfl) (fun _ _ h => h) rfl rfl rfl rfl (fun _ _ => rfl) rfl rfl
        · rename_i f n hheap
          cases h
          exact hw.pollFile hloop hc.1 (by simp [hheap])
        · rename_i hsingle hmulti
          have hpos : 0 < s.events m := Nat.lt_of_lt_of_le hc.1 (Nat.le_add_right _ _)
          obtain ⟨f, hk⟩ := hw.events m hpos
          cases hheap : s.heap m with
          | none => simp [State.kind, hheap] at hk
          | some msg =>
            rw [State.kind_of_heap hheap] at hk
            cases msg with
            | fiberIo g c =>
              have hz := (hw.socket m g c hheap).2.1
              omega
            | singleIo g r => exact absurd hheap (hsingle g r)
            | multiIo g n => exact absurd hheap (hmulti g n)
            | _ => simp [Message.erase] at hk
      · cases h
    · cases h
  case schedule f =>
    split at h <;> cases h
    rename_i hc
    exact hw.setStatus (by simp [hc.2]) .active (some f)
  case wake f =>
    split at h <;> cases h
    rename_i hb
    exact hw.setStatus (by simp [hb]) .ready s.active

theorem Waits.stepRemote (hw : Waits s) (ho : Owned s) {a : Action} (h : stepRemote s a = some t) :
    Waits t := by
  cases a <;> simp only [LinuxIo.stepRemote, reduceCtorEq] at h
  case remoteReply m =>
    split at h
    · rename_i f r hheap
      split at h <;> cases h
      rename_i hm
      have hst := hw.lambda m f (.inr (.inl hm)) (State.kind_of_heap hheap)
      obtain ⟨hw', hdone⟩ := hw.eraseRemote hm
      have hs := hw'.store hdone (some (.lambda f true)) (by simp)
      refine hs.enqueue hdone ⟨f, .inl ⟨?_, hst⟩⟩
      simp [State.kind, State.store, Message.erase]
    · cases h
  case remoteRequest =>
    cases h
    have hdone := hw.done_of_fresh (ho.heap s.nmsgs (Nat.le_refl _))
    refine (hw.alloc ho .foreign (by simp)).enqueue hdone ⟨0, .inr (.inr ?_)⟩
    simp [kind_alloc, Message.erase]

theorem Waits.stepFiber (hw : Waits s) (ho : Owned s) (hf : s.active = some f) {a : Action}
    (h : stepFiber s f a = some t) : Waits t := by
  have hactive := (ho.fiber f).active.mpr hf
  have hfresh := hw.done_of_fresh (ho.heap s.nmsgs (Nat.le_refl _))
  cases a <;> simp only [LinuxIo.stepFiber, reduceCtorEq] at h
  case yield =>
    split at h <;> cases h
    exact hw.setStatus (by simp [hactive]) .ready none
  case block linked =>
    split at h <;> cases h
    exact hw.setStatus (by simp [hactive]) (.blocked linked) none
  case wake g =>
    split at h <;> cases h
    rename_i hb
    exact hw.setStatus (by simp [hb]) .ready s.active
  case spawn =>
    cases h
    exact hw.spawn ho (by simp)
  case terminate =>
    split at h <;> cases h
    exact hw.setStatus (by simp [hactive]) .terminated none
  case handlerEnd =>
    split at h
    · rename_i m hpc hm
      have hl : s.Located m := .inr (.inr ⟨f, hm⟩)
      obtain ⟨g, hk⟩ := hw.located m hl
      obtain ⟨hw', hdone⟩ := hw.endHandler ho hf hm
      split at h
      · rename_i g' r hheap
        cases h
        have hst := hw.lambda m g' hl (State.kind_of_heap hheap)
        have hne : g' ≠ f := by
          rintro rfl
          simp [hactive] at hst
        refine (hw'.store hdone (some (.lambda g' true)) (by simp)).enqueue hdone ⟨g', .inl ⟨?_, ?_⟩⟩
        · simp [State.kind, State.store, Message.erase]
        · simpa [State.store, State.setFiber, Function.update_of_ne hne] using hst
      · cases h
        exact hw'.store hdone none (by simp)
      · cases h
        exact hw'
      · rename_i hlambda honeWay hforeign
        cases hheap : s.heap m with
        | none => simp [State.kind, hheap] at hk
        | some msg =>
          rw [State.kind_of_heap hheap] at hk
          cases msg with
          | lambda g r => exact absurd hheap (hlambda g r)
          | oneWay => exact absurd hheap honeWay
          | foreign => exact absurd hheap hforeign
          | _ => simp [Message.erase] at hk
    · cases h
  case runAt remote =>
    split at h
    · have hs := (hw.alloc ho (.lambda f false) (by simp)).suspend (ho.alloc _) hf s.nmsgs
        (.runAt s.nmsgs)
      have hdone : State.Done ((s.alloc (.lambda f false)).suspend f s.nmsgs (.runAt s.nmsgs))
          s.nmsgs := State.Done.suspend hfresh f _ _
      have hk : ((s.alloc (.lambda f false)).suspend f s.nmsgs (.runAt s.nmsgs)).kind s.nmsgs =
          some (.lambda f false) := by
        change (s.alloc (.lambda f false)).kind s.nmsgs = _
        simp [kind_alloc, Message.erase]
      have hst : (((s.alloc (.lambda f false)).suspend f s.nmsgs (.runAt s.nmsgs)).fiber f).status =
          .waiting s.nmsgs := by
        simp [State.suspend, State.setFiber]
      split at h <;> cases h
      · exact hs.submitRemote hdone ⟨hk, hst⟩
      · exact hs.enqueue hdone ⟨f, .inl ⟨hk, hst⟩⟩
    · cases h
  case runAtReturn =>
    split at h <;> cases h
    rename_i m hpc
    exact hw.return ho hf (by rw [hpc, Pc.owned]) .user
  case runAtAsync remote =>
    split at h
    · split at h <;> cases h
      · exact hw
      · refine (hw.alloc ho .oneWay (by simp)).enqueue hfresh ⟨0, .inr (.inl ?_)⟩
        simp [kind_alloc, Message.erase]
    · cases h

theorem Waits.stepFile (hw : Waits s) (ho : Owned s) (hf : s.active = some f) {a : Action}
    (h : stepFile s f a = some t) : Waits t := by
  have howned := (ho.fiber f).owned
  cases a <;> simp only [LinuxIo.stepFile, reduceCtorEq] at h
  case fileIo =>
    split at h <;> cases h
    exact (hw.alloc ho (.singleIo f false) (by simp)).setPc (ho.alloc _) hf (.singleSubmit s.nmsgs)
  case processBatch total =>
    split at h <;> cases h
    exact (hw.alloc ho (.multiIo f total) (by simp)).setPc (ho.alloc _) hf
      (.batchSubmit s.nmsgs total 0)
  case ioSubmit res =>
    split at h
    · rename_i m hpc
      have hdone := hw.done_of_owned ho hf (by rw [hpc, Pc.owned])
      split at h
      · cases h
        exact hw.return ho hf (by rw [hpc, Pc.owned]) .user
      · split at h
        · cases h
          exact hw
        · split at h <;> cases h
          obtain ⟨msg, hheap, herase⟩ := Option.map_eq_some_iff.mp (howned m _ (by rw [hpc, Pc.owned]))
          cases msg <;> simp only [Message.erase, reduceCtorEq, Message.singleIo.injEq] at herase
          rename_i g r
          obtain rfl := herase.1
          refine (hw.suspend ho hf m (.singleWait m)).submitAio (hdone.suspend _ _ _) 1
            ⟨?_, .inl ⟨⟨r, hheap⟩, rfl⟩⟩
          simp [State.suspend, State.setFiber]
    · rename_i m total done hpc
      have hdone := hw.done_of_owned ho hf (by rw [hpc, Pc.owned])
      split at h
      · split at h
        · cases h
          exact hw.return ho hf (by rw [hpc, Pc.owned]) .user
        · split at h <;> cases h
          rename_i hres
          obtain ⟨msg, hheap, herase⟩ := Option.map_eq_some_iff.mp (howned m _ (by rw [hpc, Pc.owned]))
          have hst : Owned (s.store m (some (.multiIo f res.toNat))) :=
            ho.store hheap (by rw [herase]; simp only [Message.erase])
          have hws := hw.store hdone (some (.multiIo f res.toNat)) (by simp)
          refine (hws.suspend hst hf m (.batchWait m total done res.toNat)).submitAio (f := f)
            (State.Done.suspend hdone _ _ _) res.toNat ⟨?_, .inr ⟨?_, ?_⟩⟩
          · simp [State.suspend, State.setFiber]
          · simp [State.suspend, State.setFiber, State.store]
          · omega
      · cases h
    · cases h
  case ioReturn =>
    split at h
    · cases h
      rename_i m hpc
      exact hw.return ho hf (by rw [hpc, Pc.owned]) .user
    · cases h
      exact hw.setPc ho hf _
    · split at h <;> cases h
      rename_i m total done hpc _
      exact hw.return ho hf (by rw [hpc, Pc.owned]) .user
    · cases h

theorem Waits.register (hw : Waits s) (hloop : s.loop = .yielded) (fd : Fd) (data : Option MsgId) :
    Waits (s.register fd data) :=
  hw.congr rfl (fun _ => rfl) (fun _ _ h => h) rfl rfl rfl rfl (by simp [hloop]) rfl rfl

theorem Waits.setSocket (hw : Waits s) (fd : Fd) (x : Socket) : Waits (s.setSocket fd x) :=
  hw.congr rfl (fun _ => rfl) (fun _ _ h => h) rfl rfl rfl rfl (fun _ _ => rfl) rfl rfl

theorem Waits.stepSocket (hw : Waits s) (ho : Owned s) (hf : s.active = some f) {a : Action}
    (h : stepSocket s f a = some t) : Waits t := by
  have hloop := ho.loop f hf
  have hsetPc {s' : State} (hw' : Waits s') (hfiber : s'.fiber = s.fiber) (pc : Pc) :
      Waits (s'.setPc f pc) := by
    have hactive := (ho.fiber f).active.mpr hf
    refine hw'.congr rfl (fun g => ?_) (fun g m hg => ?_) rfl rfl rfl rfl (fun _ _ => rfl) rfl rfl <;>
      simp only [State.setPc, State.setFiber, Function.update_apply]
    · split
      · simp [*]
      · rfl
    · rw [if_neg]
      · exact hg
      · rintro rfl
        simp [hfiber, hactive] at hg
  cases a <;> simp only [LinuxIo.stepSocket, reduceCtorEq] at h
  case listen fd =>
    split at h <;> cases h
    exact hw.setSocket fd .server
  case closeServer fd =>
    split at h <;> cases h
    exact (hw.register hloop fd none).setSocket fd .closed
  case accept fd =>
    split at h <;> cases h
    exact hw.setPc ho hf _
  case acceptResult r =>
    split at h
    · rename_i fd hpc
      split at h
      · rename_i cfd
        have ha := hw.alloc ho (.fiberIo f 1) (by simp)
        split at h
        · split at h <;> cases h
          · exact hsetPc (hw.register hloop cfd none) rfl .user
          · exact hsetPc ((ha.register hloop cfd _).setSocket cfd _) rfl .user
        · cases h
      · split at h <;> cases h
        · exact (hw.setPc ho hf .user).congr rfl (fun _ => rfl) (fun _ _ h => h) rfl rfl rfl rfl
            (fun _ _ => rfl) rfl rfl
        · have ha := (hw.alloc ho (.fiberIo f 1) (by simp)).suspend (ho.alloc _) hf s.nmsgs
            (.acceptWait fd s.nmsgs)
          exact ha.register hloop fd (some s.nmsgs)
      · cases h
        exact hw.setPc ho hf .user
    · cases h
  case acceptContinue =>
    split at h <;> cases h
    rename_i fd m hpc
    exact hw.return ho hf (by rw [hpc, Pc.owned]) _
  case transfer fd =>
    split at h
    · split at h
      · split at h <;> cases h
        · exact hw.setPc ho hf _
        · exact hw.congr rfl (fun _ => rfl) (fun _ _ h => h) rfl rfl rfl rfl (fun _ _ => rfl) rfl rfl
      · cases h
        exact hw.congr rfl (fun _ => rfl) (fun _ _ h => h) rfl rfl rfl rfl (fun _ _ => rfl) rfl rfl
    · cases h
  case transferResult res =>
    split at h
    · split at h
      · split at h <;> cases h
        · exact hw.suspend ho hf _ _
        · exact hw.setPc ho hf _
      · cases h
    · cases h
  case closeConnection fd =>
    split at h
    · split at h <;> cases h
      rename_i m hpc hconn _
      obtain ⟨-, g, hk⟩ := ho.connection fd m hconn
      obtain ⟨msg, hheap, herase⟩ := Option.map_eq_some_iff.mp hk
      cases msg <;> simp only [Message.erase, reduceCtorEq, Message.fiberIo.injEq] at herase
      have hdone : s.Done m := by
        refine ⟨fun hl => ?_, ?_⟩
        · obtain ⟨g', hg'⟩ := hw.located m hl
          simp [hk] at hg'
        · simp [State.events, (hw.socket m _ _ hheap).2.1, hw.ring_nil ho hf]
      exact ((hw.register hloop fd none).store hdone none (by simp)).setSocket fd .closed
    · cases h

theorem Waits.step (hw : Waits s) (ho : Owned s) {a : Action} (hok : pollOk s a)
    (h : step s a = some t) : Waits t := by
  simp only [LinuxIo.step] at h
  split at h
  · cases h
  · rcases Option.or_eq_some_iff.mp h with h | ⟨-, h⟩
    · exact hw.stepRemote ho h
    · split at h
      · exact hw.stepLoop ho (by assumption) hok h
      · rename_i f hf
        rcases Option.or_eq_some_iff.mp h with h | ⟨-, h⟩
        · rcases Option.or_eq_some_iff.mp h with h | ⟨-, h⟩
          · exact hw.stepFiber ho hf h
          · exact hw.stepFile ho hf h
        · exact hw.stepSocket ho hf h

/-- In every run in which the poller keeps to `pollOk`, each `Scheduler::resume` that a `finish`
calls finds the fiber suspended in the wait of the message that finishes. -/
theorem resume_own_wait (h : machine.ReachableWith (fun s a => pollOk s a) s) :
    ∀ r ∈ s.resumes, r.2 = .waiting r.1 := by
  have hinv : Owned s ∧ Waits s := by
    refine h.invariant (P := fun s => Owned s ∧ Waits s) ⟨owned_initial, waits_initial⟩ ?_
    intro s a t hi hok hs
    exact ⟨hi.1.step hs, hi.2.step hi.1 hok hs⟩
  exact hinv.2.resumes

/-- An `accept` that waits, a read of a file and a call of the fiber's own reactor. -/
def acceptReadRunAt : List Action :=
  [.eventLoop, .eventLoop, .eventLoop, .eventLoop, .schedule 0, .listen 0, .accept 0,
    .acceptResult .wouldBlock,
    .eventLoop, .pollSocket 0, .eventLoop, .eventLoop, .eventLoop, .eventLoop, .schedule 0,
    .acceptContinue, .acceptResult (.connection 1), .fileIo, .ioSubmit 1,
    .eventLoop, .pollFile 3, .eventLoop, .eventLoop, .eventLoop, .eventLoop, .schedule 0,
    .ioReturn, .runAt false,
    .eventLoop, .eventLoop, .eventLoop, .eventLoop, .eventLoop, .schedule 1, .handlerEnd,
    .eventLoop, .eventLoop, .eventLoop, .eventLoop]

theorem resume_own_wait_three : ∃ s : State, s.resumes = [(1, .waiting 1), (3, .waiting 3),
    (4, .waiting 4)] ∧ ∀ r ∈ s.resumes, r.2 = .waiting r.1 := by
  obtain ⟨s, hs, hr⟩ : ∃ s, (machine.guarded pollOk).exec initial acceptReadRunAt = some s ∧
      s.resumes = [(1, .waiting 1), (3, .waiting 3), (4, .waiting 4)] := ⟨_, rfl, rfl⟩
  exact ⟨s, hr, resume_own_wait (Machine.reachableWith_of_exec hs)⟩

/-- The application's fiber accepts a connection that is there at once, and calls `run_at` before
it reads. -/
def acceptThenRunAt : List Action :=
  [.eventLoop, .eventLoop, .eventLoop, .eventLoop, .schedule 0, .listen 0, .accept 0,
    .acceptResult (.connection 1), .runAt false]

/-- The next poll reports that the connection is readable. -/
def readableDuringRunAt : List Action :=
  acceptThenRunAt ++ [.eventLoop, .pollSocket 1, .eventLoop, .eventLoop]

/-- The connection's message wakes the fiber out of the wait of `run_at`. -/
theorem resume_other_wait : ∃ s, machine.Reachable s ∧ ∃ r ∈ s.resumes, r.2 ≠ .waiting r.1 := by
  obtain ⟨s, hs, hr⟩ : ∃ s, machine.exec initial readableDuringRunAt = some s ∧
      s.resumes = [(1, .waiting 2)] := ⟨_, rfl, rfl⟩
  exact ⟨s, Machine.reachable_of_exec hs, (1, .waiting 2), by simp [hr], by decide⟩

end Dumbo.Reactor.LinuxIo

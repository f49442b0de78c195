import Polyglot.Proofs.Office.Turns

/-!
Who holds a handle, and what waits. At any time the channel counts the handles that are held, the
events that it accepted are those that were settled, then the one at work and those that wait, and
the worker has ended only if nothing waits and no handle is left.
-/

namespace Polyglot

theorem accepted_append (log later : List Notice) :
    accepted (log ++ later) = accepted log ++ accepted later :=
  List.filterMap_append

theorem handled_append (log later : List Notice) :
    handled (log ++ later) = handled log ++ handled later :=
  List.filterMap_append

theorem accepted_snoc (log : List Notice) (n : Notice) :
    accepted (log ++ [n]) = accepted log ++ n.accepted?.toList := by
  rw [accepted_append]
  cases h : n.accepted? <;> simp [accepted, h]

theorem handled_snoc (log : List Notice) (n : Notice) :
    handled (log ++ [n]) = handled log ++ n.handled?.toList := by
  rw [handled_append]
  cases h : n.handled? <;> simp [handled, h]

section Aside

variable {later : List Notice}

theorem accepted_aside (h : ∀ n ∈ later, n.Aside) : accepted later = [] := by
  refine List.filterMap_eq_nil_iff.mpr fun n hn => ?_
  cases n <;> first | rfl | exact (h _ hn).elim

theorem handled_aside (h : ∀ n ∈ later, n.Aside) : handled later = [] := by
  refine List.filterMap_eq_nil_iff.mpr fun n hn => ?_
  cases n <;> first | rfl | exact (h _ hn).elim

end Aside

namespace Engine

variable (e : Engine) (h : Handle) (event : Event)

@[simp] theorem accepting_publish : (e.publish h event).accepting = e.accepting := by
  rw [publish_eq]
  split <;> rfl

@[simp] theorem handles_publish :
    (e.publish h event).channel.handles = e.channel.handles := by
  rw [publish_eq]
  split <;> rfl

@[simp] theorem receiving_publish :
    (e.publish h event).channel.receiving = e.channel.receiving := by
  rw [publish_eq]
  split <;> rfl

theorem queue_publish :
    (e.publish h event).channel.queue =
      e.channel.queue ++ if e.accepts h then [event] else [] := by
  rw [publish_eq]
  split
  · rfl
  · exact (List.append_nil _).symm

@[simp] theorem accepting_hold : (e.hold h).accepting = e.accepting := by
  cases h <;> rfl

@[simp] theorem queue_hold : (e.hold h).channel.queue = e.channel.queue := by
  cases h <;> rfl

@[simp] theorem receiving_hold : (e.hold h).channel.receiving = e.channel.receiving := by
  cases h <;> rfl

theorem handles_hold :
    (e.hold h).channel.handles = e.channel.handles + if h = .joined then 1 else 0 := by
  cases h <;> rfl

@[simp] theorem accepting_letGo : (e.letGo h).accepting = e.accepting := by
  cases h <;> rfl

@[simp] theorem queue_letGo : (e.letGo h).channel.queue = e.channel.queue := by
  cases h <;> rfl

@[simp] theorem receiving_letGo : (e.letGo h).channel.receiving = e.channel.receiving := by
  cases h <;> rfl

theorem handles_letGo :
    (e.letGo h).channel.handles = e.channel.handles - if h = .joined then 1 else 0 := by
  cases h <;> rfl

theorem live_handOut : e.handOut.Live ↔ e.accepting = true := by
  simp [handOut, Holder.Live, handle]

theorem lost_of_late : e.handOut.late = true → ¬e.handOut.Live := by
  rw [live_handOut]
  simp [handOut]

end Engine

namespace Office

/-- What holds at any time of the handles and of the events. -/
structure Kept {σ : Type} (o : Office σ) : Prop where
  handles : o.engine.channel.handles = o.engine.accepting.toNat + o.holders.countP (·.Live)
  events : accepted o.log = handled o.log ++ o.worker.inHand ++ o.engine.channel.queue
  receiving : o.engine.channel.receiving = !o.worker.hasEnded
  ended : o.worker.hasEnded = true →
    o.engine.channel.queue = [] ∧ o.engine.channel.handles = 0
  late : ∀ holder ∈ o.holders, holder.late = true → ¬holder.Live

namespace Kept

variable {σ : Type} {o o' : Office σ} {holder : Holder} {event : Event}

theorem accepting_of_handles (h : Kept o) (hnone : o.engine.channel.handles = 0) :
    o.engine.accepting = false ∧ ∀ holder ∈ o.holders, ¬holder.Live := by
  have hsum := h.handles
  rw [hnone, eq_comm, Nat.add_eq_zero_iff, List.countP_eq_zero] at hsum
  refine ⟨by simpa using hsum.1, fun holder hmem hlive => hsum.2 holder hmem ?_⟩
  exact decide_eq_true hlive

/-- While the engine accepts, or while anyone else can publish, the worker goes on. -/
theorem going (h : Kept o)
    (hopen : o.engine.accepting = true ∨ ∃ holder ∈ o.holders, holder.Live) :
    o.worker.hasEnded = false := by
  refine Bool.eq_false_iff.mpr fun hended => ?_
  obtain ⟨haccepting, hholders⟩ := h.accepting_of_handles (h.ended hended).2
  rcases hopen with htrue | ⟨holder, hmem, hlive⟩
  · exact absurd htrue (by simp [haccepting])
  · exact hholders holder hmem hlive

theorem opened (registry : Registry) (actor : Actor) (s : σ) :
    Kept (Office.opened registry actor s) :=
  ⟨rfl, rfl, rfl, nofun, nofun⟩

theorem publish (h : Kept o) (holder : Holder) (event : Event) :
    Kept (o.publish holder event) where
  handles := by
    rw [show (o.publish holder event).holders = o.holders from rfl, Office.publish,
      Engine.handles_publish, Engine.accepting_publish]
    exact h.handles
  events := by
    have hevents := h.events
    simp only [Office.publish, Engine.queue_publish, accepted_snoc, handled_snoc, hevents]
    cases o.engine.accepts holder.handle <;> simp [Notice.accepted?, Notice.handled?]
  receiving := (Engine.receiving_publish ..).trans h.receiving
  ended := by
    intro hended
    have haccepts : o.engine.accepts holder.handle = false := by
      have hreceiving := h.receiving
      rw [show o.worker.hasEnded = true from hended] at hreceiving
      simp [Engine.accepts, hreceiving]
    simpa [Office.publish, Engine.queue_publish, haccepts] using h.ended hended
  late := h.late

theorem settle (h : Kept o) {rest : Service Propagation.Outcome}
    (hworker : o.worker = .busy event rest) (outcome : Option Propagation.Outcome) :
    Kept (o.settle event outcome) where
  handles := h.handles
  events := by
    have hevents := h.events
    simp only [Office.settle, accepted_snoc, handled_snoc, hevents, hworker, Worker.inHand]
    simp [Notice.accepted?, Notice.handled?]
  receiving := by
    have hreceiving := h.receiving
    rwa [hworker] at hreceiving
  ended := nofun
  late := h.late

/-- Somebody lets go of a handle. -/
theorem leave (h : Kept o) (hengine : o'.engine = o.engine.letGo holder.handle)
    (hholders : o.holders.Perm (holder :: o'.holders)) (hworker : o'.worker = o.worker)
    (hlog : o'.log = o.log) : Kept o' where
  handles := by
    have hhandles := h.handles
    rw [hholders.countP_eq, List.countP_cons] at hhandles
    rw [hengine, Engine.handles_letGo, Engine.accepting_letGo, hhandles]
    by_cases hlive : holder.Live
    · simp [hlive, show holder.handle = .joined from hlive]
    · simp [hlive, show ¬holder.handle = .joined from hlive]
  events := by
    rw [hlog, hworker, hengine, Engine.queue_letGo]
    exact h.events
  receiving := by
    rw [hengine, hworker, Engine.receiving_letGo]
    exact h.receiving
  ended := by
    rw [hengine, hworker, Engine.queue_letGo, Engine.handles_letGo]
    exact fun hended => ⟨(h.ended hended).1, by rw [(h.ended hended).2, Nat.zero_sub]⟩
  late := fun other hother => h.late other (hholders.mem_iff.mpr (List.mem_cons_of_mem _ hother))

/-- Somebody takes a handle, which leads somewhere only if the worker goes on. -/
theorem join (h : Kept o) (holder : Holder) (hlate : holder.late = true → ¬holder.Live)
    (hgoing : holder.Live → o.worker.hasEnded = false)
    (hengine : o'.engine = o.engine.hold holder.handle)
    (hholders : o'.holders.Perm (holder :: o.holders)) (hworker : o'.worker = o.worker)
    (hlog : o'.log = o.log) : Kept o' where
  handles := by
    rw [hengine, Engine.handles_hold, Engine.accepting_hold, hholders.countP_eq,
      List.countP_cons, h.handles]
    by_cases hlive : holder.Live
    · simp [hlive, show holder.handle = .joined from hlive, Nat.add_assoc]
    · simp [hlive, show ¬holder.handle = .joined from hlive]
  events := by
    rw [hlog, hworker, hengine, Engine.queue_hold]
    exact h.events
  receiving := by
    rw [hengine, hworker, Engine.receiving_hold]
    exact h.receiving
  ended := by
    intro hended
    rw [hworker] at hended
    have hlost : ¬holder.handle = .joined := fun hlive => by
      rw [hgoing hlive] at hended
      cases hended
    rw [hengine, Engine.queue_hold, Engine.handles_hold, if_neg hlost]
    exact h.ended hended
  late := by
    intro other hother
    rcases List.mem_cons.mp (hholders.mem_iff.mp hother) with rfl | hmem
    · exact hlate
    · exact h.late other hmem

theorem aside (h : Kept o) (later : List Notice)
    (hchannel : o'.engine.channel = o.engine.channel)
    (haccepting : o'.engine.accepting = o.engine.accepting) (hholders : o'.holders = o.holders)
    (hinHand : o'.worker.inHand = o.worker.inHand) (hended : o'.worker.hasEnded = o.worker.hasEnded)
    (hlog : o'.log = o.log ++ later) (haccepted : accepted later = [])
    (hhandled : handled later = []) : Kept o' where
  handles := by
    rw [hchannel, haccepting, hholders]
    exact h.handles
  events := by
    rw [hlog, accepted_append, handled_append, haccepted, hhandled, List.append_nil,
      List.append_nil, hinHand, hchannel]
    exact h.events
  receiving := by
    rw [hchannel, hended]
    exact h.receiving
  ended := by
    rw [hended, hchannel]
    exact h.ended
  late := by
    rw [hholders]
    exact h.late

theorem counted (h : Kept o) {notices : List Notice} (hcounted : o.Counted o' notices) :
    Kept o' := by
  obtain ⟨haside, stores, rfl⟩ := hcounted
  exact h.aside _ rfl rfl rfl rfl rfl rfl (accepted_aside haside) (handled_aside haside)

theorem close (h : Kept o) (closing : Closing) :
    Kept { o with engine := o.engine.stopAccepting, closing } := by
  cases haccepting : o.engine.accepting with
  | false =>
      rw [Engine.stopAccepting, haccepting, if_neg Bool.false_ne_true]
      exact ⟨h.handles, h.events, h.receiving, h.ended, h.late⟩
  | true =>
      have hhandles := h.handles
      have hgoing := h.going (Or.inl haccepting)
      rw [haccepting] at hhandles
      rw [Engine.stopAccepting, haccepting, if_pos rfl]
      refine ⟨?_, h.events, h.receiving, fun hended => ?_, h.late⟩
      · rw [show o.engine.channel.releaseHandle.handles = o.engine.channel.handles - 1 from rfl,
          hhandles]
        simp [holders]
      · exact absurd hended (by simp [hgoing])

theorem receive (h : Kept o) (hidle : o.worker = .idle) {waiting : List Event}
    (hqueue : o.engine.channel.queue = event :: waiting) (rest : Service Propagation.Outcome) :
    Kept { o with engine := o.left waiting, worker := .busy event rest } where
  handles := h.handles
  events := by
    have hevents := h.events
    rw [hidle, hqueue] at hevents
    simpa [Worker.inHand, left] using hevents
  receiving := by
    have hreceiving := h.receiving
    rwa [hidle] at hreceiving
  ended := nofun
  late := h.late

/-- The worker ends with nothing lost: what its channel drops is nothing. -/
theorem stop (h : Kept o) (hidle : o.worker = .idle) (hqueue : o.engine.channel.queue = [])
    (hhandles : o.engine.channel.handles = 0) :
    Kept { o with
      engine := { o.engine with channel := o.engine.channel.dropReceiver }
      worker := .ended } where
  handles := h.handles
  events := by
    have hevents := h.events
    rwa [hidle, hqueue] at hevents
  receiving := rfl
  ended _ := ⟨rfl, hhandles⟩
  late := h.late

/-- The handle that the engine gives out now is good only if the worker goes on, and so are the
handles that are held. -/
theorem holds (h : Kept o) (hholder : holder = o.engine.handOut ∨ holder ∈ o.holders) :
    (holder.late = true → ¬holder.Live) ∧ (holder.Live → o.worker.hasEnded = false) := by
  rcases hholder with rfl | hmem
  · refine ⟨o.engine.lost_of_late, fun hlive => ?_⟩
    exact h.going (Or.inl (o.engine.live_handOut.mp hlive))
  · exact ⟨h.late holder hmem, fun hlive => h.going (Or.inr ⟨holder, hmem, hlive⟩)⟩

theorem turn (h : Kept o) (hturn : Turn o o') : Kept o' := by
  cases hturn with
  | call stores editors hholders =>
      exact h.aside [] rfl rfl (congrArg (· ++ o.outside) hholders) rfl rfl
        (List.append_nil _).symm rfl rfl
  | join holder hholder editors outside hholders =>
      obtain ⟨hlate, hgoing⟩ := h.holds hholder
      exact h.join holder hlate hgoing rfl hholders rfl rfl
  | leave holder editors outside hholders => exact h.leave rfl hholders rfl rfl
  | publish holder event editors hholders =>
      exact (h.publish holder event).aside [] rfl rfl (congrArg (· ++ o.outside) hholders) rfl rfl
        (List.append_nil _).symm rfl rfl
  | receive event waiting rest hidle hqueue => exact h.receive hidle hqueue rest
  | misdirected event waiting hidle hqueue =>
      have hbusy := h.receive hidle hqueue (Flow.on event.contentType (Propagation.handle event))
      exact hbusy.settle rfl none
  | handle stores event rest later hbusy =>
      exact h.aside [] rfl rfl rfl (by rw [hbusy]; rfl) (by rw [hbusy]; rfl)
        (List.append_nil _).symm rfl rfl
  | settle event rest outcome hbusy => exact h.settle hbusy outcome
  | stop hidle hqueue hhandles => exact h.stop hidle hqueue hhandles

theorem claim (h : Kept o) : Kept o.claim := by
  rw [Office.claim]
  split
  · exact h
  · exact ⟨h.handles, h.events, h.receiving, h.ended, h.late⟩
  · exact h.aside [.shutDown false] rfl rfl rfl rfl rfl rfl rfl rfl

theorem await (h : Kept o) : Kept o.await := by
  rw [Office.await]
  split
  · exact h.aside [.shutDown true] rfl rfl rfl rfl rfl rfl rfl rfl
  · exact h

section Step

variable (answer : (c : Call) → σ → c.Reply × σ)

theorem step (h : Kept o) (act : Act σ) : Kept (o.step answer act) := by
  rcases o.step_cases answer act with hcloses | hturn | ⟨_, hcounted⟩
  · cases act with
    | close => exact h.close _
    | claim => exact h.claim
    | await => exact h.await
    | _ => exact hcloses.elim
  · exact h.turn hturn
  · exact h.counted hcounted

theorem run (h : Kept o) (acts : List (Act σ)) : Kept (o.run answer acts) := by
  induction acts generalizing o with
  | nil => exact h
  | cons act rest ih => exact ih (h.step answer act)

end Step

end Kept

end Office

end Polyglot

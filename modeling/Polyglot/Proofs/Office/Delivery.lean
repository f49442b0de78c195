import Polyglot.Proofs.Office.Handles
import Polyglot.Proofs.Pool.Settling

namespace Polyglot

namespace Office

variable {σ : Type}

/-- What stays as it is while no shutdown goes on. The worker may end, but only with nothing left
to receive and nobody left to publish. -/
structure Onward (o o' : Office σ) : Prop where
  accepting : o'.engine.accepting = o.engine.accepting
  ended : o.worker = .ended → o'.worker = .ended
  stopped : o'.worker = .ended → o.worker = .ended ∨
    o.engine.channel.queue = [] ∧ o.engine.channel.handles = 0
  closing : o'.closing = o.closing
  returned : ∀ took, .shutDown took ∈ o'.log → .shutDown took ∈ o.log
  kept : ∀ n ∈ o.log, n ∈ o'.log

namespace Onward

variable {o o' : Office σ}

theorem of_log {later : List Notice} (haccepting : o'.engine.accepting = o.engine.accepting)
    (hended : o'.worker = .ended ↔ o.worker = .ended) (hclosing : o'.closing = o.closing)
    (hlog : o'.log = o.log ++ later) (hlater : ∀ took, .shutDown took ∉ later) : Onward o o' where
  accepting := haccepting
  ended := hended.mpr
  stopped := Or.inl ∘ hended.mp
  closing := hclosing
  returned took htook := by
    rw [hlog] at htook
    exact (List.mem_append.mp htook).resolve_right (hlater took)
  kept n hn := by
    rw [hlog]
    exact List.mem_append_left _ hn

theorem of_counted {notices : List Notice} (h : o.Counted o' notices) : Onward o o' := by
  obtain ⟨haside, stores, rfl⟩ := h
  exact .of_log rfl Iff.rfl rfl rfl fun took htook => haside _ htook

theorem of_turn (h : Turn o o') : Onward o o' := by
  have hlater (took : Bool) : .shutDown took ∉ ([] : List Notice) := List.not_mem_nil
  have hsame (log : List Notice) : log = log ++ [] := (List.append_nil log).symm
  cases h with
  | call stores editors hholders => exact .of_log rfl Iff.rfl rfl (hsame _) hlater
  | join holder hholder editors outside hholders =>
      exact .of_log (Engine.accepting_hold ..) Iff.rfl rfl (hsame _) hlater
  | leave holder editors outside hholders =>
      exact .of_log (Engine.accepting_letGo ..) Iff.rfl rfl (hsame _) hlater
  | publish holder event editors hholders =>
      exact .of_log (Engine.accepting_publish ..) Iff.rfl rfl rfl (by simp)
  | receive event waiting rest hidle hqueue =>
      exact .of_log rfl (by simp [hidle]) rfl (hsame _) hlater
  | misdirected event waiting hidle hqueue =>
      exact .of_log rfl (by simp [settle, hidle]) rfl rfl (by simp)
  | handle stores event rest later hbusy =>
      exact .of_log rfl (by simp [hbusy]) rfl (hsame _) hlater
  | settle event rest outcome hbusy =>
      exact .of_log rfl (by simp [settle, hbusy]) rfl rfl (by simp)
  | stop hidle hqueue hhandles =>
      exact ⟨rfl, fun _ => rfl, fun _ => Or.inr ⟨hqueue, hhandles⟩, rfl, fun _ h => h,
        fun _ h => h⟩

theorem of_step (answer : (c : Call) → σ → c.Reply × σ) (o : Office σ) {act : Act σ}
    (hact : ¬act.Closes) : Onward o (o.step answer act) := by
  rcases o.step_cases answer act with hcloses | hturn | ⟨_, hcounted⟩
  · exact absurd hcloses hact
  · exact .of_turn hturn
  · exact .of_counted hcounted

end Onward

/-- What holds at any time of the calls of shutdown. -/
structure Called (o : Office σ) : Prop where
  claimed : o.closing.unclaimed = false → o.closing.waiting = true ∨ .shutDown true ∈ o.log
  waiting : o.closing.waiting = true → o.closing.unclaimed = false
  returned : ∀ took, .shutDown took ∈ o.log → o.closing.unclaimed = false
  drained : .shutDown true ∈ o.log → o.worker = .ended

namespace Called

variable {o o' : Office σ}

theorem opened (registry : Registry) (actor : Actor) (s : σ) :
    Called (Office.opened registry actor s) :=
  ⟨nofun, nofun, nofun, nofun⟩

theorem onward (h : Called o) (honward : Onward o o') : Called o' where
  claimed := by
    rw [honward.closing]
    exact fun hunclaimed => (h.claimed hunclaimed).imp_right (honward.kept _)
  waiting := by
    rw [honward.closing]
    exact h.waiting
  returned := by
    rw [honward.closing]
    exact fun took htook => h.returned took (honward.returned took htook)
  drained htook := honward.ended (h.drained (honward.returned true htook))

theorem claim (h : Called o) : Called o.claim := by
  rw [Office.claim]
  split
  · exact h
  · exact ⟨fun _ => Or.inl rfl, fun _ => rfl, fun _ _ => rfl, h.drained⟩
  · rename_i calls waiting hclosing
    have hclaimed := h.claimed (by rw [hclosing])
    rw [hclosing] at hclaimed
    refine ⟨fun _ => ?_, fun _ => rfl, fun _ _ => rfl, fun htook => h.drained ?_⟩
    · exact hclaimed.imp_right fun htook => List.mem_append_left _ htook
    · simpa [note] using htook

theorem await (h : Called o) : Called o.await := by
  rw [Office.await]
  split
  · rename_i hboth
    rw [Bool.and_eq_true, Worker.hasEnded_iff] at hboth
    have hreturned := List.mem_append_right o.log (List.mem_singleton_self (Notice.shutDown true))
    exact ⟨fun _ => Or.inr hreturned, by simp [note], fun _ _ => h.waiting hboth.1,
      fun _ => hboth.2⟩
  · exact h

section Step

variable (answer : (c : Call) → σ → c.Reply × σ)

theorem step (h : Called o) (act : Act σ) : Called (o.step answer act) := by
  by_cases hact : act.Closes
  · cases act with
    | close => exact ⟨h.claimed, h.waiting, h.returned, h.drained⟩
    | claim => exact h.claim
    | await => exact h.await
    | _ => exact hact.elim
  · exact h.onward (.of_step answer o hact)

theorem run (h : Called o) (acts : List (Act σ)) : Called (o.run answer acts) := by
  induction acts generalizing o with
  | nil => exact h
  | cons act rest ih => exact ih (h.step answer act)

end Step

end Called

section Run

variable (answer : (c : Call) → σ → c.Reply × σ) (o : Office σ)

end Run

end Office

namespace Bilingual

def tidings (type : String) : Event := ⟨type, 7, 1, title "Welcome", "ann"⟩

def beforeClosing : List (Act World) :=
  [.begin "page" 7 1 (title "Welcome") "ann", .acquire, .send 0 (tidings "story"), .close, .claim]

/-- The edit publishes its event, the service publishes through a clone of its handle, and a late
handle is good for nothing. The handler of the clone's event breaks off. -/
def whileClosing : List (Act World) :=
  List.replicate 6 (.advance 0) ++ [.acquire, .send 1 (tidings "page"), .clone 0] ++
    List.replicate 7 .work ++ [.send 2 (tidings "page"), .release 0, .release 1, .work, .panic]

end Bilingual

namespace Office

end Office

end Polyglot

import Mathlib.Data.List.Perm.Basic
import Polyglot.Proofs.Office.Basic

namespace Polyglot

def Act.Closes {σ : Type} : Act σ → Prop
  | .close => True
  | .claim => True
  | .await => True
  | _ => False

def Act.OnQueue {σ : Type} : Act σ → Prop
  | .begin .. => True
  | .advance _ => True
  | .abandon _ => True
  | .acquire => True
  | .clone _ => True
  | .send .. => True
  | .release _ => True
  | .work => True
  | .panic => True
  | _ => False

theorem perm_of_getElem?_eq_some {α : Type} {l : List α} {i : Nat} {a : α} (h : l[i]? = some a) :
    l.Perm (a :: l.eraseIdx i) := by
  obtain ⟨hi, rfl⟩ := List.getElem?_eq_some_iff.mp h
  exact (List.getElem_cons_eraseIdx_perm hi).symm

theorem map_holder_set {editors : List Editor} {place : Nat} {editor : Editor}
    (h : editors[place]? = some editor) (rest : Service Edit.Result) :
    (editors.set place ⟨editor.holder, rest⟩).map (·.holder) = editors.map (·.holder) := by
  obtain ⟨hplace, rfl⟩ := List.getElem?_eq_some_iff.mp h
  rw [List.map_set, ← List.getElem_map (fun e : Editor => e.holder), List.set_getElem_self]
  simpa using hplace

theorem Channel.receive_eq_closed {c d : Channel} (h : c.receive = (.closed, d)) :
    c.queue = [] ∧ c.handles = 0 ∧ d = c := by
  rw [receive] at h
  split at h
  · split at h
    · cases h
    · rename_i hqueue
      by_cases hhandles : c.handles = 0
      · rw [if_pos hhandles] at h
        exact ⟨hqueue, hhandles, (Prod.mk.inj h).2.symm⟩
      · rw [if_neg hhandles] at h
        cases h
  · cases h

namespace Office

variable {σ : Type}

def left (o : Office σ) (waiting : List Event) : Engine :=
  { o.engine with channel := { o.engine.channel with queue := waiting } }

/-- What those who publish and the worker can do. -/
inductive Turn (o : Office σ) : Office σ → Prop
  /-- An edit makes a call, or nothing happens. -/
  | call (stores : σ) (editors : List Editor)
      (hholders : editors.map (·.holder) = o.editors.map (·.holder)) :
      Turn o { o with stores, editors }
  | join (holder : Holder) (hholder : holder = o.engine.handOut ∨ holder ∈ o.holders)
      (editors : List Editor) (outside : List Holder)
      (hholders : (editors.map (·.holder) ++ outside).Perm (holder :: o.holders)) :
      Turn o { o with engine := o.engine.hold holder.handle, editors, outside }
  | leave (holder : Holder) (editors : List Editor) (outside : List Holder)
      (hholders : o.holders.Perm (holder :: (editors.map (·.holder) ++ outside))) :
      Turn o { o with engine := o.engine.letGo holder.handle, editors, outside }
  | publish (holder : Holder) (event : Event) (editors : List Editor)
      (hholders : editors.map (·.holder) = o.editors.map (·.holder)) :
      Turn o { o.publish holder event with editors }
  | receive (event : Event) (waiting : List Event) (rest : Service Propagation.Outcome)
      (hidle : o.worker = .idle) (hqueue : o.engine.channel.queue = event :: waiting) :
      Turn o { o with engine := o.left waiting, worker := .busy event rest }
  /-- An event of a content type that is not registered is received and settled at once. -/
  | misdirected (event : Event) (waiting : List Event) (hidle : o.worker = .idle)
      (hqueue : o.engine.channel.queue = event :: waiting) :
      Turn o ({ o with engine := o.left waiting }.settle event none)
  | handle (stores : σ) (event : Event) (rest later : Service Propagation.Outcome)
      (hbusy : o.worker = .busy event rest) :
      Turn o { o with stores, worker := .busy event later }
  | settle (event : Event) (rest : Service Propagation.Outcome)
      (outcome : Option Propagation.Outcome) (hbusy : o.worker = .busy event rest) :
      Turn o (o.settle event outcome)
  /-- The worker ends only with nothing left to receive and nobody left to publish. -/
  | stop (hidle : o.worker = .idle) (hqueue : o.engine.channel.queue = [])
      (hhandles : o.engine.channel.handles = 0) :
      Turn o { o with
        engine := { o.engine with channel := o.engine.channel.dropReceiver }, worker := .ended }

namespace Turn

theorem refl (o : Office σ) : Turn o o := .call o.stores o.editors rfl

theorem dismiss (o : Office σ) (place : Nat) : Turn o (o.dismiss place) := by
  rw [Office.dismiss]
  cases heditor : o.editors[place]? with
  | none => exact .refl o
  | some editor =>
      refine .leave editor.holder (o.editors.eraseIdx place) o.outside ?_
      exact ((perm_of_getElem?_eq_some heditor).map (·.holder)).append_right o.outside

theorem release (o : Office σ) (place : Nat) : Turn o (o.release place) := by
  rw [Office.release]
  cases hholder : o.outside[place]? with
  | none => exact .refl o
  | some holder =>
      refine .leave holder o.editors (o.outside.eraseIdx place) ?_
      exact ((perm_of_getElem?_eq_some hholder).append_left _).trans List.perm_middle

theorem lend (o : Office σ) {holder : Holder}
    (hholder : holder = o.engine.handOut ∨ holder ∈ o.holders) : Turn o (o.lend holder) := by
  refine .join holder hholder o.editors (o.outside ++ [holder]) ?_
  rw [← List.append_assoc]
  exact List.perm_append_singleton ..

theorem begin (o : Office σ) (type : String) (item : ItemId) (language : LanguageId) (text : Text)
    (actor : Actor) : Turn o (o.begin type item language text actor) := by
  rw [Office.begin]
  split
  · refine .join o.engine.handOut (Or.inl rfl) _ o.outside ?_
    simp [holders, List.perm_middle]
  · exact .refl o

theorem panic (o : Office σ) : Turn o o.panic := by
  rw [Office.panic]
  split
  · rename_i event rest hbusy
    exact .settle event rest none hbusy
  · exact .refl o

section Step

variable (answer : (c : Call) → σ → c.Reply × σ)

theorem advance (o : Office σ) (place : Nat) : Turn o (o.advance answer place) := by
  rw [Office.advance]
  split
  · exact .refl o
  · rename_i heditor
    exact .call _ _ (map_holder_set heditor _)
  · rename_i holder _ event heditor
    exact .publish holder event _ (map_holder_set heditor _)
  · exact .dismiss o place

theorem work (o : Office σ) : Turn o (o.work answer) := by
  rw [Office.work]
  split
  · rename_i hidle
    split
    · rename_i event channel hreceive
      obtain ⟨_, waiting, hqueue, rfl⟩ := Channel.receive_eq_event hreceive
      dsimp only
      split
      · exact .receive event waiting _ hidle hqueue
      · exact .misdirected event waiting hidle hqueue
    · rename_i channel hreceive
      obtain ⟨hqueue, hhandles, rfl⟩ := Channel.receive_eq_closed hreceive
      exact .stop hidle hqueue hhandles
    · exact .refl o
  · rename_i event c next hbusy
    exact .handle _ event _ _ hbusy
  · rename_i event outcome hbusy
    exact .settle event _ _ hbusy
  · exact .refl o

theorem of_step (o : Office σ) {act : Act σ} (hact : act.OnQueue) :
    Turn o (o.step answer act) := by
  cases act with
  | begin => exact .begin ..
  | advance place => exact .advance answer o place
  | abandon place => exact .dismiss o place
  | acquire => exact .lend o (Or.inl rfl)
  | clone place =>
      rw [Office.step]
      cases hholder : o.outside[place]? with
      | none => exact .refl o
      | some holder =>
          exact .lend o (Or.inr (List.mem_append_right _ (List.mem_of_getElem? hholder)))
  | send place event =>
      rw [Office.step]
      cases o.outside[place]? with
      | none => exact .refl o
      | some holder => exact .publish holder event o.editors rfl
  | release place => exact .release o place
  | work => exact .work answer o
  | panic => exact .panic o
  | _ => exact hact.elim

end Step

end Turn

/-- Every act is a part of a shutdown, or one of these turns, or it only counts. -/
theorem step_cases (answer : (c : Call) → σ → c.Reply × σ) (o : Office σ) (act : Act σ) :
    act.Closes ∨ Turn o (o.step answer act) ∨
      ∃ notices, o.Counted (o.step answer act) notices := by
  cases act with
  | close => exact Or.inl trivial
  | claim => exact Or.inl trivial
  | await => exact Or.inl trivial
  | create => exact Or.inr (Or.inr ⟨_, o.counted_nil _⟩)
  | unpin => exact Or.inr (Or.inr ⟨_, o.counted_nil _⟩)
  | meanwhile change => exact Or.inr (Or.inr ⟨_, o.counted_nil _⟩)
  | reconcile type =>
      obtain ⟨_, hcounted, _⟩ := o.counted_reconcile answer type
      exact Or.inr (Or.inr ⟨_, hcounted⟩)
  | reconcileAll =>
      obtain ⟨_, hcounted, _⟩ := o.counted_reconcileAll answer
      exact Or.inr (Or.inr ⟨_, hcounted⟩)
  | backfill code =>
      obtain ⟨_, hcounted, _⟩ := o.counted_backfill answer code
      exact Or.inr (Or.inr ⟨_, hcounted⟩)
  | _ => exact Or.inr (Or.inl (.of_step answer o trivial))

end Office

end Polyglot

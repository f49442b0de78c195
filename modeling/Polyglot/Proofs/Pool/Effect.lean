import Polyglot.Proofs.Pool.Basic
import Polyglot.Proofs.Store.Identity

namespace Polyglot

def Call.at (d : Directory) (type : String) : Call → Store → Store
  | .directory _, s => s
  | .content target q, s => if target = type then (s.answer d q).2 else s

def Change.at (type : String) : Change → Store → Store
  | .addItem target item, s => if target = type then s.addItem item else s
  | .softDelete target item, s => if target = type then s.softDelete item else s
  | .delete target item, s => if target = type then s.delete item else s
  | .setFaults target faults, s => if target = type then { s with faults } else s
  | .setDirectory _, s => s

def Move.at (d : Directory) (type : String) : Move → Store → Store
  | .call _ c, s => c.at d type s
  | .change c, s => c.at type s
  | _, s => s

namespace World

variable {w : World} {type : String} {s : Store}

@[simp] theorem directory_answer (c : Call) : (answer c w).2.directory = w.directory := by
  cases c with
  | directory l => rfl
  | content type q =>
      simp only [answer]
      split <;> rfl

theorem store?_answer (c : Call) (type : String) :
    (answer c w).2.store? type = (w.store? type).map (c.at w.directory type) := by
  cases c with
  | directory l =>
      cases h : w.store? type <;> simp [answer, Call.at, h]
  | content target q =>
      cases htarget : w.store? target with
      | none =>
          by_cases heq : target = type
          · subst heq
            simp [answer, htarget]
          · cases h : w.store? type <;> simp [answer, htarget, Call.at, heq, h]
      | some s =>
          have hname : (s.answer w.directory q).2.name = target :=
            (Store.becomes_answer w.directory q).name.trans (name_of_store? htarget)
          simp only [answer, htarget]
          rw [store?_update fun _ _ => hname]
          by_cases heq : type = target
          · subst heq
            simp [htarget, Call.at]
          · cases h : w.store? type <;> simp [heq, Ne.symm heq, Call.at]

theorem reply_answer (h : w.store? type = some s) (q : Query) :
    (answer (.content type q) w).1 = (s.answer w.directory q).1 := by
  simp only [answer, h]

theorem store?_of_reply {q : Query} {a : q.Answer}
    (h : (answer (.content type q) w).1 = .ok a) :
    ∃ s, w.store? type = some s ∧ (s.answer w.directory q).1 = .ok a := by
  cases hs : w.store? type with
  | none =>
      simp only [answer, hs] at h
      cases h
  | some s => exact ⟨s, rfl, reply_answer hs q ▸ h⟩

theorem store?_change (c : Change) (type : String) :
    (c.apply w).store? type = (w.store? type).map (c.at type) := by
  have hupdate {f : Store → Store} {target : String} (hf : ∀ s, (f s).name = s.name) :
      (w.update target f).store? type =
        (w.store? type).map fun s => if target = type then f s else s := by
    rw [store?_update fun s hs => (hf s).trans hs]
    by_cases heq : type = target
    · simp [heq]
    · simp [heq, Ne.symm heq]
  cases c with
  | addItem target item => exact hupdate fun _ => rfl
  | softDelete target item =>
      refine hupdate fun s => ?_
      rw [Store.softDelete]
      split <;> rfl
  | delete target item => exact hupdate fun _ => rfl
  | setFaults target faults => exact hupdate fun _ => rfl
  | setDirectory directory =>
      change w.store? type = _
      cases h : w.store? type <;> rfl

end World

section

variable {d : Directory} {type : String} {s : Store}

/-- A call does nothing to this store, or the store becomes what the question makes of it. -/
theorem Call.becomes_at (c : Call) (d : Directory) (type : String) (s : Store) :
    c.at d type s = s ∨ ∃ q, c = .content type q ∧ s.Becomes q (c.at d type s) := by
  cases c with
  | directory l => exact Or.inl rfl
  | content target q =>
      by_cases heq : target = type
      · subst heq
        refine Or.inr ⟨q, rfl, ?_⟩
        rw [Call.at, if_pos rfl]
        exact Store.becomes_answer d q
      · exact Or.inl (if_neg heq)

theorem Call.sound_at (c : Call) (hs : s.Sound) : (c.at d type s).Sound := by
  rcases c.becomes_at d type s with heq | ⟨q, _, hq⟩
  · rwa [heq]
  · exact hs.becomes hq

theorem Call.later_at (c : Call) : s.Later (c.at d type s) := by
  rcases c.becomes_at d type s with heq | ⟨q, _, hq⟩
  · rw [heq]
    exact .refl s
  · exact hq.later

theorem Call.at_faults (c : Call) (d : Directory) (type : String) (s : Store) :
    (c.at d type s).faults = s.faults ∧ (c.at d type s).items = s.items := by
  rcases c.becomes_at d type s with heq | ⟨q, _, hbecomes⟩
  · rw [heq]
    exact ⟨rfl, rfl⟩
  · exact ⟨hbecomes.faults, hbecomes.items⟩

theorem Change.at_cases (c : Change) (type : String) (s : Store) :
    c.at type s = s ∨ (∃ item, c.at type s = s.addItem item) ∨
      (∃ item, c.at type s = s.softDelete item) ∨
      (∃ item, c = .delete type item ∧ c.at type s = s.delete item) ∨
      ∃ faults, c.at type s = { s with faults } := by
  cases c with
  | setDirectory directory => exact Or.inl rfl
  | addItem target item =>
      by_cases heq : target = type
      · exact Or.inr (Or.inl ⟨item, if_pos heq⟩)
      · exact Or.inl (if_neg heq)
  | softDelete target item =>
      by_cases heq : target = type
      · exact Or.inr (Or.inr (Or.inl ⟨item, if_pos heq⟩))
      · exact Or.inl (if_neg heq)
  | delete target item =>
      by_cases heq : target = type
      · exact Or.inr (Or.inr (Or.inr (Or.inl ⟨item, heq ▸ rfl, if_pos heq⟩)))
      · exact Or.inl (if_neg heq)
  | setFaults target faults =>
      by_cases heq : target = type
      · exact Or.inr (Or.inr (Or.inr (Or.inr ⟨faults, if_pos heq⟩)))
      · exact Or.inl (if_neg heq)

theorem Change.sound_at (c : Change) (hs : s.Sound) : (c.at type s).Sound := by
  rcases c.at_cases type s with
    h | ⟨item, h⟩ | ⟨item, h⟩ | ⟨item, _, h⟩ | ⟨faults, h⟩ <;> rw [h]
  · exact hs
  · exact hs.addItem item
  · exact hs.softDelete item
  · exact hs.delete item
  · exact hs.setFaults faults

theorem Change.later_at (c : Change) : s.Later (c.at type s) := by
  rcases c.at_cases type s with
    h | ⟨item, h⟩ | ⟨item, h⟩ | ⟨item, _, h⟩ | ⟨faults, h⟩ <;> rw [h]
  · exact .refl s
  · exact .of_mem (Int.le_refl _) fun _ hr => hr
  · refine .of_mem (Int.le_of_eq (s.nextId_softDelete item).symm) fun r hr => ?_
    rwa [Store.records_softDelete] at hr
  · exact .of_mem (Int.le_refl _) fun _ hr => List.mem_of_mem_filter hr
  · exact .of_mem (Int.le_refl _) fun _ hr => hr

theorem Move.sound_at (m : Move) (hs : s.Sound) : (m.at d type s).Sound := by
  cases m with
  | call job c => exact c.sound_at hs
  | change c => exact c.sound_at hs
  | start job => exact hs
  | finish job => exact hs
  | take event => exact hs

theorem Move.later_at (m : Move) : s.Later (m.at d type s) := by
  cases m with
  | call job c => exact c.later_at
  | change c => exact c.later_at
  | start job => exact .refl s
  | finish job => exact .refl s
  | take event => exact .refl s

end

namespace Pool

variable {p q : Pool} {m : Move}

theorem Step.store? (h : Step p m q) (type : String) :
    q.world.store? type = (p.world.store? type).map (m.at p.world.directory type) := by
  have hsame : p.world.store? type = (p.world.store? type).map fun s => s := by simp
  cases h with
  | start job => exact hsame
  | call before after job past c next htasks => exact World.store?_answer c type
  | finish before after job past f htasks => exact hsame
  | take event channel hidle hreceive => exact hsame
  | change c => exact World.store?_change c type

theorem Step.directory (h : Step p m q) (hm : ∀ d, m ≠ .change (.setDirectory d)) :
    q.world.directory = p.world.directory := by
  cases h with
  | start job => rfl
  | call before after job past c next htasks => exact World.directory_answer c
  | finish before after job past f htasks => rfl
  | take event channel hidle hreceive => rfl
  | change c =>
      cases c with
      | setDirectory directory => exact absurd rfl (hm directory)
      | addItem target item => rfl
      | softDelete target item => rfl
      | delete target item => rfl
      | setFaults target faults => rfl

end Pool

end Polyglot

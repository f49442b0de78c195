import Polyglot.Proofs.Pool.Effect
import Polyglot.Proofs.Pool.Grounds

/-!
What a task may rely on. A record that a task has read may be rewritten or deleted before the task
writes, but its id still stands for the item and language that were read; and the language that was
named as the base language still is the base language.
-/

namespace Polyglot

def Directory.BaseWithin (d : Directory) (b : LanguageId) : Prop := ∀ l ∈ d.base, l.id = b

instance (d : Directory) (b : LanguageId) : Decidable (d.BaseWithin b) :=
  inferInstanceAs (Decidable (∀ l ∈ d.base, l.id = b))

/-- The move leaves the base language where it is, or takes it away, or puts it back. -/
def Move.KeepsBase (b : LanguageId) : Move → Prop
  | .change (.setDirectory d) => d.BaseWithin b
  | _ => True

instance (b : LanguageId) : DecidablePred (Move.KeepsBase b)
  | .change (.setDirectory d) => inferInstanceAs (Decidable (d.BaseWithin b))
  | .change (.addItem _ _) => .isTrue trivial
  | .change (.softDelete _ _) => .isTrue trivial
  | .change (.delete _ _) => .isTrue trivial
  | .change (.setFaults _ _) => .isTrue trivial
  | .start _ => .isTrue trivial
  | .call _ _ => .isTrue trivial
  | .finish _ => .isTrue trivial
  | .take _ => .isTrue trivial

/-- What was heard is still true of places and of the base language. -/
structure Informed (b : LanguageId) (w : World) (past : List Heard) : Prop where
  named : ∀ type base, Named past type base → base = b
  read : ∀ type item rs, (⟨.content type (.records item), .ok rs⟩ : Heard) ∈ past →
    ∃ s, w.store? type = some s ∧ ∀ r ∈ rs, r.item = item ∧ s.Knows r

theorem Informed.nil (b : LanguageId) (w : World) : Informed b w [] where
  named := by simp [Named]
  read := by simp

theorem Informed.base {b : LanguageId} {w : World} {past : List Heard} (h : Informed b w past)
    {type : String} {item : ItemId} {base : LanguageId} {rs : List Record} {rb : Record}
    (hread : BaseRead past type item base rs rb) : base = b :=
  h.named type base hread.named

theorem Informed.place {b : LanguageId} {w : World} {past : List Heard} (h : Informed b w past)
    {type : String} {item : ItemId} {rs : List Record}
    (hread : (⟨.content type (.records item), .ok rs⟩ : Heard) ∈ past) {s : Store}
    (hs : w.store? type = some s) {r r' : Record} (hr : r ∈ rs) (hr' : r' ∈ s.records)
    (hid : r'.id = r.id) : r'.item = item ∧ r'.language = r.language := by
  obtain ⟨t, ht, hrs⟩ := h.read type item rs hread
  cases hs.symm.trans ht
  obtain ⟨hitem, hknows⟩ := hrs r hr
  obtain ⟨hitem', hlanguage'⟩ := hknows.2 r' hr' hid
  exact ⟨hitem'.trans hitem, hlanguage'⟩

namespace World

structure Sound (b : LanguageId) (w : World) : Prop where
  stores : ∀ type s, w.store? type = some s → s.Sound
  base : w.directory.BaseWithin b

variable {b : LanguageId} {w : World} {past : List Heard}

theorem told {c : Call} {x : Heard} (hx : x = ⟨c, (World.answer c w).1⟩) :
    (World.answer x.question w).1 = x.answer := by
  subst hx
  rfl

theorem Sound.informed_answer (h : w.Sound b) (hi : Informed b w past) (c : Call) :
    Informed b w (⟨c, (World.answer c w).1⟩ :: past) := by
  constructor
  · rintro type base ⟨l, rfl, hl | hl⟩ <;> rcases List.mem_cons.mp hl with heq | hl
    · obtain ⟨s, _, hreply⟩ := store?_of_reply (told heq)
      exact h.base l (Except.ok.inj hreply)
    · exact hi.named type l.id ⟨l, rfl, Or.inl hl⟩
    · exact h.base l (Except.ok.inj (told heq))
    · exact hi.named type l.id ⟨l, rfl, Or.inr hl⟩
  · intro type item rs hread
    rcases List.mem_cons.mp hread with heq | hread
    · obtain ⟨s, hs, hreply⟩ := store?_of_reply (told heq)
      refine ⟨s, hs, fun r hr => ?_⟩
      rw [← Except.ok.inj hreply] at hr
      obtain ⟨hr, hitem⟩ := Store.mem_recordsOf.mp hr
      exact ⟨hitem, (h.stores type s hs).knows hr⟩
    · exact hi.read type item rs hread

end World

theorem Informed.mono {b : LanguageId} {w v : World} {past : List Heard} (h : Informed b w past)
    (hlater : ∀ type s, w.store? type = some s → ∃ t, v.store? type = some t ∧ s.Later t) :
    Informed b v past := by
  refine ⟨h.named, fun type item rs hread => ?_⟩
  obtain ⟨s, hs, hrs⟩ := h.read type item rs hread
  obtain ⟨t, ht, hlater⟩ := hlater type s hs
  exact ⟨t, ht, fun r hr => ⟨(hrs r hr).1, (hrs r hr).2.mono hlater⟩⟩

namespace Pool

/-- The tasks keep to their grounds, and what they heard is true. -/
structure Sound (b : LanguageId) (p : Pool) : Prop where
  world : p.world.Sound b
  grounded : p.Grounded
  informed : ∀ t ∈ p.tasks, Informed b p.world t.past

variable {p q : Pool} {m : Move} {b : LanguageId}

theorem sound_initial (types : List String) {directory : Directory} (engine : Engine)
    (hbase : directory.BaseWithin b) : (initial types directory engine).Sound b where
  world.stores type s hs := by
    obtain ⟨name, _, rfl⟩ := List.mem_map.mp (List.mem_of_find?_eq_some hs)
    exact Store.sound_named name
  world.base := hbase
  grounded := by simp [initial, Grounded]
  informed := by simp [initial]

theorem Step.later (h : Step p m q) (type : String) (s : Store)
    (hs : p.world.store? type = some s) : ∃ t, q.world.store? type = some t ∧ s.Later t := by
  refine ⟨m.at p.world.directory type s, ?_, m.later_at⟩
  rw [h.store? type, hs]
  rfl

theorem Sound.step (h : p.Sound b) (hstep : Step p m q) (hm : m.KeepsBase b) : q.Sound b where
  world.stores type t ht := by
    rw [hstep.store? type] at ht
    obtain ⟨s, hs, rfl⟩ := Option.map_eq_some_iff.mp ht
    exact m.sound_at (h.world.stores type s hs)
  world.base := by
    by_cases hset : ∃ d, m = .change (.setDirectory d)
    · obtain ⟨d, rfl⟩ := hset
      cases hstep
      exact hm
    · rw [hstep.directory fun d hd => hset ⟨d, hd⟩]
      exact h.world.base
  grounded := h.grounded.step hstep
  informed :=
    hstep.forall_tasks h.informed (fun t _ ht => ht.mono hstep.later) (fun _ _ => .nil b q.world)
      fun _ _ c _ _ _ _ ht => (h.world.informed_answer ht c).mono hstep.later

theorem Sound.run {allowed : Move → Prop} {log : List Entry} (h : p.Sound b)
    (hallowed : ∀ m, allowed m → m.KeepsBase b) (hrun : Run allowed p log q) : q.Sound b := by
  induction hrun with
  | refl => exact h
  | step hrun hm hstep ih => exact ih.step hstep (hallowed _ hm)

end Pool

end Polyglot

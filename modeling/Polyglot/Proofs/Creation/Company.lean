import Polyglot.Proofs.Pool.Knowledge
import Polyglot.Proofs.Pool.Offer
import Polyglot.Proofs.Program.Beside
import Polyglot.Proofs.Store.Place

namespace Polyglot

def World.languagesOf (w : World) (type : String) (item : ItemId) : List LanguageId :=
  (w.store? type).elim [] (·.languagesOf item)

theorem Call.languagesOf_subset_at (c : Call) (d : Directory) (type : String) (s : Store)
    (item : ItemId) : s.languagesOf item ⊆ (c.at d type s).languagesOf item := by
  rcases c.becomes_at d type s with heq | ⟨q, _, hbecomes⟩
  · rw [heq]
    exact List.Subset.refl _
  · exact hbecomes.languagesOf_subset item

namespace Creation

/-- Where a creation takes place: the languages stay what they are, and nothing fails. -/
structure Scene (d : Directory) (type : String) (item : ItemId) (w : World) (s : Store) :
    Prop where
  directory : w.directory = d
  store : w.store? type = some s
  sound : s.Sound
  faults : s.faults = .none
  item : s.items.contains item = true

/-- What passes may do to the records. -/
structure Drift (d : Directory) (item : ItemId) (s t : Store) : Prop where
  pinned : ∀ r ∈ s.records, r.follows = false → r ∈ t.records
  grown : s.languagesOf item ⊆ t.languagesOf item
  founded : s.languagesOf item = [] → t.languagesOf item = []
  offered : ∀ l ∈ t.languagesOf item, l ∈ s.languagesOf item ∨ l ∈ d.active.map (·.id)

/-- What a pass heard of the languages is so, and an item of which it was shown records has
some. -/
structure Aware (d : Directory) (type : String) (item : ItemId) (w : World) (past : List Heard) :
    Prop where
  offered : ∀ l, Offered past type l → l ∈ d.active.map (·.id)
  read : ∀ rs, (⟨.content type (.records item), .ok rs⟩ : Heard) ∈ past → rs ≠ [] →
    w.languagesOf type item ≠ []

/-- Passes, each as far as it has got. -/
def Company (d : Directory) (type : String) (item : ItemId)
    (others : List (Service (Engine → Engine))) (w : World) : Prop :=
  ∀ p ∈ others, ∃ past, p.Grounded Background (fun _ _ => True) past ∧ Aware d type item w past

def Gains (type : String) (item : ItemId) (x : Program.Asked Call World) : Prop :=
  ¬ (World.answer x.question x.state).2.languagesOf type item ⊆ x.state.languagesOf type item

variable {d : Directory} {type : String} {item : ItemId} {w v : World} {s t u : Store}
  {past : List Heard}

theorem Scene.languagesOf (h : Scene d type item w s) :
    w.languagesOf type item = s.languagesOf item := by
  rw [World.languagesOf, h.store, Option.elim_some]

theorem Scene.answer (h : Scene d type item w s) (c : Call) :
    Scene d type item (World.answer c w).2 (c.at d type s) where
  directory := (World.directory_answer c).trans h.directory
  store := by
    rw [World.store?_answer, h.store, h.directory]
    rfl
  sound := c.sound_at h.sound
  faults := (c.at_faults d type s).1.trans h.faults
  item := by
    rw [(c.at_faults d type s).2]
    exact h.item

theorem Drift.refl (d : Directory) (item : ItemId) (s : Store) : Drift d item s s :=
  ⟨fun _ hr _ => hr, fun _ hl => hl, id, fun _ hl => Or.inl hl⟩

theorem Drift.trans (h : Drift d item s t) (h' : Drift d item t u) : Drift d item s u where
  pinned r hr hfollows := h'.pinned r (h.pinned r hr hfollows) hfollows
  grown _ hl := h'.grown (h.grown hl)
  founded hnone := h'.founded (h.founded hnone)
  offered l hl := (h'.offered l hl).elim (h.offered l) Or.inr

theorem Aware.nil (d : Directory) (type : String) (item : ItemId) (w : World) :
    Aware d type item w [] where
  offered l hl := by
    cases hl with
    | listed ls hheard hl => cases hheard
    | resolved code l hheard havailable hid => cases hheard
  read := nofun

theorem Aware.mono (h : Aware d type item w past)
    (hgrown : w.languagesOf type item ⊆ v.languagesOf type item) : Aware d type item v past where
  offered := h.offered
  read rs hread hrs hnone := h.read rs hread hrs (List.subset_nil.mp (hnone ▸ hgrown))

theorem Scene.offered (hw : Scene d type item w s) (h : Aware d type item w past) (c : Call)
    {l : LanguageId} (hl : Offered (⟨c, (World.answer c w).1⟩ :: past) type l) :
    l ∈ d.active.map (·.id) := by
  cases hl with
  | listed ls hheard hl =>
      rcases List.mem_cons.mp hheard with heq | hheard
      · obtain ⟨s', _, hreply⟩ := World.store?_of_reply (World.told heq)
        rw [hw.directory] at hreply
        rw [← Except.ok.inj hreply] at hl
        exact hl
      · exact h.offered l (.listed ls hheard hl)
  | resolved code language hheard havailable hid =>
      rcases List.mem_cons.mp hheard with heq | hheard
      · have hreply := Except.ok.inj (World.told heq)
        rw [hw.directory] at hreply
        exact hid ▸ Directory.id_mem_active hreply havailable
      · exact h.offered l (.resolved code language hheard havailable hid)

theorem Scene.aware (hw : Scene d type item w s) (h : Aware d type item w past) (c : Call) :
    Aware d type item (World.answer c w).2 (⟨c, (World.answer c w).1⟩ :: past) := by
  have hgrown : w.languagesOf type item ⊆ (World.answer c w).2.languagesOf type item := by
    rw [hw.languagesOf, (hw.answer c).languagesOf]
    exact c.languagesOf_subset_at d type s item
  refine ⟨fun l hl => hw.offered h c hl, fun rs hread hrs hnone => ?_⟩
  rcases List.mem_cons.mp hread with heq | hread
  · obtain ⟨s', hs', hreply⟩ := World.store?_of_reply (World.told heq)
    cases hw.store.symm.trans hs'
    obtain ⟨r, hr⟩ := List.exists_mem_of_ne_nil rs hrs
    rw [← Except.ok.inj hreply] at hr
    obtain ⟨hr, hitem⟩ := Store.mem_recordsOf.mp hr
    have hl : r.language ∈ w.languagesOf type item := by
      rw [hw.languagesOf]
      exact Store.mem_languagesOf.mpr ⟨r, hr, hitem, rfl⟩
    have hafter := hgrown hl
    rw [hnone] at hafter
    cases hafter
  · exact (h.mono hgrown).read rs hread hrs hnone

theorem Scene.drift (hw : Scene d type item w s) (h : Aware d type item w past) {c : Call}
    (hc : Background past c) : Drift d item s (c.at d type s) := by
  have hgrown := c.languagesOf_subset_at d type s item
  rcases c.becomes_at d type s with heq | ⟨q, rfl, hbecomes⟩
  · rw [heq]
    exact .refl d item s
  · generalize (Call.content type q).at d type s = t at hbecomes hgrown
    cases hbecomes with
    | same => exact .refl d item s
    | inserted target drafts actor =>
        cases hc with
        | look hlooks => cases hlooks
        | add _ hread hrs hoffered =>
            refine ⟨fun r hr _ => List.mem_append_left _ hr, hgrown, fun hnone => ?_, ?_⟩
            · refine List.eq_nil_iff_forall_not_mem.mpr fun l hl => ?_
              rcases (Store.mem_languagesOf_append s target drafts actor).mp hl with hl | ⟨rfl, _⟩
              · rw [hnone] at hl
                cases hl
              · exact h.read _ hread hrs (hw.languagesOf.trans hnone)
            · intro l hl
              refine ((Store.mem_languagesOf_append s target drafts actor).mp hl).imp id ?_
              rintro ⟨-, hl⟩
              obtain ⟨draft, hdraft, rfl⟩ := List.mem_map.mp hl
              exact h.offered _ (hoffered draft hdraft)
    | overwritten r text actor hr hfollows =>
        have hsame {l : LanguageId} : l ∈ (s.put r.id text true actor).languagesOf item ↔
            l ∈ s.languagesOf item :=
          Store.mem_languagesOf_congr (Store.map_place_put s r.id text true actor)
        refine ⟨fun r' hr' hpinned => ?_, hgrown, fun hnone => ?_, fun l hl => ?_⟩
        · refine Store.mem_put.mpr (Or.inl ⟨hr', fun hid => ?_⟩)
          rw [hw.sound.eq_of_id hr' hr hid, hfollows] at hpinned
          cases hpinned
        · refine List.eq_nil_iff_forall_not_mem.mpr fun l hl => ?_
          rw [hsame, hnone] at hl
          cases hl
        · exact Or.inl (hsame.mp hl)
    | written r text follows actor hr =>
        generalize r.id = id at hc
        cases hc with
        | look hlooks => cases hlooks

section Company

variable {others others' : List (Service (Engine → Engine))}
  {log : List (Program.Asked Call World)}

theorem Company.stays (h : Company d type item others w) (hw : Scene d type item w s) (c : Call) :
    Company d type item others (World.answer c w).2 := by
  intro p hp
  obtain ⟨past, hgrounded, haware⟩ := h p hp
  refine ⟨past, hgrounded, haware.mono ?_⟩
  rw [hw.languagesOf, (hw.answer c).languagesOf]
  exact c.languagesOf_subset_at d type s item

theorem Company.ask {before after : List (Service (Engine → Engine))} {c : Call}
    {next : c.Reply → Service (Engine → Engine)}
    (h : Company d type item (before ++ .ask c next :: after) w) (hw : Scene d type item w s) :
    Drift d item s (c.at d type s) ∧
      Company d type item (before ++ next (World.answer c w).1 :: after)
        (World.answer c w).2 := by
  obtain ⟨past, hgrounded, haware⟩ := h _ List.mem_append_cons_self
  refine ⟨hw.drift haware hgrounded.1, fun p hp => ?_⟩
  rw [List.mem_append, List.mem_cons, or_left_comm, ← List.mem_append] at hp
  rcases hp with rfl | hp
  · exact ⟨_, hgrounded.2 _, hw.aware haware c⟩
  · refine h.stays hw c p ?_
    rw [List.mem_append] at hp ⊢
    exact hp.imp_right (List.mem_cons_of_mem _)

/-- However far the passes go on, an item gains what single calls of theirs add. -/
theorem Company.meanwhile
    (hmeanwhile : Program.Meanwhile World.answer others w log others' v)
    (h : Company d type item others w) (hw : Scene d type item w s) :
    ∃ t, Scene d type item v t ∧ Company d type item others' v ∧ Drift d item s t ∧
      ((∃ x ∈ log, Gains type item x) ↔ ¬ t.languagesOf item ⊆ s.languagesOf item) := by
  induction hmeanwhile generalizing s with
  | rest others w =>
      refine ⟨s, hw, h, .refl d item s, ?_⟩
      simp
  | @ask before after c next w v log others' _ ih =>
      obtain ⟨hdrift, hcompany⟩ := h.ask hw
      obtain ⟨t, hv, hcompany', hdrift', hgains⟩ := ih hcompany (hw.answer c)
      refine ⟨t, hv, hcompany', hdrift.trans hdrift', ?_⟩
      have hfirst : Gains type item ⟨false, c, w⟩ ↔
          ¬ (c.at d type s).languagesOf item ⊆ s.languagesOf item := by
        rw [Gains, hw.languagesOf, (hw.answer c).languagesOf]
      rw [List.exists_mem_cons_iff, hfirst, hgains, ← not_and_or, not_iff_not]
      constructor
      · rintro ⟨hnow, hlater⟩
        exact List.Subset.trans hlater hnow
      · intro hall
        exact ⟨fun l hl => hall (hdrift'.grown hl), fun l hl => hdrift.grown (hall hl)⟩

end Company

/-- With this store a program goes on to its end in the company of passes. -/
def Accompanied {α : Type} (d : Directory) (type : String) (item : ItemId) (s : Store)
    (p : Service α) (log : List (Program.Asked Call World)) (result : α) (v : World) : Prop :=
  ∃ (others : List (Service (Engine → Engine))) (w : World), Scene d type item w s ∧
    Company d type item others w ∧ Program.Beside World.answer p others w log result v

section Accompanied

variable {α : Type} {log : List (Program.Asked Call World)} {result : α}

theorem Accompanied.ask {q : Query} {next : q.Reply → Service α}
    (h : Accompanied d type item s (.ask (.content type q) next) log result v) :
    ∃ between w rest t, log = between ++ ⟨true, .content type q, w⟩ :: rest ∧
      (∀ x ∈ between, x.own = false) ∧ Scene d type item w t ∧ Drift d item s t ∧
      ((∃ x ∈ between, Gains type item x) ↔ ¬ t.languagesOf item ⊆ s.languagesOf item) ∧
      Accompanied d type item (t.answer d q).2 (next (t.answer d q).1) rest result v := by
  obtain ⟨others, w, hw, hcompany, hbeside⟩ := h
  cases hbeside with
  | @ask _ _ _ others' _ w' _ between rest _ hbetween hrest =>
      obtain ⟨t, hw', hcompany', hdrift, hgains⟩ := hcompany.meanwhile hbetween hw
      have hat : (Call.content type q).at d type t = (t.answer d q).2 := if_pos rfl
      have hafter := hw'.answer (.content type q)
      rw [hat] at hafter
      rw [World.reply_answer hw'.store, hw'.directory] at hrest
      exact ⟨between, w', rest, t, rfl, hbetween.not_own, hw', hdrift, hgains, others', _, hafter,
        hcompany'.stays hw' _, hrest⟩

theorem Accompanied.done {a : α} (h : Accompanied d type item s (.done a) log result v) :
    result = a ∧ (∀ x ∈ log, x.own = false) ∧ ∃ t, Scene d type item v t ∧ Drift d item s t ∧
      ((∃ x ∈ log, Gains type item x) ↔ ¬ t.languagesOf item ⊆ s.languagesOf item) := by
  obtain ⟨others, w, hw, hcompany, hbeside⟩ := h
  cases hbeside with
  | done _ hmeanwhile =>
      obtain ⟨t, hv, -, hdrift, hgains⟩ := hcompany.meanwhile hmeanwhile hw
      exact ⟨rfl, hmeanwhile.not_own, t, hv, hdrift, hgains⟩

end Accompanied

end Creation

end Polyglot

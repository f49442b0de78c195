import Polyglot.Proofs.Pool.Knowledge
import Polyglot.Proofs.Pool.Schedule

namespace Polyglot

/-- Only an editor may write this record. -/
def Record.Protected (b : LanguageId) (r : Record) : Prop := r.follows = false ∨ r.language = b

def World.Holds (w : World) (type : String) (r : Record) : Prop :=
  ∃ s, w.store? type = some s ∧ r ∈ s.records

/-- An editor writes the record of an item in a language. Only a copy outside the base language
can come of an unpinning. -/
inductive Move.Rewrites (b : LanguageId) (type : String) (item : ItemId) (language : LanguageId)
    (id : RecordId) : Move → Text → Bool → Actor → Prop where
  | edit (text : Text) (actor : Actor) :
      Rewrites b type item language id
        (.call (.edit type item language text actor) (.content type (.write id text false actor)))
        text false actor
  | unpin (text : Text) (actor : Actor) (hlanguage : language ≠ b) :
      Rewrites b type item language id
        (.call (.unpin type item language actor) (.content type (.write id text true actor)))
        text true actor

theorem Change.keeps {s : Store} {r : Record} (c : Change) (type : String)
    (hr : r ∈ s.records) : r ∈ (c.at type s).records ∨ c = .delete type r.item := by
  rcases c.at_cases type s with
    h | ⟨item, h⟩ | ⟨item, h⟩ | ⟨item, rfl, h⟩ | ⟨faults, h⟩ <;> rw [h]
  · exact Or.inl hr
  · exact Or.inl hr
  · rw [Store.records_softDelete]
    exact Or.inl hr
  · by_cases hitem : r.item = item
    · exact Or.inr (hitem ▸ rfl)
    · exact Or.inl (List.mem_filter.mpr ⟨hr, decide_eq_true hitem⟩)
  · exact Or.inl hr

namespace Pool

variable {p q : Pool} {m : Move} {b : LanguageId} {type : String}

theorem Sound.grounds (h : p.Sound b) {job : Job} {c : Call} (hstep : Step p (.call job c) q) :
    ∃ past, job.Grounds past c ∧ Informed b p.world past := by
  obtain ⟨past, next, hmem⟩ := hstep.caller
  exact ⟨past, (h.grounded _ hmem).1, h.informed _ hmem⟩

theorem Sound.overwrites_outside (h : p.Sound b) {job : Job} {id : RecordId} {text : Text}
    {actor : Actor} (hstep : Step p (.call job (.content type (.overwriteCopy id text actor))) q)
    {s : Store} (hs : p.world.store? type = some s) {r : Record} (hr : r ∈ s.records)
    (hid : r.id = id) : r.language ≠ b := by
  obtain ⟨past, hgrounds, hi⟩ := h.grounds hstep
  cases hgrounds with
  | look hlooks => cases hlooks
  | followed hnamed hread hmem =>
      obtain ⟨hmem, _, hlanguage⟩ := Copies.mem_among.mp hmem
      rw [(hi.place hread hs hmem hr hid).2, ← hi.named _ _ hnamed]
      exact hlanguage
  | refreshed hjob hread hmem =>
      obtain ⟨hmem, _, hlanguage⟩ := Copies.mem_among.mp hmem
      rw [(hi.place hread.read hs hmem hr hid).2, ← hi.base hread]
      exact hlanguage

theorem Sound.writes_own (h : p.Sound b) {job : Job} {id : RecordId} {text : Text}
    {follows : Bool} {actor : Actor}
    (hstep : Step p (.call job (.content type (.write id text follows actor))) q)
    {s : Store} (hs : p.world.store? type = some s) {r : Record} (hr : r ∈ s.records)
    (hid : r.id = id) :
    (Move.call job (.content type (.write id text follows actor))).Rewrites b type r.item
      r.language id text follows actor := by
  obtain ⟨past, hgrounds, hi⟩ := h.grounds hstep
  cases hgrounds with
  | look hlooks => cases hlooks
  | edited hread hfind =>
      obtain ⟨hitem, hlanguage⟩ :=
        hi.place hread hs (List.mem_of_find?_eq_some hfind) hr hid
      have hfound := Copies.language_of_find? hfind
      rw [hitem, hlanguage, hfound]
      exact .edit text actor
  | unpinned hread hbase hfind =>
      obtain ⟨hitem, hlanguage⟩ :=
        hi.place hread.read hs (List.mem_of_find?_eq_some hfind) hr hid
      have hfound := Copies.language_of_find? hfind
      rw [hitem, hlanguage, hfound]
      exact .unpin _ actor fun heq => hbase ((hi.base hread).trans heq.symm)

/-- One step leaves a protected record alone, or is an editor's write of it, or deletes its
item. -/
theorem Sound.keeps (h : p.Sound b) (hstep : Step p m q) {r : Record}
    (hr : p.world.Holds type r) (hprotected : r.Protected b) :
    q.world.Holds type r ∨
      (∃ text follows actor now,
        m.Rewrites b type r.item r.language r.id text follows actor ∧
          q.world.Holds type (r.rewritten text follows actor now)) ∨
      m = .change (.delete type r.item) := by
  obtain ⟨s, hs, hr⟩ := hr
  have hholds {r' : Record} (hr' : r' ∈ (m.at p.world.directory type s).records) :
      q.world.Holds type r' := by
    refine ⟨m.at p.world.directory type s, ?_, hr'⟩
    rw [hstep.store? type, hs]
    rfl
  have hsound := h.world.stores type s hs
  cases m with
  | call job c =>
      rcases c.becomes_at p.world.directory type s with
        heq | ⟨query, rfl, hbecomes⟩
      · refine Or.inl (hholds ?_)
        change r ∈ (c.at p.world.directory type s).records
        rwa [heq]
      · generalize ht : (Call.content type query).at p.world.directory type s = t at hbecomes
        have hstore : (Move.call job (.content type query)).at p.world.directory type s = t := ht
        rw [hstore] at hholds
        cases hbecomes with
        | same => exact Or.inl (hholds hr)
        | inserted item drafts actor => exact Or.inl (hholds (List.mem_append_left _ hr))
        | overwritten r₀ text actor hr₀ hfollows =>
            by_cases hid : r.id = r₀.id
            · have hout := h.overwrites_outside hstep hs hr hid
              rw [← hsound.eq_of_id hr hr₀ hid] at hfollows
              rcases hprotected with hpinned | hbase
              · rw [hfollows] at hpinned
                cases hpinned
              · exact absurd hbase hout
            · exact Or.inl (hholds (Store.mem_put.mpr (Or.inl ⟨hr, hid⟩)))
        | written r₀ text follows actor hr₀ =>
            by_cases hid : r.id = r₀.id
            · refine Or.inr (Or.inl ⟨text, follows, actor, s.clock, ?_, ?_⟩)
              · rw [hid]
                exact h.writes_own hstep hs hr hid
              · exact hholds (Store.mem_put.mpr (Or.inr ⟨r, hr, hid, rfl⟩))
            · exact Or.inl (hholds (Store.mem_put.mpr (Or.inl ⟨hr, hid⟩)))
  | change c =>
      rcases c.keeps type hr with hr | rfl
      · exact Or.inl (hholds hr)
      · exact Or.inr (Or.inr rfl)
  | start job => exact Or.inl (hholds hr)
  | finish job => exact Or.inl (hholds hr)
  | take event => exact Or.inl (hholds hr)

theorem Sound.keeps_through (h : p.Sound b) {log : List Entry}
    (hrun : Run (Move.KeepsBase b) p log q) {r : Record} (hr : p.world.Holds type r)
    (hprotected : r.Protected b)
    (hquiet : ∀ e ∈ log, (∀ text follows actor,
        ¬ e.move.Rewrites b type r.item r.language r.id text follows actor) ∧
      e.move ≠ .change (.delete type r.item)) :
    q.world.Holds type r := by
  induction hrun with
  | refl => exact hr
  | step hrun hm hstep ih =>
      have hr := ih fun e he => hquiet e (List.mem_cons_of_mem _ he)
      have hlast := hquiet _ List.mem_cons_self
      rcases (h.run (fun _ hm => hm) hrun).keeps hstep hr hprotected with
        hr | ⟨text, follows, actor, now, hrewrites, _⟩ | hdelete
      · exact hr
      · exact absurd hrewrites (hlast.1 text follows actor)
      · exact absurd hdelete hlast.2

theorem Sound.unique (h : p.Sound b) {r r' : Record} (hr : p.world.Holds type r)
    (hr' : p.world.Holds type r') (hitem : r'.item = r.item)
    (hlanguage : r'.language = r.language) : r' = r := by
  obtain ⟨s, hs, hr⟩ := hr
  obtain ⟨t, ht, hr'⟩ := hr'
  cases hs.symm.trans ht
  exact (h.world.stores type s hs).eq_of_key hr' hr hitem hlanguage

theorem Sound.edited (h : p.Sound b) {item : ItemId} {language : LanguageId} {text : Text}
    {actor : Actor} {id : RecordId}
    (hstep : Step p (.call (.edit type item language text actor)
      (.content type (.write id text false actor))) q)
    (hreply : (World.answer (.content type (.write id text false actor)) p.world).1 = .ok ()) :
    ∃ r, q.world.Holds type r ∧ r.id = id ∧ r.item = item ∧ r.language = language ∧
      r.text = text ∧ r.follows = false ∧ r.updatedBy = actor := by
  obtain ⟨s, hs, hreply⟩ := World.store?_of_reply hreply
  simp only [Store.answer, Store.write] at hreply
  cases hfind : s.record? id with
  | none =>
      rw [hfind] at hreply
      cases hreply
  | some r =>
      have hr := List.mem_of_find?_eq_some hfind
      have hid : r.id = id := by simpa using List.find?_some hfind
      have hput : q.world.store? type = some (s.put id text false actor) := by
        rw [hstep.store? type, hs]
        simp [Move.at, Call.at, Store.answer, Store.write, Store.settle, hfind]
      have hplace := h.writes_own hstep hs hr hid
      generalize hitem : r.item = item' at hplace
      generalize hlanguage : r.language = language' at hplace
      cases hplace
      have hmem : r.rewritten text false actor s.clock ∈ (s.put id text false actor).records :=
        Store.mem_put.mpr (Or.inr ⟨r, hr, hid, rfl⟩)
      exact ⟨_, ⟨_, hput, hmem⟩, hid, hitem, hlanguage, rfl, rfl, rfl⟩

/-- A protected record stays as it is through every step of every run, until an edit or an
unpinning of exactly this record writes, or its item is deleted. What an edit wrote therefore
stands until the next such write. -/
theorem protected_record_stays {types : List String} {directory : Directory} {engine : Engine}
    {past : List Entry} (hbase : directory.BaseWithin b)
    (hrun : Run (Move.KeepsBase b) (initial types directory engine) past p) :
    (∀ m q type r, m.KeepsBase b → Step p m q → p.world.Holds type r → r.Protected b →
      q.world.Holds type r ∨
        (∃ text follows actor now,
          m.Rewrites b type r.item r.language r.id text follows actor ∧
            q.world.Holds type (r.rewritten text follows actor now)) ∨
        m = .change (.delete type r.item)) ∧
    ∀ type item language text actor id q log q',
      Step p (.call (.edit type item language text actor)
        (.content type (.write id text false actor))) q →
      (World.answer (.content type (.write id text false actor)) p.world).1 = .ok () →
      Run (Move.KeepsBase b) q log q' →
      (∀ e ∈ log, (∀ text follows actor,
          ¬ e.move.Rewrites b type item language id text follows actor) ∧
        e.move ≠ .change (.delete type item)) →
      ∃ r, q'.world.Holds type r ∧ r.id = id ∧ r.item = item ∧ r.language = language ∧
        r.text = text ∧ r.follows = false ∧ r.updatedBy = actor ∧
        ∀ r', q'.world.Holds type r' → r'.item = item → r'.language = language → r' = r := by
  have hp : p.Sound b := (sound_initial types engine hbase).run (fun _ hm => hm) hrun
  constructor
  · intro m q type r _ hstep hr hprotected
    exact hp.keeps hstep hr hprotected
  · intro type item language text actor id q log q' hstep hreply hlater hquiet
    obtain ⟨r, hr, rfl, rfl, rfl, htext, hpinned, hactor⟩ := hp.edited hstep hreply
    have hq : q.Sound b := hp.step hstep trivial
    have hr' := hq.keeps_through hlater hr (Or.inl hpinned) hquiet
    refine ⟨r, hr', rfl, rfl, rfl, htext, hpinned, hactor, ?_⟩
    intro r' hr'' hitem hlanguage
    exact (hq.run (fun _ hm => hm) hlater).unique hr' hr'' hitem hlanguage

end Pool

namespace Bilingual

/-- A pass has read the outdated copy, and an editor is about to pin it. -/
def aboutToPin : List Turn :=
  outdated ++ .start (.reconcile "page" "sync") :: List.replicate 4 (.task 0) ++
    .start (.edit "page" 7 2 (title "Salut") "bob") :: List.replicate 3 (.task 1)

def pinning : Pool := (pool.play aboutToPin).2

def pinned : Pool := (pinning.play [.task 1]).2

def passGoesOn : List Turn := [.task 0, .task 0, .task 1, .task 0]

end Bilingual

namespace Pool

open Bilingual in
theorem pin_outlives_stale_pass :
    directory.BaseWithin 1 ∧
      Run (Move.KeepsBase 1) pool (pool.play aboutToPin).1 pinning ∧
      Step pinning (.call (.edit "page" 7 2 (title "Salut") "bob")
        (.content "page" (.write 2 (title "Salut") false "bob"))) pinned ∧
      (pinned.play passGoesOn).1.map (·.move) =
        [.finish (.edit "page" 7 2 (title "Salut") "bob"), .finish (.reconcile "page" "sync"),
          .call (.reconcile "page" "sync")
            (.content "page" (.overwriteCopy 2 (title "Welcome") "sync"))] ∧
      ∃ r, (pinned.play passGoesOn).2.world.Holds "page" r ∧ r.id = 2 ∧ r.item = 7 ∧
        r.language = 2 ∧ r.text = title "Salut" ∧ r.follows = false ∧ r.updatedBy = "bob" ∧
        ∀ r', (pinned.play passGoesOn).2.world.Holds "page" r' → r'.item = 7 →
          r'.language = 2 → r' = r := by
  have hbase : directory.BaseWithin 1 := by decide
  have hrun : Run (Move.KeepsBase 1) pool (pool.play aboutToPin).1 pinning := by
    have hall : (pool.play aboutToPin).1.all (·.move.KeepsBase 1) = true := by cbv
    exact run_play fun e he => of_decide_eq_true (List.all_eq_true.mp hall e he)
  have hstep : Step pinning (.call (.edit "page" 7 2 (title "Salut") "bob")
      (.content "page" (.write 2 (title "Salut") false "bob"))) pinned := by
    refine step_play ?_
    cbv
  have hreply :
      (World.answer (.content "page" (.write 2 (title "Salut") false "bob")) pinning.world).1 =
        .ok () := by
    cbv
  have hmoves : (pinned.play passGoesOn).1.map (·.move) =
      [.finish (.edit "page" 7 2 (title "Salut") "bob"), .finish (.reconcile "page" "sync"),
        .call (.reconcile "page" "sync")
          (.content "page" (.overwriteCopy 2 (title "Welcome") "sync"))] := by
    cbv
  have hmem {e : Entry} (he : e ∈ (pinned.play passGoesOn).1) :=
    List.mem_map_of_mem (f := Entry.move) he
  simp only [hmoves, List.mem_cons, List.not_mem_nil, or_false] at hmem
  have hlater : Run (Move.KeepsBase 1) pinned (pinned.play passGoesOn).1
      (pinned.play passGoesOn).2 := by
    refine run_play fun e he => ?_
    rcases hmem he with h | h | h <;> rw [h] <;> trivial
  have hquiet : ∀ e ∈ (pinned.play passGoesOn).1, (∀ text follows actor,
      ¬ e.move.Rewrites 1 "page" 7 2 2 text follows actor) ∧
        e.move ≠ .change (.delete "page" 7) := by
    intro e he
    rcases hmem he with h | h | h <;> rw [h]
    all_goals
      constructor
      · intro _ _ _ hrewrites
        cases hrewrites
      · intro hdelete
        cases hdelete
  exact ⟨hbase, hrun, hstep, hmoves,
    (protected_record_stays hbase hrun).2 "page" 7 2 (title "Salut") "bob" 2 pinned _ _ hstep
      hreply hlater hquiet⟩

end Pool

end Polyglot

import Polyglot.Proofs.Creation.Company
import Polyglot.Proofs.Reconciliation.Recovery

namespace Polyglot

/-- The error is about the request, not about a store. -/
def Error.isRefusal : Error → Bool
  | .invalid _ => true
  | .notFound .. => true
  | .storage _ => false

/-- No fault keeps pinned records out of a store. -/
theorem Store.insert_pinned (s : Store) (item : ItemId) {drafts : List Draft} (actor : Actor)
    (hpinned : drafts.any (·.follows) = false) :
    s.insert item drafts actor =
      if !s.items.contains item then .error (.noItem item)
      else
        match firstRepeat (s.languagesOf item) (drafts.map (·.language)) with
        | some language => .error (.storage (.duplicate item language))
        | none => .ok (s.append item drafts actor) := by
  rw [insert, hpinned, Bool.and_false]
  rfl

namespace World

variable {w v u : World} {type : String} {item : ItemId} {c : Call} {α β : Type}

def Gone (w : World) (type : String) (item : ItemId) : Prop :=
  ∀ s, w.store? type = some s → s.live item = false

def recordsOf (w : World) (type : String) (item : ItemId) : List Record :=
  (w.store? type).elim [] (·.recordsOf item)

/-- The same languages and the same stores are found in both. -/
structure Alike (w v : World) : Prop where
  directory : v.directory = w.directory
  stores : v.store? = w.store?

/-- The program ends with a refusal, and what it asked changed nothing. -/
def Refuses (w : World) (p : Service (Except Error α)) : Prop :=
  ∃ e v, p.run World.answer w = (.error e, v) ∧ e.isRefusal = true ∧ w.Alike v

theorem Alike.refl (w : World) : w.Alike w := ⟨rfl, rfl⟩

theorem Alike.trans (h : w.Alike v) (h' : v.Alike u) : w.Alike u :=
  ⟨h'.directory.trans h.directory, h'.stores.trans h.stores⟩

theorem Gone.alike (h : w.Gone type item) (halike : w.Alike v) : v.Gone type item :=
  fun s hs => h s (by rw [← hs, halike.stores])

theorem Alike.recordsOf (h : w.Alike v) (type : String) (item : ItemId) :
    v.recordsOf type item = w.recordsOf type item := by
  rw [World.recordsOf, World.recordsOf, h.stores]

theorem mem_languagesOf_iff {language : LanguageId} :
    language ∈ w.languagesOf type item ↔ language ∈ (w.recordsOf type item).map (·.language) := by
  rw [languagesOf, recordsOf]
  cases w.store? type with
  | none => rfl
  | some s => exact Store.mem_map_language_recordsOf.symm

theorem languagesOf_subset_run (p : Service α) (w : World) (type : String) (item : ItemId) :
    w.languagesOf type item ⊆ (p.run World.answer w).2.languagesOf type item := by
  induction p generalizing w with
  | done a => exact List.Subset.refl _
  | ask c next ih =>
      refine List.Subset.trans ?_ (ih (answer c w).1 (answer c w).2)
      rw [languagesOf, languagesOf, store?_answer]
      cases w.store? type with
      | none => exact List.Subset.refl _
      | some s => exact c.languagesOf_subset_at w.directory type s item

theorem alike_of_at (h : ∀ type s, w.store? type = some s → c.at w.directory type s = s) :
    w.Alike (answer c w).2 where
  directory := directory_answer c
  stores := by
    funext type
    rw [store?_answer]
    cases hs : w.store? type with
    | none => rfl
    | some s => rw [Option.map_some, h type s hs]

theorem alike_answer (hlooks : c.looks = true) : w.Alike (answer c w).2 := by
  refine alike_of_at fun type s _ => ?_
  cases c with
  | directory l => rfl
  | content target q =>
      have hq : q.writes = false := by cases q <;> first | rfl | cases hlooks
      rw [Call.at, Store.answer_of_not_writes w.directory s hq, ite_self]

theorem Gone.hasItem (h : w.Gone type item) {reply : Except Error Bool}
    (hreply : (answer (.content type (.hasItem item)) w).1 = reply) :
    reply = .ok false ∨ reply = .error (.notFound .contentType type) := by
  subst hreply
  cases hs : w.store? type with
  | none =>
      refine Or.inr ?_
      simp only [answer, hs]
  | some s =>
      rw [reply_answer hs, Store.answer, h s hs]
      exact Or.inl rfl

theorem refuses_error {e : Error} (he : e.isRefusal = true) :
    w.Refuses (.done (.error e) : Service (Except Error α)) :=
  ⟨e, w, rfl, he, .refl w⟩

theorem Refuses.ask {next : c.Reply → Service (Except Error α)} (hlooks : c.looks = true)
    (h : (answer c w).2.Refuses (next (answer c w).1)) : w.Refuses (.ask c next) := by
  obtain ⟨e, v, hrun, he, halike⟩ := h
  exact ⟨e, v, hrun, he, (alike_answer hlooks).trans halike⟩

theorem Refuses.bind {x : Attempt β} {f : β → Attempt α} (h : w.Refuses (Flow.on type x.run)) :
    w.Refuses (Flow.on type (x >>= f).run) := by
  obtain ⟨e, v, hrun, he, halike⟩ := h
  refine ⟨e, v, ?_, he, halike⟩
  rw [ExceptT.run_bind, Flow.on_bind, Program.run_bind, hrun]
  rfl

theorem run_bind_ok {x : Attempt β} {f : β → Attempt α} {b : β}
    (h : (Flow.on type x.run).run World.answer w = (.ok b, v)) :
    (Flow.on type (x >>= f).run).run World.answer w =
      (Flow.on type (f b).run).run World.answer v := by
  rw [ExceptT.run_bind, Flow.on_bind, Program.run_bind, h]

theorem Refuses.of_run_eq {p q : Service (Except Error α)} (halike : w.Alike v)
    (hrun : p.run World.answer w = q.run World.answer v) (h : v.Refuses q) : w.Refuses p := by
  obtain ⟨e, u, hu, he, h⟩ := h
  exact ⟨e, u, hrun.trans hu, he, halike.trans h⟩

/-- What a look-up is followed by. It fails only where the content type has no store. -/
theorem run_lookup (w : World) (type : String) (l : Lookup) (f : l.Answer → Attempt α) :
    (w.store? type = none ∧ w.Refuses (Flow.on type (Flow.demand (.language l) >>= f).run)) ∨
      ∃ v, w.Alike v ∧
        (Flow.on type (Flow.demand (.language l) >>= f).run).run World.answer w =
          (Flow.on type (f (w.directory.answer l)).run).run World.answer v := by
  have halike : w.Alike (answer (.content type (.language l)) w).2 := alike_answer rfl
  rw [Flow.run_demand_bind, Flow.on_ask]
  cases hs : w.store? type with
  | none =>
      refine Or.inl ⟨rfl, .ask rfl ?_⟩
      have hreply : (answer (.content type (.language l)) w).1 =
          .error (.notFound .contentType type) := by
        simp only [answer, hs]
      rw [hreply]
      exact refuses_error rfl
  | some s =>
      refine Or.inr ⟨_, halike, ?_⟩
      rw [Program.run_ask, reply_answer hs]
      rfl

end World

namespace Edit

variable {w : World} {type : String} {item : ItemId} {language : LanguageId} {actor : Actor}

theorem load_refused (h : w.Gone type item) :
    w.Refuses (Flow.on type (load item language).run) := by
  rw [load, Flow.run_hasItem_bind, Flow.on_ask]
  refine .ask rfl ?_
  cases hreply : (World.answer (.content type (.hasItem item)) w).1 with
  | error e =>
      rcases h.hasItem hreply with heq | heq
      · cases heq
      · cases heq
        exact World.refuses_error rfl
  | ok live =>
      rcases h.hasItem hreply with heq | heq
      · cases heq
        exact World.refuses_error rfl
      · cases heq

theorem edit_refused (h : w.Gone type item) (language : LanguageId) (text : Text)
    (actor : Actor) :
    w.Refuses (Flow.on type (edit type item language text actor).run) := by
  rw [edit]
  split
  · exact World.refuses_error rfl
  · exact (load_refused h).bind

theorem unpin_refused (h : w.Gone type item) (language : LanguageId) (actor : Actor) :
    w.Refuses (Flow.on type (unpin item language actor).run) := by
  rw [unpin, Flow.baseLanguage]
  rcases w.run_lookup type .base _ with ⟨_, hrefuses⟩ | ⟨v, halike, hrun⟩
  · exact hrefuses
  · refine .of_run_eq halike hrun ?_
    generalize w.directory.answer .base = base
    cases base with
    | none => exact World.refuses_error rfl
    | some base =>
        dsimp only
        split
        · exact World.refuses_error rfl
        · exact (load_refused (h.alike halike)).bind

end Edit

namespace Creation

variable {w : World} {type : String} {item : ItemId} {inputs : List Submission} {actor : Actor}

theorem requireLanguages_cases (w : World) (type : String) (ids : List LanguageId) :
    ((w.store? type = none ∨ ∃ id ∈ ids, w.directory.byId id = none) ∧
        w.Refuses (Flow.on type (requireLanguages ids).run)) ∨
      (∀ id ∈ ids, (w.directory.byId id).isSome = true) ∧ ∃ v, w.Alike v ∧
        (Flow.on type (requireLanguages ids).run).run World.answer w = (.ok (), v) := by
  induction ids generalizing w with
  | nil => exact Or.inr ⟨nofun, w, .refl w, rfl⟩
  | cons id rest ih =>
      rw [requireLanguages, Flow.languageById]
      rcases w.run_lookup type (.byId id) _ with ⟨hnone, hrefuses⟩ | ⟨v, halike, hrun⟩
      · exact Or.inl ⟨Or.inl hnone, hrefuses⟩
      · cases hfound : w.directory.byId id with
        | none =>
            refine Or.inl ⟨Or.inr ⟨id, List.mem_cons_self, hfound⟩, .of_run_eq halike hrun ?_⟩
            rw [Directory.answer, hfound]
            exact World.refuses_error rfl
        | some l =>
            rw [Directory.answer, hfound] at hrun
            rcases ih v with ⟨hwhy, hrefuses⟩ | ⟨hknown, u, hu, hok⟩
            · refine Or.inl ⟨?_, .of_run_eq halike hrun hrefuses⟩
              rw [halike.stores, halike.directory] at hwhy
              refine hwhy.imp_right ?_
              rintro ⟨id', hid', hnone⟩
              exact ⟨id', List.mem_cons_of_mem id hid', hnone⟩
            · refine Or.inr ⟨?_, u, halike.trans hu, hrun.trans hok⟩
              rw [halike.directory] at hknown
              intro id' hid'
              rcases List.mem_cons.mp hid' with rfl | hid'
              · rw [hfound]
                rfl
              · exact hknown id' hid'

/-- A creation is refused by its checks, or goes on with the batch of what the caller gave. -/
theorem run_create_cases (w : World) (type : String) (item : ItemId) (inputs : List Submission)
    (actor : Actor) :
    ((w.store? type = none ∨ ¬Valid w.directory inputs) ∧
        w.Refuses (Flow.on type (create item inputs actor).run)) ∨
      Valid w.directory inputs ∧ ∃ v rest, w.Alike v ∧
        (Flow.on type (create item inputs actor).run).run World.answer w =
          (Flow.on type (Flow.insert item (inputs.map (·.draft)) actor >>= rest).run).run
            World.answer v := by
  rw [create.eq_def]
  split
  · exact Or.inl ⟨Or.inr fun h => h.given rfl, World.refuses_error rfl⟩
  · rename_i hrepeat
    refine Or.inl ⟨Or.inr fun h => ?_, World.refuses_error rfl⟩
    rw [h.once] at hrepeat
    cases hrepeat
  · rename_i first rest hrepeat
    rcases requireLanguages_cases w type ((first :: rest).map (·.language)) with
      ⟨hwhy, hrefuses⟩ | ⟨hknown, v₁, halike₁, hrun₁⟩
    · refine Or.inl ⟨hwhy.imp_right ?_, hrefuses.bind⟩
      rintro ⟨id, hid, hnone⟩ hvalid
      have hsome := hvalid.known id hid
      rw [hnone] at hsome
      cases hsome
    · have hvalid : Valid w.directory (first :: rest) := ⟨List.cons_ne_nil _ _, hrepeat, hknown⟩
      have hnone {v : World} (halike : w.Alike v) (h : v.store? type = none) :
          w.store? type = none ∨ ¬Valid w.directory (first :: rest) :=
        Or.inl (by rw [← halike.stores, h])
      rcases v₁.run_lookup type .base _ with ⟨hwhy, hrefuses⟩ | ⟨v₂, halike₂, hrun₂⟩
      · refine Or.inl ⟨hnone halike₁ hwhy, .of_run_eq halike₁ ?_ hrefuses⟩
        exact World.run_bind_ok hrun₁
      · have halike₂ := halike₁.trans halike₂
        rcases v₂.run_lookup type .active _ with ⟨hwhy, hrefuses⟩ | ⟨v₃, halike₃, hrun₃⟩
        · refine Or.inl ⟨hnone halike₂ hwhy, .of_run_eq halike₂ ?_ hrefuses⟩
          exact Eq.trans (World.run_bind_ok hrun₁) hrun₂
        · exact Or.inr ⟨hvalid, v₃, _, halike₂.trans halike₃,
            Eq.trans (World.run_bind_ok hrun₁) (hrun₂.trans hrun₃)⟩

theorem any_follows_draft (inputs : List Submission) :
    (inputs.map (·.draft)).any (·.follows) = false := by
  simp [Submission.draft, Draft.pinned]

theorem create_refused_of_not_valid (h : ¬Valid w.directory inputs) :
    w.Refuses (Flow.on type (create item inputs actor).run) := by
  rcases run_create_cases w type item inputs actor with ⟨_, hrefuses⟩ | ⟨hvalid, _⟩
  · exact hrefuses
  · exact absurd hvalid h

/-- An item that is not there at all gets no records. -/
theorem create_refused_of_absent
    (h : ∀ s, w.store? type = some s → s.items.contains item = false) :
    w.Refuses (Flow.on type (create item inputs actor).run) := by
  rcases run_create_cases w type item inputs actor with ⟨_, hrefuses⟩ | ⟨_, v, rest, halike, hrun⟩
  · exact hrefuses
  · rw [← halike.stores] at h
    refine .of_run_eq halike hrun ?_
    rw [Flow.run_insert_bind, Flow.on_ask]
    have hpinned := any_follows_draft inputs
    generalize inputs.map (·.draft) = drafts at hpinned
    have hanswer (s : Store) (hs : v.store? type = some s) :
        s.answer v.directory (.insert item drafts actor) = (.error (.noItem item), s) := by
      have hinsert : s.insert item drafts actor = .error (.noItem item) := by
        rw [s.insert_pinned item actor hpinned, h s hs]
        rfl
      rw [Store.answer, hinsert]
      rfl
    have hkept : v.Alike (World.answer (.content type (.insert item drafts actor)) v).2 := by
      refine World.alike_of_at fun target s hs => ?_
      rw [Call.at]
      split
      · rename_i heq
        subst heq
        rw [hanswer s hs]
      · rfl
    have hreply : ∃ e : Error, e.isRefusal = true ∧
        (World.answer (.content type (.insert item drafts actor)) v).1 = .error e := by
      cases hs : v.store? type with
      | none => exact ⟨.notFound .contentType type, rfl, by simp only [World.answer, hs]⟩
      | some s => exact ⟨.noItem item, rfl, by rw [World.reply_answer hs, hanswer s hs]⟩
    obtain ⟨e, he, hreply⟩ := hreply
    refine ⟨e, _, ?_, he, hkept⟩
    rw [Program.run_ask, hreply]
    rfl

/-- An item that is there, deleted or not, gets its records, or the store refuses the batch. -/
theorem create_reaches_store {s : Store} (hvalid : Valid w.directory inputs)
    (hs : w.store? type = some s) (hitem : s.items.contains item = true) (actor : Actor) :
    let out := (Flow.on type (create item inputs actor).run).run World.answer w
    (∃ cause, out.1 = .error (.storage cause)) ∨
      out.2.recordsOf type item ≠ w.recordsOf type item := by
  intro out
  rcases run_create_cases w type item inputs actor with
    ⟨hwhy, _⟩ | ⟨_, v, rest, halike, hrun⟩
  · rcases hwhy with hnone | hno
    · rw [hs] at hnone
      cases hnone
    · exact absurd hvalid hno
  · have hv : v.store? type = some s := by rw [halike.stores, hs]
    have hne : inputs.map (·.draft) ≠ [] := by simpa using hvalid.given
    have hpinned := any_follows_draft inputs
    rw [show out = _ from hrun, Flow.run_insert_bind, Flow.on_ask, Program.run_ask,
      World.reply_answer hv]
    generalize inputs.map (·.draft) = drafts at hpinned hne
    cases hrepeat : firstRepeat (s.languagesOf item) (drafts.map (·.language)) with
    | some language =>
        have hinsert : s.insert item drafts actor =
            .error (.storage (.duplicate item language)) := by
          rw [s.insert_pinned item actor hpinned, hitem, hrepeat]
          rfl
        refine Or.inl ⟨.duplicate item language, ?_⟩
        rw [Store.answer, hinsert]
        rfl
    | none =>
        have hinsert : s.insert item drafts actor = .ok (s.append item drafts actor) := by
          rw [s.insert_pinned item actor hpinned, hitem, hrepeat]
          rfl
        refine Or.inr fun hsame => ?_
        obtain ⟨draft, hdraft⟩ := List.exists_mem_of_ne_nil _ hne
        have hlanguage : draft.language ∈ drafts.map (·.language) := List.mem_map_of_mem hdraft
        refine (firstRepeat_eq_none_iff.mp hrepeat).2 draft.language hlanguage ?_
        have hnew : draft.language ∈ (World.answer
            (.content type (.insert item drafts actor)) v).2.languagesOf type item := by
          rw [World.languagesOf, World.store?_answer, hv]
          simp only [Option.map_some, Option.elim_some, Call.at, if_true, Store.answer, hinsert,
            Store.settle]
          exact (Store.mem_languagesOf_append s item drafts actor).mpr (Or.inr ⟨rfl, hlanguage⟩)
        have hold : draft.language ∈ w.languagesOf type item := by
          rw [World.mem_languagesOf_iff, ← hsame, ← World.mem_languagesOf_iff]
          exact World.languagesOf_subset_run _ _ type item hnew
        rwa [World.languagesOf, hs] at hold

end Creation

end Polyglot

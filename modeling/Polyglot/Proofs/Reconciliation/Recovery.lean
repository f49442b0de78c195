import Polyglot.Proofs.Reconciliation.Healing

namespace Polyglot

/-- What a record holds, whoever wrote it. -/
def Record.content (r : Record) : LanguageId × Text × Bool := (r.language, r.text, r.follows)

def Store.contents (s : Store) (item : ItemId) : Set (LanguageId × Text × Bool) :=
  Record.content '' {r | r ∈ s.recordsOf item}

namespace Creation

open Reconciliation

/-- The texts that a creation accepts. -/
structure Valid (d : Directory) (inputs : List Submission) : Prop where
  given : inputs ≠ []
  once : repeatedLanguage inputs = none
  known : ∀ id ∈ inputs.map (·.language), (d.byId id).isSome = true

def targets (d : Directory) (inputs : List Submission) : List LanguageId :=
  (remaining d.active (inputs.map (·.language))).map (·.id)

def createUnder (d : Directory) (item : ItemId) (inputs : List Submission) (actor : Actor)
    (trouble : Trouble) (s : Store) : Except Error Report × Session :=
  (create item inputs actor).run.run (Session.answer d trouble.refuse)
    (.start { s with faults := trouble.faults })

/-- The call that adds what the caller gave succeeded. -/
def explicitBatch (item : ItemId) (inputs : List Submission) (actor : Actor) : Told :=
  ⟨.insert item (inputs.map (·.draft)) actor, .ok ()⟩

/-- What becomes of a place when copies are added in the targets. -/
def filled (targets : List LanguageId) (text : Text) (language : LanguageId) :
    Option Record → Option (LanguageId × Text × Bool)
  | some r => some r.content
  | none => if language ∈ targets then some (language, text, true) else none

section

variable {d : Directory} {refuse : Refusals} {σ σ₁ σ₂ σ' : Session} {item : ItemId}
  {inputs : List Submission} {actor : Actor} {l : LanguageId} {text : Text} {s : Store}

theorem explicitBatch_of_looked (h : Session.Looked σ σ')
    (hbatch : explicitBatch item inputs actor ∈ σ'.calls) :
    explicitBatch item inputs actor ∈ σ.calls :=
  (h.calls _ hbatch).resolve_right Bool.noConfusion

theorem requireLanguages_run (d : Directory) (refuse : Refusals) (ids : List LanguageId)
    (h : Session.Looked σ σ₁) :
    let out := (requireLanguages ids).run.run (Session.answer d refuse) σ₁
    Session.Looked σ out.2 ∧ (out.1 = .ok () ∨
      (∃ e, out.1 = .error e) ∧ (refuse.Bites ∨ ∃ id ∈ ids, d.byId id = none)) := by
  induction ids generalizing σ₁ with
  | nil => exact ⟨h, Or.inl rfl⟩
  | cons id rest ih =>
      have hread : (σ₁.store.answer d (.language (.byId id))).1 = .ok (d.byId id) := rfl
      rw [requireLanguages, Flow.languageById]
      rcases Session.run_demand refuse rfl hread _ with ⟨e, hwhy, hrun⟩ | hrun
      · rw [hrun]
        exact ⟨h.note rfl _, Or.inr ⟨⟨e, rfl⟩, Or.inl hwhy⟩⟩
      · rw [hrun]
        cases hknown : d.byId id with
        | none =>
            exact ⟨h.note rfl _, Or.inr ⟨⟨_, rfl⟩, Or.inr ⟨id, List.mem_cons_self, hknown⟩⟩⟩
        | some language =>
            have hasked := h.note (q := .language (.byId id)) rfl (.ok (some language))
            obtain ⟨hlooked, hok | ⟨herror, hwhy⟩⟩ := ih hasked
            · exact ⟨hlooked, Or.inl hok⟩
            · refine ⟨hlooked, Or.inr ⟨herror, hwhy.imp_right ?_⟩⟩
              rintro ⟨id', hid', hnone⟩
              exact ⟨id', List.mem_cons_of_mem id hid', hnone⟩

theorem Fill.contents {c : Course} {n : Nat}
    (h : Fill c item text (Copies.missing ((σ.store.recordsOf item).map (·.language)) c.active) σ₁
      (.ok n) σ')
    (hstore : σ₁.store = σ.store) (l : LanguageId) :
    (σ'.store.recordIn? item l).map Record.content =
      filled c.active text l (σ.store.recordIn? item l) := by
  cases hplace : σ.store.recordIn? item l with
  | some r =>
      rw [h.elsewhere fun _ hl => ?_, hstore, hplace]
      · rfl
      · rw [(mem_gaps_iff.mp hl).2] at hplace
        cases hplace
  | none =>
      rw [filled]
      split
      · rename_i hl
        have htreated := h.treats (mem_gaps_iff.mpr ⟨hl, hplace⟩) hl (hstore ▸ hplace)
        generalize σ'.store.recordIn? item l = after at htreated
        cases htreated with
        | added => rfl
        | kept _ hdue => exact absurd hl hdue
        | hindered _ _ _ hdirty => exact absurd rfl hdirty
      · rename_i hl
        rw [h.elsewhere fun _ hmem => hl (mem_gaps_iff.mp hmem).1, hstore, hplace]
        rfl

/-- The copies are added, or the store stays as it was. -/
theorem derive_run (d : Directory) (refuse : Refusals) (targets : List LanguageId) (text : Text)
    (actor : Actor) (hs : σ.store.Sound) (hitem : σ.store.items.contains item = true) :
    let out := (derive item targets text actor).run.run (Session.answer d refuse) σ
    (out.2.store = σ.store ∧ (refuse.Bites ∨ σ.store.faults.copyInserts = true)) ∨
      (∃ n, out.1 = .ok n) ∧ out.2.store.Sound ∧ ∀ l,
        (out.2.store.recordIn? item l).map Record.content =
          filled targets text l (σ.store.recordIn? item l) := by
  rw [derive.eq_def]
  split
  · refine Or.inr ⟨⟨0, rfl⟩, hs, fun l => ?_⟩
    change (σ.store.recordIn? item l).map Record.content = _
    cases σ.store.recordIn? item l <;> rfl
  · rename_i target rest
    generalize target :: rest = targets
    have hread : (σ.store.answer d (.records item)).1 = .ok (σ.store.recordsOf item) := rfl
    rw [Flow.records]
    rcases Session.run_demand refuse rfl hread _ with ⟨e, hwhy, hrun⟩ | hrun
    · rw [hrun]
      exact Or.inl ⟨rfl, Or.inl hwhy⟩
    · rw [← Reconciliation.read] at hrun
      rw [hrun]
      have hitem' : (read σ item).store.items.contains item = true := hitem
      have hrecords : ∀ l ∈ (read σ item).store.languagesOf item,
          l ∈ (σ.store.recordsOf item).map (·.language) :=
        fun l hl => Store.mem_map_language_recordsOf.mpr hl
      -- The base language plays no part in adding the copies.
      have hfill := fill_run d ⟨refuse, 0, targets, actor⟩ text targets hitem' hrecords
      have hread : (read σ item).store.Sound := hs
      have hframe := hfill.frame hread hitem' (Copies.missing_spec _ _).1
        fun l hl => (mem_gaps_iff.mp hl).2
      dsimp only at hfill hframe
      generalize (Copies.fillGaps item (σ.store.recordsOf item) targets text actor).run.run
        (Session.answer d refuse) (read σ item) = out at hfill hframe ⊢
      obtain ⟨e | n, σ'⟩ := out
      · refine Or.inl ?_
        dsimp only at hfill ⊢
        generalize Copies.missing _ targets = gaps at hfill
        cases hfill with
        | failed _ _ _ hwhy => exact ⟨rfl, hwhy⟩
      · exact Or.inr ⟨⟨n, rfl⟩, hframe.sound, Fill.contents hfill rfl⟩

def given (s : Store) (item : ItemId) (inputs : List Submission) (actor : Actor) : Store :=
  s.append item (inputs.map (·.draft)) actor

/-- The text that the copies are made of. -/
def source (d : Directory) (inputs : List Submission) (default : Submission) : Submission :=
  ((chooseBase inputs d.base).getD (default, .firstSupplied)).1

/-- What the caller gave is not written, or it is and the copies come next. -/
inductive Batches (d : Directory) (refuse : Refusals) (item : ItemId) (inputs : List Submission)
    (actor : Actor) (σ : Session) : Except Error Report × Session → Prop where
  | unwritten {out : Except Error Report × Session} (hwhy : refuse.Bites)
      (hbatch : explicitBatch item inputs actor ∈ out.2.calls →
        explicitBatch item inputs actor ∈ σ.calls) :
      Batches d refuse item inputs actor σ out
  | written {out : Except Error Report × Session} {σ₁ : Session} (default : Submission)
      {derived : Except Error Nat × Session} (hstore : σ₁.store = given σ.store item inputs actor)
      (hderived : derived = (derive item (targets d inputs) (source d inputs default).text
        actor).run.run (Session.answer d refuse) σ₁)
      (hsession : out.2 = derived.2) (herror : ∀ e, out.1 = .error e → derived.1 = .error e) :
      Batches d refuse item inputs actor σ out

theorem Batches.looked {out : Except Error Report × Session} (hlooked : Session.Looked σ σ₁)
    (h : Batches d refuse item inputs actor σ₁ out) : Batches d refuse item inputs actor σ out := by
  cases h with
  | unwritten hwhy hbatch =>
      exact .unwritten hwhy fun hmem => explicitBatch_of_looked hlooked (hbatch hmem)
  | written default hstore hderived hsession herror =>
      rw [hlooked.store] at hstore
      exact .written default hstore hderived hsession herror

theorem writeBatches_run (d : Directory) (refuse : Refusals) (actor : Actor) (default : Submission)
    (honce : repeatedLanguage inputs = none) (hitem : σ.store.items.contains item = true)
    (hfree : ∀ r ∈ σ.store.records, r.item ≠ item) :
    Batches d refuse item inputs actor σ
      ((writeBatches item inputs d.active (source d inputs default) actor).run.run
        (Session.answer d refuse) σ) := by
  have hrepeat : firstRepeat (σ.store.languagesOf item)
      ((inputs.map (·.draft)).map (·.language)) = none := by
    rw [Store.languagesOf_eq_nil hfree, List.map_map]
    exact honce
  have hpinned : (inputs.map (·.draft)).any (·.follows) = false := by
    simp [Submission.draft, Draft.pinned]
  rw [writeBatches, Flow.run_insert_bind, Program.run_ask]
  rcases Session.answer_insert d refuse actor hitem hrepeat with ⟨_, hanswer⟩ | ⟨e, hwhy, hanswer⟩
  · set σ₁ := σ.note (.insert item (inputs.map (·.draft)) actor) (.ok ())
      (σ.store.append item (inputs.map (·.draft)) actor)
    have hstore : σ₁.store = given σ.store item inputs actor := rfl
    rw [hanswer, Flow.onward_ok]
    dsimp only
    rw [Flow.run_attempt]
    refine .written default hstore rfl ?_ ?_
    all_goals
      unfold targets
      generalize (derive item _ _ actor).run.run (Session.answer d refuse) _ = derived
      obtain ⟨e | n, σ'⟩ := derived
    · rfl
    · rfl
    · intro e he
      cases he
      rfl
    · intro e he
      cases he
  · rw [hanswer]
    rw [hpinned, Bool.and_false] at hwhy
    refine .unwritten (hwhy.resolve_right Bool.false_ne_true) fun hbatch => ?_
    rcases List.mem_cons.mp hbatch with heq | hbatch
    · cases heq
    · exact hbatch

theorem create_run (d : Directory) (refuse : Refusals) (actor : Actor) (hvalid : Valid d inputs)
    (hitem : σ.store.items.contains item = true) (hfree : ∀ r ∈ σ.store.records, r.item ≠ item) :
    Batches d refuse item inputs actor σ
      ((create item inputs actor).run.run (Session.answer d refuse) σ) := by
  obtain ⟨hgiven, honce, hknown⟩ := hvalid
  rw [create.eq_def]
  split
  · exact absurd rfl hgiven
  · rename_i hrepeat
    rw [hrepeat] at honce
    cases honce
  · rename_i first rest _
    generalize first :: rest = inputs at honce hknown
    rw [Flow.run_attempt]
    obtain ⟨hlooked, hout⟩ := requireLanguages_run d refuse (inputs.map (·.language)) (.refl σ)
    generalize (requireLanguages (inputs.map (·.language))).run.run (Session.answer d refuse) σ =
      out at hlooked hout
    obtain ⟨result, σ₁⟩ := out
    rcases hout with hok | ⟨⟨e, he⟩, hwhy⟩
    · obtain rfl : result = .ok () := hok
      dsimp only at hlooked ⊢
      have hbase : (σ₁.store.answer d (.language .base)).1 = .ok d.base := rfl
      rw [Flow.baseLanguage]
      rcases Session.run_demand refuse rfl hbase _ with ⟨e, hwhy, hrun⟩ | hrun
      · rw [hrun]
        exact .unwritten hwhy (explicitBatch_of_looked (hlooked.note rfl _))
      rw [hrun, Flow.activeLanguages]
      replace hlooked := hlooked.note (q := .language .base) rfl (.ok d.base)
      set σ₂ := σ₁.note (.language .base) (.ok d.base) σ₁.store
      have hactive : (σ₂.store.answer d (.language .active)).1 = .ok d.active := rfl
      rcases Session.run_demand refuse rfl hactive _ with ⟨e, hwhy, hrun⟩ | hrun
      · rw [hrun]
        exact .unwritten hwhy (explicitBatch_of_looked (hlooked.note rfl _))
      rw [hrun]
      replace hlooked := hlooked.note (q := .language .active) rfl (.ok d.active)
      refine .looked hlooked (writeBatches_run d refuse actor first honce ?_ ?_)
      · exact hlooked.store ▸ hitem
      · exact hlooked.store ▸ hfree
    · obtain rfl : result = .error e := he
      refine .unwritten (hwhy.resolve_right ?_) (explicitBatch_of_looked hlooked)
      rintro ⟨id, hid, hnone⟩
      have hsome := hknown id hid
      rw [hnone] at hsome
      cases hsome

theorem mem_targets : l ∈ targets d inputs ↔
    l ∈ d.active.map (·.id) ∧ l ∉ inputs.map (·.language) := by
  simp only [targets, remaining, List.mem_map, List.mem_filter, Bool.and_eq_true, decide_eq_true_eq]
  constructor
  · rintro ⟨language, ⟨hactive, _, hout⟩, rfl⟩
    exact ⟨⟨language, hactive, rfl⟩, hout⟩
  · rintro ⟨⟨language, hactive, rfl⟩, hout⟩
    exact ⟨language, ⟨hactive, (List.mem_filter.mp hactive).2, hout⟩, rfl⟩

theorem given_sound (hs : s.Sound) (hitem : s.items.contains item = true)
    (hfree : ∀ r ∈ s.records, r.item ≠ item) (honce : repeatedLanguage inputs = none)
    (actor : Actor) : (given s item inputs actor).Sound := by
  apply hs.append actor hitem
  · rw [List.map_map]
    exact (firstRepeat_eq_none_iff.mp honce).1
  · intro _ _ r hr hplace
    exact absurd hplace (hfree r hr)

theorem given_place (hfree : ∀ r ∈ s.records, r.item ≠ item) (inputs : List Submission)
    (actor : Actor) (l : LanguageId) :
    (∃ input ∈ inputs, input.language = l ∧ ∃ id now,
        (given s item inputs actor).recordIn? item l =
          some (input.draft.record item actor now id)) ∨
      l ∉ inputs.map (·.language) ∧ (given s item inputs actor).recordIn? item l = none := by
  have hlanguages : (inputs.map (·.draft)).map (·.language) = inputs.map (·.language) :=
    List.map_map
  have hnone : s.recordIn? item l = none :=
    Store.recordIn?_eq_none_iff.mpr fun r hr hplace => absurd hplace (hfree r hr)
  rw [given, Store.recordIn?_append, hnone, Option.none_or]
  by_cases hl : l ∈ inputs.map (·.language)
  · rw [← hlanguages] at hl
    obtain ⟨draft, hdraft, hlanguage, id, _, hfind⟩ :=
      Store.find?_enrol_eq_some item actor s.clock s.nextId hl
    obtain ⟨input, hinput, rfl⟩ := List.mem_map.mp hdraft
    exact Or.inl ⟨input, hinput, hlanguage, id, s.clock, hfind⟩
  · exact Or.inr ⟨hl, Store.find?_enrol_eq_none fun _ => hlanguages ▸ hl⟩

/-- A creation ends before anything is written, with what the caller gave, or with all copies. -/
theorem create_cases (d : Directory) (refuse : Refusals) (actor : Actor) (hs : σ.store.Sound)
    (hvalid : Valid d inputs) (hitem : σ.store.items.contains item = true)
    (hfree : ∀ r ∈ σ.store.records, r.item ≠ item) :
    let out := (create item inputs actor).run.run (Session.answer d refuse) σ
    (refuse.Bites ∧ (explicitBatch item inputs actor ∈ out.2.calls →
        explicitBatch item inputs actor ∈ σ.calls)) ∨
      (out.2.store = given σ.store item inputs actor ∧
        (refuse.Bites ∨ σ.store.faults.copyInserts = true)) ∨
      (∀ e, out.1 ≠ .error e) ∧ out.2.store.Sound ∧ ∃ default, ∀ l,
        (out.2.store.recordIn? item l).map Record.content =
          filled (targets d inputs) (source d inputs default).text l
            ((given σ.store item inputs actor).recordIn? item l) := by
  have hbatches := create_run d refuse actor hvalid hitem hfree
  dsimp only
  generalize (create item inputs actor).run.run (Session.answer d refuse) σ = out at hbatches
  cases hbatches with
  | unwritten hwhy hbatch => exact Or.inl ⟨hwhy, hbatch⟩
  | @written σ₁ default derived hstore hderived hsession hfailed =>
      have hsound : σ₁.store.Sound := by
        rw [hstore]
        exact given_sound hs hitem hfree hvalid.once actor
      have hitem₁ : σ₁.store.items.contains item = true := by
        rw [hstore]
        exact hitem
      have hrun := derive_run d refuse (targets d inputs) (source d inputs default).text actor
        hsound hitem₁
      dsimp only at hrun
      rw [← hderived, ← hsession, hstore] at hrun
      rcases hrun with hsame | ⟨⟨n, hok⟩, ht, hplaces⟩
      · exact Or.inr (Or.inl hsame)
      · refine Or.inr (Or.inr ⟨fun e he => ?_, ht, default, hplaces⟩)
        rw [hfailed e he] at hok
        cases hok

theorem given_place_eq_none (hfree : ∀ r ∈ s.records, r.item ≠ item) (actor : Actor)
    (hout : l ∉ inputs.map (·.language)) : (given s item inputs actor).recordIn? item l = none := by
  rcases given_place hfree inputs actor l with ⟨input, hinput, hlanguage, _⟩ | ⟨_, hplace⟩
  · exact absurd (List.mem_map.mpr ⟨input, hinput, hlanguage⟩) hout
  · exact hplace

variable {trouble : Trouble}

theorem store_of_failed (hs : s.Sound) (hvalid : Valid d inputs)
    (hitem : s.items.contains item = true) (hfree : ∀ r ∈ s.records, r.item ≠ item) {e : Error}
    (hbatch : explicitBatch item inputs actor ∈ (createUnder d item inputs actor trouble s).2.calls)
    (herror : (createUnder d item inputs actor trouble s).1 = .error e) :
    (createUnder d item inputs actor trouble s).2.store =
      given { s with faults := trouble.faults } item inputs actor := by
  have hstart : (Session.start { s with faults := trouble.faults }).store.Sound :=
    hs.setFaults trouble.faults
  rcases create_cases d trouble.refuse actor hstart hvalid hitem hfree with
    ⟨_, hunwritten⟩ | ⟨hstore, _⟩ | ⟨hdone, _⟩
  · cases hunwritten hbatch
  · exact hstore
  · exact absurd herror (hdone e)

theorem places_of_whole (hs : s.Sound) (hvalid : Valid d inputs)
    (hitem : s.items.contains item = true) (hfree : ∀ r ∈ s.records, r.item ≠ item)
    (actor : Actor) :
    let t := (createUnder d item inputs actor .none s).2.store
    t.Sound ∧ ∃ default, ∀ l, (t.recordIn? item l).map Record.content =
      filled (targets d inputs) (source d inputs default).text l
        ((given s item inputs actor).recordIn? item l) := by
  have hstart : (Session.start { s with faults := .none }).store.Sound := hs.setFaults .none
  rcases create_cases d .never actor hstart hvalid hitem hfree with
    ⟨hbites, _⟩ | ⟨_, hbites | hfault⟩ | ⟨_, hdone⟩
  · exact absurd hbites Refusals.not_bites_never
  · exact absurd hbites Refusals.not_bites_never
  · cases hfault
  · exact hdone

theorem text_of_source {base : Language} (hbase : d.base = some base)
    (honce : repeatedLanguage inputs = none) {input : Submission} (hinput : input ∈ inputs)
    (hlanguage : input.language = base.id) (default : Submission) :
    (source d inputs default).text = input.text := by
  rw [source, hbase]
  exact (text_of_chooseBase default (firstRepeat_eq_none_iff.mp honce).1 hinput hlanguage).symm

/-- A good pass over an item with a text in the base language adds all copies. -/
theorem places_of_repaired {base : Language} (hvalid : Valid d inputs)
    (hlive : s.live item = true) (hfree : ∀ r ∈ s.records, r.item ≠ item) {input : Submission}
    (hinput : input ∈ inputs) (hlanguage : input.language = base.id) {clean : Prop} {t : Store}
    {syncActor : Actor}
    (h : Treats ⟨.never, base.id, others d base.id, syncActor⟩ clean
      { given s item inputs actor with faults := .none } t) (l : LanguageId) :
    (t.recordIn? item l).map Record.content =
      filled (targets d inputs) input.text l ((given s item inputs actor).recordIn? item l) := by
  have hnodup := (firstRepeat_eq_none_iff.mp hvalid.once).1
  have htext : (given s item inputs actor).baseText? base.id item = some input.text := by
    rcases given_place hfree inputs actor base.id with
      ⟨input', hinput', hl, id, now, hplace⟩ | ⟨hout, _⟩
    · have heq := List.inj_on_of_nodup_map hnodup hinput' hinput (hl.trans hlanguage.symm)
      exact Store.baseText?_eq_some_iff.mpr ⟨hlive, _, hplace, heq ▸ rfl⟩
    · exact absurd (List.mem_map.mpr ⟨input, hinput, hlanguage⟩) hout
  have htreated := h.based item input.text htext l
  change Treated _ .none input.text item l clean ((given s item inputs actor).recordIn? item l) _
    at htreated
  rcases given_place hfree inputs actor l with ⟨input', _, _, id, now, hplace⟩ | ⟨hout, hplace⟩
  · -- What the caller gave is pinned.
    rw [hplace] at htreated ⊢
    generalize t.recordIn? item l = after at htreated
    cases htreated with
    | overwritten _ _ hdue => cases hdue.1.1
    | kept => rfl
    | hindered => rfl
  · rw [hplace] at htreated ⊢
    have hother : l ∈ others d base.id ↔ l ∈ targets d inputs := by
      rw [mem_others, mem_targets, and_congr_right_iff]
      refine fun _ => iff_of_true ?_ hout
      rintro rfl
      exact hout (List.mem_map.mpr ⟨input, hinput, hlanguage⟩)
    generalize t.recordIn? item l = after at htreated
    cases htreated with
    | added _ _ hdue => exact (if_pos (hother.mp hdue)).symm
    | kept _ hdue => exact (if_neg fun hl => hdue (hother.mpr hl)).symm
    | hindered _ _ hwhy =>
        exact absurd hwhy (not_or.mpr ⟨Refusals.not_bites_never, not_blocked_none l none⟩)

/-- Without a text in the base language a good pass leaves the item as it is. -/
theorem base_place_of_repaired {base : Language} (hfree : ∀ r ∈ s.records, r.item ≠ item)
    (hout : base.id ∉ inputs.map (·.language)) {clean : Prop} {t : Store} {syncActor : Actor}
    (h : Treats ⟨.never, base.id, others d base.id, syncActor⟩ clean
      { given s item inputs actor with faults := .none } t) :
    t.recordIn? item base.id = none := by
  have hplace := given_place_eq_none hfree actor hout
  have hnone : (given s item inputs actor).baseText? base.id item = none := by
    rw [Store.baseText?, hplace]
    exact ite_self none
  exact (h.unbased item hnone base.id).trans hplace

end

/-- After a creation that failed when what the caller gave was written, one good pass makes the item
what a creation without failures makes of it if and only if the caller gave a text in the base
language. -/
theorem pass_repairs_iff (d : Directory) (type : String) (actor syncActor : Actor)
    (trouble : Trouble) {s : Store} (hs : s.Sound) {item : ItemId} (hlive : s.live item = true)
    (hfree : ∀ r ∈ s.records, r.item ≠ item) {inputs : List Submission} (hvalid : Valid d inputs)
    {base : Language} (hbase : d.base = some base) :
    let failed := createUnder d item inputs actor trouble s
    let repaired := (passUnder d type syncActor .none failed.2.store).2.store
    let whole := (createUnder d item inputs actor .none s).2.store
    explicitBatch item inputs actor ∈ failed.2.calls → (∃ e, failed.1 = .error e) →
      (repaired.contents item = whole.contents item ↔ base.id ∈ inputs.map (·.language)) := by
  intro failed repaired whole hbatch ⟨e, herror⟩
  have hitem : s.items.contains item = true :=
    contains_of_mem_liveItems (Store.mem_liveItems.mpr hlive)
  have hgiven := given_sound hs hitem hfree hvalid.once actor
  have hstore := store_of_failed hs hvalid hitem hfree hbatch herror
  have hfailed : failed.2.store.Sound := hstore ▸ hgiven.setFaults trouble.faults
  have hrepaired : repaired.Sound := passUnder_sound .none hfailed
  have hcleared : { failed.2.store with faults := .none } =
      { given s item inputs actor with faults := .none } := by
    rw [hstore]
    rfl
  obtain ⟨hwhole, default, hplaces⟩ := places_of_whole hs hvalid hitem hfree actor
  obtain ⟨clean, htreats⟩ := passUnder_none_treats type syncActor hfailed hbase
  rw [hcleared] at htreats
  constructor
  · intro hsame
    apply of_not_not
    intro hout
    have hbaseless := base_place_of_repaired hfree hout htreats
    have htarget : base.id ∈ targets d inputs := (mem_remaining hbase _).resolve_right hout
    have hcopy := hplaces base.id
    rw [given_place_eq_none hfree actor hout, filled, if_pos htarget] at hcopy
    -- The copy of the whole creation has nothing to match it in the repaired item.
    obtain ⟨r, hr, hcontent⟩ := Option.map_eq_some_iff.mp hcopy
    obtain ⟨hmem, hplace, _⟩ := Store.mem_of_recordIn? hr
    have hcontents : r.content ∈ whole.contents item :=
      Set.mem_image_of_mem _ (Store.mem_recordsOf.mpr ⟨hmem, hplace⟩)
    rw [← hsame, hcontent] at hcontents
    obtain ⟨r', hr', hcontent'⟩ := hcontents
    obtain ⟨hmem', hplace'⟩ := Store.mem_recordsOf.mp hr'
    exact Store.recordIn?_eq_none_iff.mp hbaseless r' hmem' hplace' (congrArg Prod.fst hcontent')
  · intro hin
    obtain ⟨input, hinput, hlanguage⟩ := List.mem_map.mp hin
    apply hrepaired.image_recordsOf_eq hwhole
    intro l
    rw [hplaces l, text_of_source hbase hvalid.once hinput hlanguage]
    exact places_of_repaired hvalid hlive hfree hinput hlanguage htreats l

end Creation

namespace Trilingual

def bare : Store := (Store.named "page").addItem 7

theorem reachable_bare : bare.Reachable := .addItem 7 (.named "page")

def noCopies : Reconciliation.Trouble := ⟨{ Faults.none with copyInserts := true }, .never⟩

def inTwo : List Submission := [⟨1, title "Hello"⟩, ⟨2, title "Bonjour"⟩]

def inFrench : List Submission := [⟨2, title "Bonjour"⟩]

def failed (inputs : List Submission) : Except Error Creation.Report × Session :=
  Creation.createUnder directory 7 inputs "ann" noCopies bare

def repaired (inputs : List Submission) : Store :=
  (Reconciliation.passUnder directory "page" "sync" .none (failed inputs).2.store).2.store

def whole (inputs : List Submission) : Store :=
  (Creation.createUnder directory 7 inputs "ann" .none bare).2.store

end Trilingual

namespace Creation

open Trilingual in
theorem creation_in_two_repaired :
    bare.Sound ∧ Valid directory inTwo ∧ explicitBatch 7 inTwo "ann" ∈ (failed inTwo).2.calls ∧
      (∃ e, (failed inTwo).1 = .error e) ∧
      (repaired inTwo).contents 7 = (whole inTwo).contents 7 := by
  have hvalid : Valid directory inTwo := ⟨by decide, by decide, by decide⟩
  have hbatch : (failed inTwo).2.calls[2]? = some (explicitBatch 7 inTwo "ann") := by cbv
  have herror : (failed inTwo).1 = .error (.storage (.insert "page")) := by cbv
  have hmem := List.mem_of_getElem? hbatch
  refine ⟨reachable_bare.sound, hvalid, hmem, ⟨_, herror⟩, ?_⟩
  exact (pass_repairs_iff directory "page" "ann" "sync" noCopies reachable_bare.sound (by decide)
    (by decide) hvalid rfl hmem ⟨_, herror⟩).mpr (by decide)

open Trilingual in
/-- The pass does not add the English copy, since it looks for an English text to copy. -/
theorem creation_in_french_stays :
    bare.Sound ∧ bare.live 7 = true ∧ bare.records = [] ∧ Valid directory inFrench ∧
      directory.base = some ⟨1, "en", "English", true, false⟩ ∧
      explicitBatch 7 inFrench "ann" ∈ (failed inFrench).2.calls ∧
      (failed inFrench).1 = .error (.storage (.insert "page")) ∧
      (1, title "Bonjour", true) ∈ (whole inFrench).contents 7 ∧
      (repaired inFrench).contents 7 ≠ (whole inFrench).contents 7 := by
  have hvalid : Valid directory inFrench := ⟨by decide, by decide, by decide⟩
  have hbatch : (failed inFrench).2.calls[2]? = some (explicitBatch 7 inFrench "ann") := by cbv
  have herror : (failed inFrench).1 = .error (.storage (.insert "page")) := by cbv
  have hrepaired : (repaired inFrench).records.map (·.language) = [2] := by cbv
  have hcopy : (whole inFrench).records[1]? =
      some ⟨2, 7, 1, title "Bonjour", true, "ann", "ann", 1, 1⟩ := by cbv
  have hcontents : (1, title "Bonjour", true) ∈ (whole inFrench).contents 7 :=
    ⟨_, Store.mem_recordsOf.mpr ⟨List.mem_of_getElem? hcopy, rfl⟩, rfl⟩
  refine ⟨reachable_bare.sound, by decide, by decide, hvalid, by decide,
    List.mem_of_getElem? hbatch, herror, hcontents, fun hsame => ?_⟩
  rw [← hsame] at hcontents
  obtain ⟨r, hr, hcontent⟩ := hcontents
  have hlanguage : r.language ∈ (repaired inFrench).records.map (·.language) :=
    List.mem_map_of_mem (Store.mem_recordsOf.mp hr).1
  have henglish : r.language = 1 := congrArg Prod.fst hcontent
  rw [hrepaired, henglish, List.mem_singleton] at hlanguage
  cases hlanguage

end Creation

end Polyglot

import Polyglot.Proofs.Pool.Basic

namespace Polyglot

def Call.looks : Call → Bool
  | .content _ (.insert ..) => false
  | .content _ (.overwriteCopy ..) => false
  | .content _ (.write ..) => false
  | _ => true

/-- A language with this id was named as the base language. -/
def Named (past : List Heard) (type : String) (base : LanguageId) : Prop :=
  ∃ l : Language, l.id = base ∧
    ((⟨.content type (.language .base), .ok (some l)⟩ : Heard) ∈ past ∨
      (⟨.directory .base, .ok (some l)⟩ : Heard) ∈ past)

/-- The records of an item were read, `rb` among them as the one in the base language. -/
structure BaseRead (past : List Heard) (type : String) (item : ItemId) (base : LanguageId)
    (rs : List Record) (rb : Record) : Prop where
  named : Named past type base
  read : (⟨.content type (.records item), .ok rs⟩ : Heard) ∈ past
  found : rs.find? (·.language = base) = some rb

inductive Job.PassesOver : Job → String → Actor → Prop where
  | reconcile (type : String) (actor : Actor) : PassesOver (.reconcile type actor) type actor
  | backfill {types : List String} {type : String} (actor : Actor) (code : String)
      (htype : type ∈ types) : PassesOver (.backfill types actor code) type actor

/-- The calls of a job that are due after what it heard. -/
inductive Job.Grounds : Job → List Heard → Call → Prop where
  | look {job : Job} {past : List Heard} {c : Call} (hlooks : c.looks = true) :
      Grounds job past c
  | given {type : String} {item : ItemId} {inputs : List Submission} {actor : Actor}
      {past : List Heard} :
      Grounds (.create type item inputs actor) past
        (.content type (.insert item (inputs.map (·.draft)) actor))
  | derived {type : String} {item : ItemId} {inputs : List Submission} {actor : Actor}
      {past : List Heard} {input : Submission} {rs : List Record} {languages : List LanguageId}
      (hinput : input ∈ inputs)
      (hread : (⟨.content type (.records item), .ok rs⟩ : Heard) ∈ past)
      (hfree : ∀ l ∈ languages, l ∉ rs.map (·.language)) :
      Grounds (.create type item inputs actor) past
        (.content type (.insert item (languages.map (Draft.copy · input.text)) actor))
  | edited {type : String} {item : ItemId} {language : LanguageId} {text : Text} {actor : Actor}
      {past : List Heard} {rs : List Record} {r : Record}
      (hread : (⟨.content type (.records item), .ok rs⟩ : Heard) ∈ past)
      (hr : rs.find? (·.language = language) = some r) :
      Grounds (.edit type item language text actor) past
        (.content type (.write r.id text false actor))
  | unpinned {type : String} {item : ItemId} {language base : LanguageId} {actor : Actor}
      {past : List Heard} {rs : List Record} {r rb : Record}
      (hread : BaseRead past type item base rs rb) (hbase : base ≠ language)
      (hr : rs.find? (·.language = language) = some r) :
      Grounds (.unpin type item language actor) past
        (.content type (.write r.id rb.text true actor))
  | followed {event : Event} {past : List Heard} {rs : List Record} {r : Record}
      (hnamed : Named past event.contentType event.language)
      (hread : (⟨.content event.contentType (.records event.item), .ok rs⟩ : Heard) ∈ past)
      (hr : r ∈ Copies.among rs event.language) :
      Grounds (.handle event) past
        (.content event.contentType (.overwriteCopy r.id event.text event.actor))
  | refreshed {job : Job} {type : String} {item : ItemId} {base : LanguageId} {actor : Actor}
      {past : List Heard} {rs : List Record} {r rb : Record}
      (hjob : job.PassesOver type actor) (hread : BaseRead past type item base rs rb)
      (hr : r ∈ Copies.among rs base) :
      Grounds job past (.content type (.overwriteCopy r.id rb.text actor))
  | filled {job : Job} {type : String} {item : ItemId} {base : LanguageId} {actor : Actor}
      {past : List Heard} {rs : List Record} {rb : Record} {languages : List LanguageId}
      (hjob : job.PassesOver type actor) (hread : BaseRead past type item base rs rb)
      (hfree : ∀ l ∈ languages, l ∉ rs.map (·.language)) :
      Grounds job past
        (.content type (.insert item (languages.map (Draft.copy · rb.text)) actor))

theorem Named.mono {past later : List Heard} {type : String} {base : LanguageId}
    (h : Named past type base) (hsuffix : past <:+ later) : Named later type base := by
  obtain ⟨l, hl, hmem⟩ := h
  exact ⟨l, hl, hmem.imp (hsuffix.subset ·) (hsuffix.subset ·)⟩

theorem BaseRead.mono {past later : List Heard} {type : String} {item : ItemId}
    {base : LanguageId} {rs : List Record} {rb : Record}
    (h : BaseRead past type item base rs rb) (hsuffix : past <:+ later) :
    BaseRead later type item base rs rb :=
  ⟨h.named.mono hsuffix, hsuffix.subset h.read, h.found⟩

namespace Copies

theorem language_of_find? {rs : List Record} {language : LanguageId} {r : Record}
    (h : rs.find? (·.language = language) = some r) : r.language = language := by
  simpa using List.find?_some h

section

variable {grounds : List Heard → Call → Prop} {past : List Heard} {type : String}
  {text : Text} {actor : Actor}

theorem overwriteAll_grounded {rs : List Record}
    (h : ∀ later, past <:+ later → ∀ r ∈ rs,
      grounds later (.content type (.overwriteCopy r.id text actor))) :
    (Flow.on type (overwriteAll text actor rs)).Grounded grounds
      (fun later _ => ∀ r ∈ rs, r.text = text ∨
        ∃ reply, (⟨.content type (.overwriteCopy r.id text actor), reply⟩ : Heard) ∈ later)
      past := by
  induction rs generalizing past with
  | nil => simp [overwriteAll]
  | cons r rest ih =>
      have hrest {later : List Heard} (hsuffix : past <:+ later) :=
        @ih later fun later' hsuffix' r' hr' =>
          h later' (hsuffix.trans hsuffix') r' (List.mem_cons_of_mem r hr')
      rw [overwriteAll, Flow.on_bind]
      have hfirst : (Flow.on type (overwrite text actor r)).Grounded grounds
          (fun later _ => r.text = text ∨
            ∃ reply, (⟨.content type (.overwriteCopy r.id text actor), reply⟩ : Heard) ∈ later)
          past := by
        rw [overwrite]
        split
        · rename_i heq
          exact Or.inl heq
        · refine ⟨h past (List.suffix_refl past) r List.mem_cons_self, fun reply => ?_⟩
          exact Or.inr ⟨reply, List.mem_cons_self⟩
      refine hfirst.bind fun later tally hsuffix hmid => ?_
      rw [Flow.on_bind]
      refine (hrest hsuffix).remembers.bind fun later' others _ hothers => ?_
      intro r' hr'
      rcases List.mem_cons.mp hr' with rfl | hr'
      · exact hmid.imp id fun ⟨reply, hreply⟩ => ⟨reply, hothers.1.subset hreply⟩
      · exact hothers.2 r' hr'

theorem fillGaps_grounded {item : ItemId} {records : List Record} {languages : List LanguageId}
    (h : ∀ ls : List LanguageId, (∀ l ∈ ls, l ∉ records.map (·.language)) →
      grounds past (.content type (.insert item (ls.map (Draft.copy · text)) actor))) :
    (Flow.on type (fillGaps item records languages text actor).run).Grounded grounds
      (fun _ _ => True) past := by
  by_cases hmissing : missing (records.map (·.language)) languages = []
  · rw [run_fillGaps_of_full hmissing]
    trivial
  · rw [run_fillGaps_of_gap hmissing]
    exact ⟨h _ (missing_spec (records.map (·.language)) languages).2, fun _ => trivial⟩

end

end Copies

/-- What keeps an edit from writing. -/
def EditHindered (past : List Heard) (type : String) (item : ItemId) (language : LanguageId)
    (text : Text) : Prop :=
  text.isEmpty = true ∨
    (⟨.content type (.hasItem item), .ok false⟩ : Heard) ∈ past ∨
    (∃ rs, (⟨.content type (.records item), .ok rs⟩ : Heard) ∈ past ∧
      rs.find? (·.language = language) = none) ∨
    (∃ (q : Query) (e : Error), (Call.content type q).looks = true ∧
      (⟨.content type q, .error e⟩ : Heard) ∈ past) ∨
    ∃ id follows actor e, (⟨.content type (.write id text follows actor), .error e⟩ : Heard) ∈ past

/-- Every copy among the records that were read has the text of the event or was overwritten. -/
def Covered (past : List Heard) (event : Event) : Prop :=
  ∃ rs, (⟨.content event.contentType (.records event.item), .ok rs⟩ : Heard) ∈ past ∧
    ∀ r ∈ Copies.among rs event.language, r.text = event.text ∨
      ∃ reply, (⟨.content event.contentType (.overwriteCopy r.id event.text event.actor),
        reply⟩ : Heard) ∈ past

/-- What makes a handler drop its event. -/
def HandlerHindered (past : List Heard) (event : Event) : Prop :=
  (⟨.content event.contentType (.hasItem event.item), .ok false⟩ : Heard) ∈ past ∨
    (∃ l : Option Language,
      (⟨.content event.contentType (.language .base), .ok l⟩ : Heard) ∈ past ∧
        ∀ b ∈ l, b.id ≠ event.language) ∨
    ∃ (q : Query) (e : Error), (Call.content event.contentType q).looks = true ∧
      (⟨.content event.contentType q, .error e⟩ : Heard) ∈ past

/-- How a job ends after what it heard, and what its end does to the engine. -/
def Job.Ends : Job → List Heard → (Engine → Engine) → Prop
  | .edit type item language text actor, past, f =>
      (EditHindered past type item language text ∧ f = id) ∨
        ∃ record, (⟨.content type (.write record text false actor), .ok ()⟩ : Heard) ∈ past ∧
          ∃ l : Option Language, (⟨.content type (.language .base), .ok l⟩ : Heard) ∈ past ∧
            f = if l.any (·.id = language) then
              fun e => e.publish e.handle { contentType := type, item, language, text, actor }
            else id
  | .handle event, past, f =>
      (Covered past event ∨ HandlerHindered past event) ∧
        ∀ e, (f e).channel = e.channel ∧ (f e).accepting = e.accepting
  | _, _, f => ∀ e, (f e).channel = e.channel ∧ (f e).accepting = e.accepting

section

variable {grounds : List Heard → Call → Prop} {past : List Heard} {type : String}
  {item : ItemId} {language : LanguageId}

theorem Edit.load_grounded (h : ∀ past c, c.looks = true → grounds past c) :
    (Flow.on type (load item language).run).Grounded grounds
      (fun later result => (∃ rs r, result = .ok (rs, r) ∧
          (⟨.content type (.records item), .ok rs⟩ : Heard) ∈ later ∧
          rs.find? (·.language = language) = some r) ∨
        ∃ e, result = .error e ∧
          ((⟨.content type (.hasItem item), .ok false⟩ : Heard) ∈ later ∨
            (∃ rs, (⟨.content type (.records item), .ok rs⟩ : Heard) ∈ later ∧
              rs.find? (·.language = language) = none) ∨
            ∃ (q : Query) (e : Error), (Call.content type q).looks = true ∧
              (⟨.content type q, .error e⟩ : Heard) ∈ later)) past := by
  refine .demand (h _ _ rfl) ?_ ?_
  · intro e
    exact Or.inr ⟨e, rfl, Or.inr (Or.inr ⟨_, e, rfl, List.mem_cons_self⟩)⟩
  · rintro (_ | _)
    · exact Or.inr ⟨_, rfl, Or.inl List.mem_cons_self⟩
    · refine .demand (h _ _ rfl) ?_ ?_
      · intro e
        exact Or.inr ⟨e, rfl, Or.inr (Or.inr ⟨_, e, rfl, List.mem_cons_self⟩)⟩
      · intro rs
        cases hr : rs.find? (·.language = language) with
        | none =>
            simp only
            exact Or.inr ⟨_, rfl, Or.inr (Or.inl ⟨rs, List.mem_cons_self, hr⟩)⟩
        | some r =>
            simp only
            exact Or.inl ⟨rs, r, rfl, List.mem_cons_self, hr⟩

end

theorem Edit.edit_grounded (type : String) (item : ItemId) (language : LanguageId) (text : Text)
    (actor : Actor) :
    (Flow.on type (edit type item language text actor).run).Grounded
      (Job.edit type item language text actor).Grounds
      (fun later result =>
        (∃ e, result = .error e ∧ EditHindered later type item language text) ∨
          ∃ report event record, result = .ok (report, event) ∧
            (⟨.content type (.write record text false actor), .ok ()⟩ : Heard) ∈ later ∧
            ∃ l : Option Language, (⟨.content type (.language .base), .ok l⟩ : Heard) ∈ later ∧
              event = if l.any (·.id = language) then
                some { contentType := type, item, language, text, actor } else none) [] := by
  rw [edit]
  split
  · rename_i hempty
    exact Or.inl ⟨_, rfl, Or.inl hempty⟩
  · refine (load_grounded fun _ _ => .look).attempt ?_ ?_
    · rintro later ⟨rs, r⟩ _ (⟨_, _, heq, hread, hr⟩ | ⟨e, heq, _⟩)
      · cases heq
        refine .demand (.look rfl) ?_ ?_
        · intro e
          exact Or.inl ⟨e, rfl, Or.inr (Or.inr (Or.inr (Or.inl
            ⟨_, e, rfl, List.mem_cons_self⟩)))⟩
        · intro l
          refine .demand (.edited (List.mem_cons_of_mem _ hread) hr) ?_ ?_
          · intro e
            exact Or.inl ⟨e, rfl, Or.inr (Or.inr (Or.inr (Or.inr
              ⟨_, _, _, e, List.mem_cons_self⟩)))⟩
          · intro _
            exact Or.inr ⟨_, _, r.id, rfl, List.mem_cons_self, l,
              List.mem_cons_of_mem _ List.mem_cons_self, rfl⟩
      · cases heq
    · rintro later e _ (⟨_, _, heq, _⟩ | ⟨_, _, hwhy⟩)
      · cases heq
      · rcases hwhy with hgone | hnone | hfault
        · exact Or.inl ⟨e, rfl, Or.inr (Or.inl hgone)⟩
        · exact Or.inl ⟨e, rfl, Or.inr (Or.inr (Or.inl hnone))⟩
        · exact Or.inl ⟨e, rfl, Or.inr (Or.inr (Or.inr (Or.inl hfault)))⟩

theorem Edit.unpin_grounded (type : String) (item : ItemId) (language : LanguageId)
    (actor : Actor) :
    (Flow.on type (unpin item language actor).run).Grounded
      (Job.unpin type item language actor).Grounds (fun _ _ => True) [] := by
  refine .demand (.look rfl) (fun _ => trivial) ?_
  rintro (_ | base)
  · trivial
  · simp only
    split
    · trivial
    · rename_i hbase
      refine (load_grounded fun _ _ => .look).attempt ?_ (fun _ _ _ _ => trivial)
      rintro later ⟨rs, r⟩ hsuffix (⟨_, _, heq, hread, hr⟩ | ⟨e, heq, _⟩)
      · cases heq
        simp only
        split
        · trivial
        · rename_i rb hrb
          have hnamed : Named later type base.id :=
            ⟨base, rfl, Or.inl (hsuffix.subset List.mem_cons_self)⟩
          exact .demand (.unpinned ⟨hnamed, hread, hrb⟩ hbase hr) (fun _ => trivial)
            (fun _ => trivial)
      · cases heq

theorem Propagation.check_grounded {grounds : List Heard → Call → Prop} (event : Event)
    (h : ∀ past c, c.looks = true → grounds past c) :
    (Flow.on event.contentType (check event)).Grounded grounds
      (fun later result => (∃ reason, result = .error reason ∧ HandlerHindered later event) ∨
        ∃ rs, result = .ok rs ∧ Named later event.contentType event.language ∧
          (⟨.content event.contentType (.records event.item), .ok rs⟩ : Heard) ∈ later) [] := by
  have herror {q : Query} (hlooks : (Call.content event.contentType q).looks = true) {e : Error}
      {past : List Heard} :
      HandlerHindered (⟨.content event.contentType q, .error e⟩ :: past) event :=
    Or.inr (Or.inr ⟨q, e, hlooks, List.mem_cons_self⟩)
  refine .query (h _ _ rfl) ?_
  rintro (e | _ | _)
  · exact Or.inl ⟨_, rfl, herror rfl⟩
  · exact Or.inl ⟨_, rfl, Or.inl List.mem_cons_self⟩
  · refine .query (h _ _ rfl) ?_
    rintro (e | _ | base)
    · exact Or.inl ⟨_, rfl, herror rfl⟩
    · exact Or.inl ⟨_, rfl, Or.inr (Or.inl ⟨none, List.mem_cons_self, by simp⟩)⟩
    · simp only
      split
      · rename_i hchanged
        refine Or.inl ⟨_, rfl, Or.inr (Or.inl ⟨some base, List.mem_cons_self, ?_⟩)⟩
        simpa using hchanged
      · rename_i hbase
        refine .query (h _ _ rfl) ?_
        rintro (e | rs)
        · exact Or.inl ⟨_, rfl, herror rfl⟩
        · refine Or.inr ⟨rs, rfl, ⟨base, not_not.mp hbase, Or.inl ?_⟩, List.mem_cons_self⟩
          exact List.mem_cons_of_mem _ List.mem_cons_self

theorem Propagation.handle_grounded (event : Event) :
    (Flow.on event.contentType (handle event)).Grounded (Job.handle event).Grounds
      (fun later _ => Covered later event ∨ HandlerHindered later event) [] := by
  rw [handle, Flow.on_bind]
  refine (check_grounded event fun _ _ => .look).bind ?_
  rintro later _ _ (⟨reason, rfl, hwhy⟩ | ⟨rs, rfl, hnamed, hread⟩)
  · exact Or.inr hwhy
  · simp only
    rw [Flow.on_bind]
    have hconverge : (Flow.on event.contentType
        (Copies.converge rs event.language event.text event.actor)).Grounded
        (Job.handle event).Grounds _ later :=
      Copies.overwriteAll_grounded fun later' hsuffix r hr =>
        .followed (hnamed.mono hsuffix) (hsuffix.subset hread) hr
    refine hconverge.remembers.bind ?_
    rintro later' tally _ ⟨hsuffix, hcovered⟩
    exact Or.inl ⟨rs, hsuffix.subset hread, hcovered⟩

namespace Creation

theorem requireLanguages_grounded {grounds : List Heard → Call → Prop} {past : List Heard}
    {type : String} (h : ∀ past c, c.looks = true → grounds past c) (ids : List LanguageId) :
    (Flow.on type (requireLanguages ids).run).Grounded grounds (fun _ _ => True) past := by
  induction ids generalizing past with
  | nil => trivial
  | cons id rest ih =>
      refine .demand (h _ _ rfl) (fun _ => trivial) ?_
      rintro (_ | l)
      · trivial
      · exact ih

theorem mem_of_chooseBase {inputs : List Submission} {base : Option Language}
    {input : Submission} {choice : BaseChoice}
    (h : chooseBase inputs base = some (input, choice)) : input ∈ inputs := by
  rw [chooseBase] at h
  split at h
  · rename_i hfind
    obtain ⟨b, _, hinput⟩ := Option.bind_eq_some_iff.mp hfind
    cases h
    exact List.mem_of_find?_eq_some hinput
  · obtain ⟨head, hhead, heq⟩ := Option.map_eq_some_iff.mp h
    cases heq
    exact List.mem_of_mem_head? hhead

theorem create_grounded (type : String) (item : ItemId) (inputs : List Submission)
    (actor : Actor) :
    (Flow.on type (create item inputs actor).run).Grounded
      (Job.create type item inputs actor).Grounds (fun _ _ => True) [] := by
  rw [create.eq_def]
  split
  · trivial
  · trivial
  · rename_i first rest _
    refine (requireLanguages_grounded (fun _ _ => .look) _).attempt ?_ (fun _ _ _ _ => trivial)
    intro later _ _ _
    refine .demand (.look rfl) (fun _ => trivial) fun base => ?_
    refine .demand (.look rfl) (fun _ => trivial) fun active => ?_
    have hinput : ((chooseBase (first :: rest) base).getD (first, .firstSupplied)).1 ∈
        first :: rest := by
      cases hchoose : chooseBase (first :: rest) base with
      | none => exact List.mem_cons_self
      | some choice => exact mem_of_chooseBase hchoose
    refine .demand .given (fun _ => trivial) fun _ => ?_
    refine Program.Grounded.attempt (m := fun _ _ => True) ?_ (fun _ _ _ _ => trivial)
      (fun _ _ _ _ => trivial)
    rw [derive.eq_def]
    split
    · trivial
    · refine .demand (.look rfl) (fun _ => trivial) fun records => ?_
      exact Copies.fillGaps_grounded fun ls hfree =>
        .derived hinput List.mem_cons_self hfree

end Creation

namespace Reconciliation

/-- A pass keeps to whatever grounds it keeps to in each item. -/
theorem reconcileItems_each {grounds : List Heard → Call → Prop} {type : String}
    {base : LanguageId} {active : List LanguageId} {actor : Actor} {past : List Heard}
    {items : List ItemId}
    (h : ∀ later, past <:+ later → ∀ item ∈ items,
      (Flow.on type (reconcileItem base active actor item).run).Grounded grounds
        (fun _ _ => True) later)
    (pass : Pass) :
    (Flow.on type (reconcileItems base active actor items pass)).Grounded grounds
      (fun _ _ => True) past := by
  induction items generalizing past pass with
  | nil => trivial
  | cons item rest ih =>
      rw [reconcileItems, Flow.on_bind]
      refine (h past (List.suffix_refl past) item List.mem_cons_self).bind ?_
      intro later outcome hsuffix _
      exact ih (fun later' hsuffix' item' hitem' =>
        h later' (hsuffix.trans hsuffix') item' (List.mem_cons_of_mem item hitem')) _

section

variable {job : Job} {type : String} {actor : Actor} {past : List Heard} {base : LanguageId}
  {active : List LanguageId}

theorem reconcileItem_grounded (hjob : job.PassesOver type actor)
    (hnamed : Named past type base) (item : ItemId) :
    (Flow.on type (reconcileItem base active actor item).run).Grounded job.Grounds
      (fun _ _ => True) past := by
  refine .demand (.look rfl) (fun _ => trivial) fun rs => ?_
  split
  · trivial
  · rename_i rb hrb
    have hread : BaseRead (⟨.content type (.records item), .ok rs⟩ :: past) type item base rs rb :=
      ⟨hnamed.mono (List.suffix_cons _ _), List.mem_cons_self, hrb⟩
    refine .lift (Copies.overwriteAll_grounded ?_) ?_
    · intro later hsuffix r hr
      exact .refreshed hjob (hread.mono hsuffix) hr
    · intro later _ hsuffix _
      refine Program.Grounded.attempt (m := fun _ _ => True) ?_ (fun _ _ _ _ => trivial)
        (fun _ _ _ _ => trivial)
      exact Copies.fillGaps_grounded fun ls hfree => .filled hjob (hread.mono hsuffix) hfree

theorem reconcileItems_grounded (hjob : job.PassesOver type actor)
    (hnamed : Named past type base) (items : List ItemId) (pass : Pass) :
    (Flow.on type (reconcileItems base active actor items pass)).Grounded job.Grounds
      (fun _ _ => True) past :=
  reconcileItems_each
    (fun _ hsuffix item _ => reconcileItem_grounded hjob (hnamed.mono hsuffix) item) pass

theorem run_grounded (hjob : job.PassesOver type actor) :
    (Flow.on type (run type actor)).Grounded job.Grounds (fun _ _ => True) past := by
  rw [run, Flow.on_bind]
  have hsurvey : (Flow.on type survey.run).Grounded job.Grounds
      (fun later result => ∀ base active items, result = .ok (base, active, items) →
        Named later type base) past := by
    refine .demand (.look rfl) (fun e => nofun) ?_
    rintro (_ | base)
    · exact fun _ _ _ h => nomatch h
    · refine .demand (.look rfl) (fun e => nofun) fun active => ?_
      refine .demand (.look rfl) (fun e => nofun) fun items => ?_
      rintro _ _ _ ⟨⟩
      exact ⟨base, rfl, Or.inl (by simp)⟩
  refine hsurvey.bind ?_
  rintro later (e | ⟨base, active, items⟩) _ hnamed
  · trivial
  · exact reconcileItems_grounded hjob (hnamed base active items rfl) items _

end

end Reconciliation

namespace Backfill

section

variable {grounds : List Heard → Call → Prop} {type : String} {language base : LanguageId}
  {actor : Actor} {past : List Heard}

theorem fillItems_each {items : List ItemId}
    (h : ∀ later, past <:+ later → ∀ item ∈ items,
      (Flow.on type (fillItem language base actor item).run).Grounded grounds
        (fun _ _ => True) later)
    (entry : Entry) :
    (Flow.on type (fillItems language base actor items entry)).Grounded grounds
      (fun _ _ => True) past := by
  induction items generalizing past entry with
  | nil => trivial
  | cons item rest ih =>
      rw [fillItems, Flow.on_bind]
      refine (h past (List.suffix_refl past) item List.mem_cons_self).bind ?_
      intro later outcome hsuffix _
      exact ih (fun later' hsuffix' item' hitem' =>
        h later' (hsuffix.trans hsuffix') item' (List.mem_cons_of_mem item hitem')) _

theorem fillTypes_each {types : List String}
    (h : ∀ later, past <:+ later → ∀ type ∈ types,
      (Flow.on type (fill language base actor)).Grounded grounds (fun _ _ => True) later)
    (entries : SortedMap String Entry) :
    (fillTypes language base actor types entries).Grounded grounds (fun _ _ => True) past := by
  induction types generalizing past entries with
  | nil => trivial
  | cons type rest ih =>
      rw [fillTypes]
      refine (h past (List.suffix_refl past) type List.mem_cons_self).bind ?_
      intro later entry hsuffix _
      exact ih (fun later' hsuffix' type' htype' =>
        h later' (hsuffix.trans hsuffix') type' (List.mem_cons_of_mem type htype')) _

theorem concludeTypes_each {types : List String}
    (h : ∀ later, ∀ type ∈ types,
      (Flow.on type (Reconciliation.run type actor)).Grounded grounds (fun _ _ => True) later)
    (entries : SortedMap String Entry) (metrics : Metrics) :
    (concludeTypes actor types entries metrics).Grounded grounds (fun _ _ => True) past := by
  induction types generalizing past entries metrics with
  | nil => trivial
  | cons type rest ih =>
      rw [concludeTypes]
      refine (h past type List.mem_cons_self).bind fun later pass _ _ => ?_
      exact ih (fun later' type' htype' => h later' type' (List.mem_cons_of_mem type htype')) _ _

end

section

variable {job : Job} {type : String} {actor : Actor} {past : List Heard}
  {language base : LanguageId}

theorem fillItem_grounded (hjob : job.PassesOver type actor) (hnamed : Named past type base)
    (item : ItemId) :
    (Flow.on type (fillItem language base actor item).run).Grounded job.Grounds
      (fun _ _ => True) past := by
  refine .demand (.look rfl) (fun _ => trivial) fun rs => ?_
  split
  · trivial
  · split
    · trivial
    · rename_i rb hrb
      refine Copies.fillGaps_grounded fun ls hfree => .filled hjob ⟨?_, ?_, hrb⟩ hfree
      · exact hnamed.mono (List.suffix_cons _ _)
      · exact List.mem_cons_self

theorem fillItems_grounded (hjob : job.PassesOver type actor) (hnamed : Named past type base)
    (items : List ItemId) (entry : Entry) :
    (Flow.on type (fillItems language base actor items entry)).Grounded job.Grounds
      (fun _ _ => True) past :=
  fillItems_each (fun _ hsuffix item _ => fillItem_grounded hjob (hnamed.mono hsuffix) item) entry

theorem fill_grounded (hjob : job.PassesOver type actor) (hnamed : Named past type base) :
    (Flow.on type (fill language base actor)).Grounded job.Grounds (fun _ _ => True) past := by
  refine .query (.look rfl) ?_
  rintro (e | items)
  · trivial
  · simp only
    rw [Flow.on_bind]
    refine Program.Grounded.bind (m := fun _ _ => True) ?_ (fun _ _ _ _ => trivial)
    exact fillItems_grounded hjob (hnamed.mono (List.suffix_cons _ _)) items _

end

section

variable {types : List String} {actor : Actor} {code : String} {past : List Heard}

theorem fillTypes_grounded {language base : LanguageId} {some : List String}
    (hsome : ∀ type ∈ some, type ∈ types) (hnamed : ∀ type, Named past type base)
    (entries : SortedMap String Entry) :
    (fillTypes language base actor some entries).Grounded (Job.backfill types actor code).Grounds
      (fun _ _ => True) past :=
  fillTypes_each (fun _ hsuffix type htype =>
    fill_grounded (.backfill actor code (hsome type htype)) ((hnamed type).mono hsuffix)) entries

theorem concludeTypes_grounded {some : List String} (hsome : ∀ type ∈ some, type ∈ types)
    (entries : SortedMap String Entry) (metrics : Metrics) :
    (concludeTypes actor some entries metrics).Grounded
      (Job.backfill types actor code).Grounds (fun _ _ => True) past :=
  concludeTypes_each (fun _ type htype =>
    Reconciliation.run_grounded (.backfill actor code (hsome type htype))) entries metrics

theorem resolve_grounded {grounds : List Heard → Call → Prop}
    (h : ∀ past c, c.looks = true → grounds past c) :
    (resolve code).Grounded grounds
      (fun later result => ∀ language base, result = .ok (language, base) →
        ∀ type, Named later type base) past := by
  refine ⟨h _ _ rfl, ?_⟩
  rintro (e | _ | language)
  · exact fun _ _ h => nomatch h
  · exact fun _ _ h => nomatch h
  · change (if (!language.available) = true then _ else _ : Service _).Grounded _ _ _
    split
    · exact fun _ _ h => nomatch h
    · refine ⟨h _ _ rfl, ?_⟩
      rintro (e | _ | base)
      · exact fun _ _ h => nomatch h
      · exact fun _ _ h => nomatch h
      · rintro _ _ ⟨⟩ type
        exact ⟨base, rfl, Or.inr List.mem_cons_self⟩

theorem run_grounded :
    (run types actor code).Grounded (Job.backfill types actor code).Grounds
      (fun _ _ => True) past := by
  rw [run]
  refine (resolve_grounded fun _ _ => .look).bind ?_
  rintro later (refusal | ⟨language, base⟩) _ hnamed
  · trivial
  · refine (fillTypes_grounded (fun _ h => h) (hnamed language base rfl) .empty).bind ?_
    intro later' entries _ _
    refine Program.Grounded.bind (m := fun _ _ => True) ?_ (fun _ _ _ _ => trivial)
    exact concludeTypes_grounded (fun _ h => h) _ _

end

end Backfill

theorem Job.program_grounded (job : Job) :
    job.program.Grounded job.Grounds job.Ends [] := by
  cases job with
  | create type item inputs actor =>
      exact (Creation.create_grounded type item inputs actor).bind fun _ _ _ _ _ => ⟨rfl, rfl⟩
  | edit type item language text actor =>
      refine (Edit.edit_grounded type item language text actor).bind ?_
      rintro later _ _ (⟨e, rfl, hwhy⟩ | ⟨report, event, record, rfl, hwrite, l, hl, hevent⟩)
      · exact Or.inl ⟨hwhy, rfl⟩
      · by_cases hbase : l.any (·.id = language) = true
        · rw [if_pos hbase] at hevent
          subst hevent
          exact Or.inr ⟨record, hwrite, l, hl, (if_pos hbase).symm⟩
        · rw [if_neg hbase] at hevent
          subst hevent
          exact Or.inr ⟨record, hwrite, l, hl, (if_neg hbase).symm⟩
  | unpin type item language actor =>
      exact (Edit.unpin_grounded type item language actor).bind fun _ _ _ _ _ => ⟨rfl, rfl⟩
  | handle event =>
      exact (Propagation.handle_grounded event).bind fun _ _ _ h => ⟨h, fun _ => ⟨rfl, rfl⟩⟩
  | reconcile type actor =>
      exact (Reconciliation.run_grounded (.reconcile type actor)).bind fun _ _ _ _ _ => ⟨rfl, rfl⟩
  | backfill types actor code =>
      exact Backfill.run_grounded.bind fun _ _ _ _ _ => ⟨rfl, rfl⟩

def Task.Grounded (t : Task) : Prop := t.rest.Grounded t.job.Grounds t.job.Ends t.past

theorem Job.task_grounded (job : Job) : job.task.Grounded := job.program_grounded

namespace Pool

def Grounded (p : Pool) : Prop := ∀ t ∈ p.tasks, t.Grounded

variable {p q : Pool} {m : Move}

theorem Grounded.step (h : p.Grounded) (hstep : Step p m q) : q.Grounded :=
  hstep.forall_tasks h (fun _ _ ht => ht) (fun job _ => job.task_grounded)
    fun _ _ c _ _ _ _ ht => ht.2 (World.answer c p.world).1

end Pool

end Polyglot

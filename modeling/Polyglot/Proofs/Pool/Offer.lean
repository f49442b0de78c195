import Polyglot.Proofs.Pool.Grounds

namespace Polyglot

/-- The language was named as one that is available. -/
inductive Offered (past : List Heard) (type : String) (language : LanguageId) : Prop where
  | listed (ls : List Language)
      (hheard : (⟨.content type (.language .active), .ok ls⟩ : Heard) ∈ past)
      (hl : language ∈ ls.map (·.id))
  | resolved (code : String) (l : Language)
      (hheard : (⟨.directory (.byCode code), .ok (some l)⟩ : Heard) ∈ past)
      (havailable : l.available = true) (hid : l.id = language)

/-- What a pass may do after what it heard. -/
inductive Background (past : List Heard) : Call → Prop where
  | look {c : Call} (hlooks : c.looks = true) : Background past c
  | overwrite (type : String) (id : RecordId) (text : Text) (actor : Actor) :
      Background past (.content type (.overwriteCopy id text actor))
  | add {type : String} {item : ItemId} {rs : List Record} {drafts : List Draft} (actor : Actor)
      (hread : (⟨.content type (.records item), .ok rs⟩ : Heard) ∈ past) (hrs : rs ≠ [])
      (hoffered : ∀ draft ∈ drafts, Offered past type draft.language) :
      Background past (.content type (.insert item drafts actor))

theorem Offered.mono {past later : List Heard} {type : String} {language : LanguageId}
    (h : Offered past type language) (hsuffix : past <:+ later) : Offered later type language := by
  cases h with
  | listed ls hheard hl => exact .listed ls (hsuffix.subset hheard) hl
  | resolved code l hheard havailable hid =>
      exact .resolved code l (hsuffix.subset hheard) havailable hid

variable {past : List Heard} {type : String} {base : LanguageId} {actor : Actor}

theorem Copies.fillGaps_background {item : ItemId} {rs : List Record} {languages : List LanguageId}
    {text : Text} (hread : (⟨.content type (.records item), .ok rs⟩ : Heard) ∈ past)
    (hrs : rs ≠ []) (hoffered : ∀ l ∈ languages, Offered past type l) :
    (Flow.on type (fillGaps item rs languages text actor).run).Grounded Background
      (fun _ _ => True) past := by
  by_cases hmissing : missing (rs.map (·.language)) languages = []
  · rw [run_fillGaps_of_full hmissing]
    trivial
  · rw [run_fillGaps_of_gap hmissing]
    refine ⟨.add actor hread hrs fun draft hdraft => ?_, fun _ => trivial⟩
    obtain ⟨l, hl, rfl⟩ := List.mem_map.mp hdraft
    exact hoffered l (subset_of_missing _ hl)

namespace Reconciliation

variable {active : List LanguageId}

theorem reconcileItem_background (hoffered : ∀ l ∈ active, Offered past type l) (item : ItemId) :
    (Flow.on type (reconcileItem base active actor item).run).Grounded Background
      (fun _ _ => True) past := by
  refine .demand (.look rfl) (fun _ => trivial) fun rs => ?_
  split
  · trivial
  · rename_i rb hrb
    have hrs : rs ≠ [] := List.ne_nil_of_mem (List.mem_of_find?_eq_some hrb)
    refine .lift (Copies.overwriteAll_grounded fun _ _ r _ => .overwrite type r.id _ actor) ?_
    intro later _ hsuffix _
    refine Program.Grounded.attempt (m := fun _ _ => True) ?_ (fun _ _ _ _ => trivial)
      (fun _ _ _ _ => trivial)
    exact Copies.fillGaps_background (hsuffix.subset List.mem_cons_self) hrs
      fun l hl => (hoffered l hl).mono ((List.suffix_cons _ _).trans hsuffix)

theorem run_background (type : String) (actor : Actor) (past : List Heard) :
    (Flow.on type (run type actor)).Grounded Background (fun _ _ => True) past := by
  rw [run, Flow.on_bind]
  have hsurvey : (Flow.on type survey.run).Grounded Background
      (fun later result => ∀ base active items, result = .ok (base, active, items) →
        ∀ l ∈ active, Offered later type l) past := by
    have herror {later : List Heard} (e : Error) (base : LanguageId) (active : List LanguageId)
        (items : List ItemId)
        (h : (Except.error e : Except Error _) = .ok (base, active, items)) :
        ∀ l ∈ active, Offered later type l := by
      cases h
    refine .demand (.look rfl) (fun e => herror e) fun base? => ?_
    cases base? with
    | none => exact herror _
    | some base =>
        refine .demand (.look rfl) (fun e => herror e) fun active => ?_
        refine .demand (.look rfl) (fun e => herror e) fun items => ?_
        rintro _ _ _ ⟨⟩ l hl
        refine .listed active ?_ (List.mem_of_mem_filter hl)
        exact List.mem_cons_of_mem _ List.mem_cons_self
  refine hsurvey.bind ?_
  rintro later (e | ⟨base, active, items⟩) _ hoffered
  · trivial
  · refine reconcileItems_each (fun later' hsuffix item _ => ?_) _
    exact reconcileItem_background
      (fun l hl => (hoffered base active items rfl l hl).mono hsuffix) item

end Reconciliation

namespace Backfill

variable {language : LanguageId}

theorem fillItem_background (hoffered : Offered past type language) (item : ItemId) :
    (Flow.on type (fillItem language base actor item).run).Grounded Background
      (fun _ _ => True) past := by
  refine .demand (.look rfl) (fun _ => trivial) fun rs => ?_
  split
  · trivial
  · split
    · trivial
    · rename_i rb hrb
      have hrs : rs ≠ [] := List.ne_nil_of_mem (List.mem_of_find?_eq_some hrb)
      refine Copies.fillGaps_background List.mem_cons_self hrs fun l hl => ?_
      rw [List.mem_singleton.mp hl]
      exact hoffered.mono (List.suffix_cons _ _)

theorem fill_background (hoffered : Offered past type language) :
    (Flow.on type (fill language base actor)).Grounded Background (fun _ _ => True) past := by
  refine .query (.look rfl) ?_
  rintro (e | items)
  · trivial
  · dsimp only
    rw [Flow.on_bind]
    refine Program.Grounded.bind (m := fun _ _ => True) ?_ (fun _ _ _ _ => trivial)
    refine fillItems_each (fun later hsuffix item _ => ?_) _
    exact fillItem_background (hoffered.mono ((List.suffix_cons _ _).trans hsuffix)) item

theorem resolve_background (code : String) :
    (resolve code).Grounded Background
      (fun later result => ∀ language base, result = .ok (language, base) →
        ∀ type, Offered later type language) past := by
  have hrefused {later : List Heard} (refusal : Refusal) (language base : LanguageId)
      (h : Except.error refusal = .ok (language, base)) (type : String) :
      Offered later type language := by
    cases h
  refine ⟨.look rfl, ?_⟩
  rintro (e | _ | language)
  · exact hrefused _
  · exact hrefused _
  · change (if (!language.available) = true then _ else _ : Service _).Grounded _ _ _
    split
    · exact hrefused _
    · rename_i havailable
      refine ⟨.look rfl, ?_⟩
      rintro (e | _ | base)
      · exact hrefused _
      · exact hrefused _
      · rintro _ _ ⟨⟩ type
        exact .resolved code language (List.mem_cons_of_mem _ List.mem_cons_self)
          (by simpa using havailable) rfl

theorem run_background (types : List String) (actor : Actor) (code : String)
    (past : List Heard) :
    (run types actor code).Grounded Background (fun _ _ => True) past := by
  rw [run]
  refine (resolve_background code).bind ?_
  rintro later (refusal | ⟨language, base⟩) _ hoffered
  · trivial
  · have hfill : (fillTypes language base actor types .empty).Grounded Background
        (fun _ _ => True) later :=
      fillTypes_each (fun later' hsuffix type _ =>
        fill_background ((hoffered language base rfl type).mono hsuffix)) .empty
    refine hfill.bind fun later' entries _ _ => ?_
    refine Program.Grounded.bind (m := fun _ _ => True) ?_ (fun _ _ _ _ => trivial)
    refine concludeTypes_each (fun later type _ => ?_) _ _
    exact Reconciliation.run_background type actor later

end Backfill

theorem Job.PassesOver.background {job : Job} (h : job.PassesOver type actor) :
    job.program.Grounded Background (fun _ _ => True) [] := by
  cases h with
  | reconcile type actor =>
      exact (Reconciliation.run_background type actor []).bind fun _ _ _ _ => trivial
  | backfill actor code htype =>
      exact (Backfill.run_background _ actor code []).bind fun _ _ _ _ => trivial

end Polyglot

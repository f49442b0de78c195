import Polyglot.Proofs.Pool.Grounds

namespace Polyglot

/-- The item was among those that a listing of the content type named. -/
def OnList (past : List Heard) (type : String) (item : ItemId) : Prop :=
  ∃ items, (⟨.content type .items, .ok items⟩ : Heard) ∈ past ∧ item ∈ items

/-- The calls that write for the given item only if it was listed. -/
inductive Restrained (type : String) (item : ItemId) (past : List Heard) : Call → Prop where
  | look {c : Call} (hlooks : c.looks = true) : Restrained type item past c
  | insert {target : String} {i : ItemId} (drafts : List Draft) (actor : Actor)
      (hlisted : target = type → i = item → OnList past type item) :
      Restrained type item past (.content target (.insert i drafts actor))
  | overwrite {target : String} {i : ItemId} {rs : List Record} {r : Record} (text : Text)
      (actor : Actor) (hread : (⟨.content target (.records i), .ok rs⟩ : Heard) ∈ past)
      (hr : r ∈ rs) (hlisted : target = type → i = item → OnList past type item) :
      Restrained type item past (.content target (.overwriteCopy r.id text actor))
  | write {target : String} {i : ItemId} {rs : List Record} {r : Record} (text : Text)
      (follows : Bool) (actor : Actor)
      (hread : (⟨.content target (.records i), .ok rs⟩ : Heard) ∈ past)
      (hr : r ∈ rs) (hlisted : target = type → i = item → OnList past type item) :
      Restrained type item past (.content target (.write r.id text follows actor))

/-- The job is about one item, and that is another one. -/
def Job.Aside (type : String) (item : ItemId) : Job → Prop
  | .create target i _ _ => target = type → i ≠ item
  | .edit target i _ _ _ => target = type → i ≠ item
  | .unpin target i _ _ => target = type → i ≠ item
  | .handle event => event.contentType = type → event.item ≠ item
  | .reconcile _ _ => False
  | .backfill _ _ _ => False

theorem OnList.mono {past later : List Heard} {type : String} {item : ItemId}
    (h : OnList past type item) (hsuffix : past <:+ later) : OnList later type item := by
  obtain ⟨items, hlisting, hitem⟩ := h
  exact ⟨items, hsuffix.subset hlisting, hitem⟩

variable {type target : String} {item i : ItemId} {past : List Heard} {base : LanguageId}
  {actor : Actor}

theorem Job.Grounds.restrained {job : Job} {c : Call} (h : job.Grounds past c)
    (haside : job.Aside type item) : Restrained type item past c := by
  have hnever {t : String} {j : ItemId} (hne : t = type → j ≠ item) :
      t = type → j = item → OnList past type item :=
    fun ht hj => absurd hj (hne ht)
  cases h with
  | look hlooks => exact .look hlooks
  | given => exact .insert _ _ (hnever haside)
  | derived => exact .insert _ _ (hnever haside)
  | edited hread hr =>
      exact .write _ _ _ hread (List.mem_of_find?_eq_some hr) (hnever haside)
  | unpinned hread _ hr =>
      exact .write _ _ _ hread.read (List.mem_of_find?_eq_some hr) (hnever haside)
  | followed _ hread hr =>
      exact .overwrite _ _ hread (Copies.mem_among.mp hr).1 (hnever haside)
  | refreshed hjob => cases hjob <;> exact haside.elim
  | filled hjob => cases hjob <;> exact haside.elim

namespace Reconciliation

theorem reconcileItem_restrained {active : List LanguageId}
    (hlisted : target = type → i = item → OnList past type item) :
    (Flow.on target (reconcileItem base active actor i).run).Grounded (Restrained type item)
      (fun _ _ => True) past := by
  refine .demand (.look rfl) (fun _ => trivial) fun rs => ?_
  split
  · trivial
  · refine .lift (Copies.overwriteAll_grounded ?_) ?_
    · intro later hsuffix r hr
      exact .overwrite _ _ (hsuffix.subset List.mem_cons_self) (Copies.mem_among.mp hr).1
        fun ht hi => ((hlisted ht hi).mono (List.suffix_cons _ _)).mono hsuffix
    · intro later _ hsuffix _
      refine Program.Grounded.attempt (m := fun _ _ => True) ?_ (fun _ _ _ _ => trivial)
        (fun _ _ _ _ => trivial)
      exact Copies.fillGaps_grounded fun ls _ => .insert _ _
        fun ht hi => ((hlisted ht hi).mono (List.suffix_cons _ _)).mono hsuffix

theorem run_restrained (type target : String) (item : ItemId) (actor : Actor)
    (past : List Heard) :
    (Flow.on target (run target actor)).Grounded (Restrained type item) (fun _ _ => True) past := by
  rw [run, Flow.on_bind]
  have hsurvey : (Flow.on target survey.run).Grounded (Restrained type item)
      (fun later result => ∀ base active items, result = .ok (base, active, items) →
        (⟨.content target .items, .ok items⟩ : Heard) ∈ later) past := by
    refine .demand (.look rfl) (by simp) ?_
    rintro (_ | base)
    · rintro _ _ _ ⟨⟩
    · refine .demand (.look rfl) (by simp) fun active => ?_
      refine .demand (.look rfl) (by simp) fun items => ?_
      rintro _ _ _ ⟨⟩
      exact List.mem_cons_self
  refine hsurvey.bind ?_
  rintro later (e | ⟨base, active, items⟩) _ hlisting
  · trivial
  · refine reconcileItems_each (fun later' hsuffix i hi => reconcileItem_restrained ?_) _
    rintro rfl rfl
    exact ⟨items, hsuffix.subset (hlisting base active items rfl), hi⟩

end Reconciliation

namespace Backfill

variable {language : LanguageId}

theorem fillItem_restrained (hlisted : target = type → i = item → OnList past type item) :
    (Flow.on target (fillItem language base actor i).run).Grounded (Restrained type item)
      (fun _ _ => True) past := by
  refine .demand (.look rfl) (fun _ => trivial) fun rs => ?_
  split
  · trivial
  · split
    · trivial
    · exact Copies.fillGaps_grounded fun ls _ => .insert _ _
        fun ht hi => (hlisted ht hi).mono (List.suffix_cons _ _)

theorem fill_restrained :
    (Flow.on target (fill language base actor)).Grounded (Restrained type item)
      (fun _ _ => True) past := by
  refine .query (.look rfl) ?_
  rintro (e | items)
  · trivial
  · dsimp only
    rw [Flow.on_bind]
    refine Program.Grounded.bind (m := fun _ _ => True) ?_ (fun _ _ _ _ => trivial)
    refine fillItems_each (fun later hsuffix i hi => fillItem_restrained ?_) _
    rintro rfl rfl
    exact ⟨items, hsuffix.subset List.mem_cons_self, hi⟩

theorem run_restrained (types : List String) (actor : Actor) (code type : String) (item : ItemId)
    (past : List Heard) :
    (run types actor code).Grounded (Restrained type item) (fun _ _ => True) past := by
  rw [run]
  refine (resolve_grounded fun _ _ => .look).bind ?_
  rintro later (refusal | ⟨language, base⟩) _ _
  · trivial
  · refine (fillTypes_each (fun later' _ target _ => fill_restrained) .empty).bind ?_
    intro later' entries _ _
    refine Program.Grounded.bind (m := fun _ _ => True) ?_ (fun _ _ _ _ => trivial)
    exact concludeTypes_each
      (fun later target _ => Reconciliation.run_restrained type target item actor later) _ _

end Backfill

end Polyglot

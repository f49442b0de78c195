import Polyglot.Flow.Backfill
import Polyglot.Proofs.Reconciliation.Healing

namespace Polyglot.Backfill

open Reconciliation

/-- An item is given its text in the new language, if it lacks one and has a base text. -/
inductive Supply (c : Course) (language : LanguageId) (item : ItemId) :
    Session → Except Error Nat → Session → Prop where
  | unread (σ : Session) (e : Error) (hwhy : c.refuse.Bites) :
      Supply c language item σ (.error e) (σ.note (.records item) (.error e) σ.store)
  | present (σ : Session) (hthere : σ.store.recordIn? item language ≠ none) :
      Supply c language item σ (.ok 0) (read σ item)
  | baseless (σ : Session) (hgap : σ.store.recordIn? item language = none)
      (hbase : σ.store.recordIn? item c.base = none) :
      Supply c language item σ (.ok 0) (read σ item)
  | supplied {σ σ' : Session} {rb : Record} {result : Except Error Nat}
      (hgap : σ.store.recordIn? item language = none)
      (hbase : σ.store.recordIn? item c.base = some rb)
      (hfill : Fill c item rb.text [language] (read σ item) result σ') :
      Supply c language item σ result σ'

inductive Supplies (c : Course) (language : LanguageId) :
    List ItemId → Entry → Session → Entry → Session → Prop where
  | nil (entry : Entry) (σ : Session) : Supplies c language [] entry σ entry σ
  | cons {item : ItemId} {rest : List ItemId} {entry entry' : Entry} {σ σ₁ σ' : Session}
      {result : Except Error Nat} (hsupply : Supply c language item σ result σ₁)
      (hrest : Supplies c language rest (entry.enter result) σ₁ entry' σ') :
      Supplies c language (item :: rest) entry σ entry' σ'

def listed (σ : Session) : Session := σ.note .items (.ok σ.store.liveItems) σ.store

/-- A content type is filled, or its items cannot be listed. -/
inductive Filling (c : Course) (language : LanguageId) : Session → Entry → Session → Prop where
  | unlisted (σ : Session) (e : Error)
      (hwhy : c.refuse.Bites ∨ σ.store.faults.listing = true) :
      Filling c language σ { Entry.zero with error := some e, failed := true }
        (σ.note .items (.error e) σ.store)
  | filled {σ σ' : Session} {entry : Entry} (hlisting : σ.store.faults.listing = false)
      (hsupplies : Supplies c language σ.store.liveItems .zero (listed σ) entry σ') :
      Filling c language σ { entry with failed := decide (0 < entry.itemFailures) } σ'

def gained : Except Error Nat → Nat
  | .ok created => created
  | .error _ => 0

theorem created_enter (entry : Entry) (result : Except Error Nat) :
    (entry.enter result).created = entry.created + gained result := by
  cases result <;> rfl

section

variable {d : Directory} {c : Course} {language l : LanguageId} {item i : ItemId}
  {items : List ItemId} {entry entry' : Entry} {result : Except Error Nat} {σ σ' : Session}

theorem supply_run (d : Directory) (c : Course) (language : LanguageId) (hs : σ.store.Sound)
    (hitem : σ.store.items.contains item = true) :
    let out := (fillItem language c.base c.actor item).run.run (Session.answer d c.refuse) σ
    Supply c language item σ out.1 out.2 := by
  rw [fillItem, Flow.records]
  have hread : (σ.store.answer d (.records item)).1 = .ok (σ.store.recordsOf item) := rfl
  rcases Session.run_demand c.refuse rfl hread _ with ⟨e, hwhy, hrun⟩ | hrun
  · rw [hrun]
    exact .unread σ e hwhy
  rw [← Reconciliation.read] at hrun
  rw [hrun]
  have hany : (σ.store.recordsOf item).any (·.language = language) =
      (σ.store.recordIn? item language).isSome := by
    rw [← hs.find?_recordsOf_eq, List.isSome_find?]
  rw [hany, hs.find?_recordsOf_eq]
  cases hgap : σ.store.recordIn? item language with
  | some r => exact .present σ (by simp [hgap])
  | none =>
      cases hbase : σ.store.recordIn? item c.base with
      | none => exact .baseless σ hgap hbase
      | some rb =>
          have hrecords : ∀ l ∈ σ.store.languagesOf item,
              l ∈ (σ.store.recordsOf item).map (·.language) :=
            fun l hl => Store.mem_map_language_recordsOf.mpr hl
          have hfill := fill_run (σ := read σ item) d c rb.text [language] hitem hrecords
          have hmissing : Copies.missing ((σ.store.recordsOf item).map (·.language)) [language] =
              [language] := by
            have hout := Store.recordIn?_eq_none_iff_not_mem.mp hgap
            rw [← Store.mem_map_language_recordsOf] at hout
            simp only [Copies.missing, if_neg hout]
          rw [hmissing] at hfill
          exact .supplied hgap hbase hfill

theorem Supply.frame (h : Supply c language item σ result σ') (hs : σ.store.Sound)
    (hitem : σ.store.items.contains item = true) : Frame σ.store σ'.store := by
  cases h with
  | unread => exact .refl hs
  | present => exact .refl hs
  | baseless => exact .refl hs
  | supplied hgap _ hfill =>
      refine hfill.frame hs hitem (List.nodup_singleton language) fun l hl => ?_
      rwa [List.mem_singleton.mp hl]

theorem supplies_run (d : Directory) (c : Course) (language : LanguageId) (hs : σ.store.Sound)
    (hitems : ∀ item ∈ items, σ.store.items.contains item = true) :
    let out := (fillItems language c.base c.actor items entry).run (Session.answer d c.refuse) σ
    Supplies c language items entry σ out.1 out.2 := by
  induction items generalizing entry σ with
  | nil => exact .nil entry σ
  | cons item rest ih =>
      have hitem := hitems item List.mem_cons_self
      have hsupply := supply_run d c language hs hitem
      have hframe := hsupply.frame hs hitem
      simp only [fillItems, Program.run_bind]
      refine .cons hsupply (ih hframe.sound fun other hother => ?_)
      rw [hframe.items]
      exact hitems other (List.mem_cons_of_mem item hother)

/-- Every filling of a content type goes in one of these ways. -/
theorem filling_run (d : Directory) (c : Course) (language : LanguageId) (hs : σ.store.Sound) :
    let out := (fill language c.base c.actor).run (Session.answer d c.refuse) σ
    Filling c language σ out.1 out.2 := by
  simp only [fill, Flow.run_items, Program.run_bind, Program.run_query, Session.answer]
  cases hrefuse : c.refuse σ.calls .items with
  | some e => exact .unlisted σ e (Or.inl (Refusals.bites hrefuse))
  | none =>
      simp only [Store.answer, Store.list]
      cases hlisting : σ.store.faults.listing with
      | true => exact .unlisted σ _ (Or.inr hlisting)
      | false =>
          simp only [Bool.false_eq_true, if_false, Program.run_bind]
          exact .filled hlisting
            (supplies_run d c language hs fun item => contains_of_mem_liveItems)

theorem Supplies.frame (h : Supplies c language items entry σ entry' σ') (hs : σ.store.Sound)
    (hitems : ∀ item ∈ items, σ.store.items.contains item = true) :
    Frame σ.store σ'.store := by
  induction h with
  | nil => exact .refl hs
  | cons hsupply _ ih =>
      have hframe := hsupply.frame hs (hitems _ List.mem_cons_self)
      refine hframe.trans (ih hframe.sound fun item hitem => ?_)
      rw [hframe.items]
      exact hitems item (List.mem_cons_of_mem _ hitem)

theorem Supply.created (h : Supply c language item σ result σ') :
    σ'.store.records.length = σ.store.records.length + gained result := by
  cases h with
  | unread => rfl
  | present => rfl
  | baseless => rfl
  | supplied _ _ hfill =>
      cases hfill with
      | filled => simp [Session.note, Store.append, Store.length_enrol, gained, Reconciliation.read]
      | failed => rfl

theorem Supplies.created (h : Supplies c language items entry σ entry' σ') :
    σ'.store.records.length + entry.created = σ.store.records.length + entry'.created := by
  induction h with
  | nil => rfl
  | cons hsupply _ ih =>
      have hcreated := hsupply.created
      rw [created_enter] at ih
      omega

end

end Polyglot.Backfill

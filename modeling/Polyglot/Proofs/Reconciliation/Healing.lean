import Polyglot.Proofs.Reconciliation.Ledger

/-!
Passes heal. In every place of a store there is one thing that a pass without failures makes of it,
and no pass changes what that thing is, however it fails. So any number of failing passes and then a
good one end where the good one alone would have ended, and one more good pass finds nothing to do.
-/

namespace Polyglot

/-- A record without its id and the times of its writes. -/
abbrev Outline := ItemId × LanguageId × Text × Bool × Actor × Actor

def Record.outline (r : Record) : Outline :=
  (r.item, r.language, r.text, r.follows, r.createdBy, r.updatedBy)

instance (b : LanguageId) (r : Record) : Decidable (r.IsCopy b) :=
  inferInstanceAs (Decidable (r.follows = true ∧ r.language ≠ b))

namespace Reconciliation

/-- What fails during a pass. -/
structure Trouble where
  faults : Faults
  refuse : Refusals

def Trouble.none : Trouble := ⟨.none, .never⟩

def passUnder (d : Directory) (type : String) (actor : Actor) (trouble : Trouble) (s : Store) :
    Pass × Session :=
  (run type actor).run (Session.answer d trouble.refuse)
    (.start { s with faults := trouble.faults })

def storeAfter (d : Directory) (type : String) (actor : Actor) (troubles : List Trouble)
    (s : Store) : Store :=
  troubles.foldl (fun s trouble => (passUnder d type actor trouble s).2.store) s

/-- What a pass without failures makes of a place of an item with this base text. -/
def mended (c : Course) (text : Text) (item : ItemId) (language : LanguageId) :
    Option Record → Option Outline
  | some r =>
      if r.IsCopy c.base ∧ r.text ≠ text then some (r.rewritten text true c.actor 0).outline
      else some r.outline
  | none =>
      if language ∈ c.active then some ((Draft.copy language text).record item c.actor 0 0).outline
      else none

section

variable {c : Course} {faults : Faults} {text : Text} {item : ItemId} {l : LanguageId}
  {clean : Prop} {o o' : Option Record}

theorem mended_of_not_due (h : ¬ Due c text l o) :
    mended c text item l o = o.map Record.outline := by
  cases o with
  | none => exact if_neg h
  | some r => exact if_neg h

theorem not_due_rewritten (r : Record) (actor : Actor) (now : Instant) :
    ¬ Due c text l (some (r.rewritten text true actor now)) :=
  fun h => h.2 rfl

theorem not_due_added (actor : Actor) (now : Instant) (id : RecordId) :
    ¬ Due c text l (some ((Draft.copy l text).record item actor now id)) :=
  fun h => h.2 rfl

theorem Treated.mended_eq (h : Treated c faults text item l clean o o') :
    mended c text item l o' = mended c text item l o := by
  cases h with
  | overwritten r now hdue =>
      rw [mended_of_not_due (not_due_rewritten r c.actor now)]
      exact (if_pos hdue).symm
  | added id now hdue =>
      rw [mended_of_not_due (not_due_added c.actor now id)]
      exact (if_pos hdue).symm
  | kept => rfl
  | hindered => rfl

theorem not_blocked_none (l : LanguageId) (o : Option Record) : ¬ Blocked .none l o := by
  cases o <;> simp [Blocked, Faults.none]

theorem Treated.not_due (h : Treated c .none text item l clean o o') (hcalm : ¬ c.refuse.Bites) :
    ¬ Due c text l o' := by
  cases h with
  | overwritten r now => exact not_due_rewritten r c.actor now
  | added id now => exact not_due_added c.actor now id
  | kept _ hdue => exact hdue
  | hindered o _ hwhy => exact absurd hwhy (not_or.mpr ⟨hcalm, not_blocked_none l o⟩)

/-- The one thing that a pass without failures makes of a place. -/
def normal (d : Directory) (actor : Actor) (s : Store) (item : ItemId) (language : LanguageId) :
    Option Outline :=
  match d.base.bind fun base => (s.baseText? base.id item).map (base.id, ·) with
  | none => (s.recordIn? item language).map Record.outline
  | some (base, text) =>
      mended ⟨.never, base, others d base, actor⟩ text item language (s.recordIn? item language)

end

section

variable {d : Directory} {type : String} {actor : Actor} {s t : Store} {c : Course} {text : Text}
  {rs : List Record} {σ σ' : Session} {tally : Tally} {item : ItemId}
  {outcome : Except Error ItemOutcome} {items : List ItemId} {pass pass' : Pass} {clean : Prop}

/-- A pass under any trouble treats every place, or it leaves the records alone. -/
theorem passUnder_effect (d : Directory) (type : String) (actor : Actor) (trouble : Trouble)
    (hs : s.Sound) :
    let u : Store := { s with faults := trouble.faults }
    let out := passUnder d type actor trouble s
    (out.2.store = u ∧ (trouble.refuse.Bites ∨ d.base = none ∨ trouble.faults.listing = true)) ∨
      ∃ base, d.base = some base ∧ ∃ clean,
        Treats ⟨trouble.refuse, base.id, others d base.id, actor⟩ clean u out.2.store := by
  have hstart : (Session.start { s with faults := trouble.faults }).store.Sound :=
    hs.setFaults trouble.faults
  have hscan := scan_run d trouble.refuse type actor hstart
  rcases hscan.effect hstart with ⟨_, hsame, hwhy⟩ | ⟨base, hbase, _, _, htreats⟩
  · exact Or.inl ⟨hsame, hwhy⟩
  · exact Or.inr ⟨base, hbase, _, htreats⟩

theorem passUnder_sound (trouble : Trouble) (hs : s.Sound) :
    (passUnder d type actor trouble s).2.store.Sound := by
  rcases passUnder_effect d type actor trouble hs with ⟨hsame, _⟩ | ⟨_, _, _, htreats⟩
  · rw [hsame]
    exact hs.setFaults trouble.faults
  · exact htreats.frame.sound

theorem normal_eq_of_base {base : Language} (hbase : d.base = some base) (refuse : Refusals)
    (item : ItemId) (l : LanguageId) :
    normal d actor s item l =
      match s.baseText? base.id item with
      | none => (s.recordIn? item l).map Record.outline
      | some text =>
          mended ⟨refuse, base.id, others d base.id, actor⟩ text item l (s.recordIn? item l) := by
  rw [normal, hbase, Option.bind_some]
  cases s.baseText? base.id item <;> rfl

/-- No pass changes what a good pass would make of a place. -/
theorem normal_passUnder (trouble : Trouble) (hs : s.Sound) (item : ItemId) (l : LanguageId) :
    normal d actor (passUnder d type actor trouble s).2.store item l = normal d actor s item l := by
  rcases passUnder_effect d type actor trouble hs with ⟨hsame, _⟩ | ⟨base, hbase, _, htreats⟩
  · rw [hsame]
    rfl
  · rw [normal_eq_of_base hbase trouble.refuse, normal_eq_of_base hbase trouble.refuse]
    have hbaseText := htreats.baseText?_eq item
    change _ = s.baseText? base.id item at hbaseText
    rw [hbaseText]
    cases htext : s.baseText? base.id item with
    | none => exact congrArg (Option.map Record.outline) (htreats.unbased item htext l)
    | some text => exact (htreats.based item text htext l).mended_eq

theorem passUnder_none_treats (type : String) (actor : Actor) (hs : s.Sound) {base : Language}
    (hbase : d.base = some base) :
    ∃ clean, Treats ⟨.never, base.id, others d base.id, actor⟩ clean
      { s with faults := .none } (passUnder d type actor .none s).2.store := by
  rcases passUnder_effect d type actor .none hs with ⟨_, hwhy⟩ | ⟨base', hbase', htreats⟩
  · rcases hwhy with hbites | hnone | hlisting
    · exact absurd hbites Refusals.not_bites_never
    · rw [hbase] at hnone
      cases hnone
    · cases hlisting
  · obtain rfl : base' = base := Option.some_inj.mp (hbase'.symm.trans hbase)
    exact htreats

theorem outline_passUnder_none (hs : s.Sound) (item : ItemId) (l : LanguageId) :
    ((passUnder d type actor .none s).2.store.recordIn? item l).map Record.outline =
      normal d actor s item l := by
  cases hbase : d.base with
  | none =>
      rw [normal, hbase]
      rcases passUnder_effect d type actor .none hs with ⟨hsame, _⟩ | ⟨_, hsome, _⟩
      · rw [hsame]
        rfl
      · rw [hbase] at hsome
        cases hsome
  | some base =>
      obtain ⟨_, htreats⟩ := passUnder_none_treats type actor hs hbase
      rw [normal_eq_of_base hbase .never]
      cases htext : s.baseText? base.id item with
      | none => exact congrArg (Option.map Record.outline) (htreats.unbased item htext l)
      | some text =>
          have htreated := htreats.based item text htext l
          rw [← mended_of_not_due (htreated.not_due Refusals.not_bites_never)]
          exact htreated.mended_eq

theorem storeAfter_sound (d : Directory) (type : String) (actor : Actor)
    (troubles : List Trouble) (hs : s.Sound) :
    (storeAfter d type actor troubles s).Sound := by
  induction troubles generalizing s with
  | nil => exact hs
  | cons trouble _ ih => exact ih (passUnder_sound trouble hs)

theorem normal_storeAfter (troubles : List Trouble) (hs : s.Sound) (item : ItemId)
    (l : LanguageId) :
    normal d actor (storeAfter d type actor troubles s) item l = normal d actor s item l := by
  induction troubles generalizing s with
  | nil => rfl
  | cons trouble _ ih =>
      exact (ih (passUnder_sound trouble hs)).trans (normal_passUnder trouble hs item l)

theorem Sweep.quiet (h : Sweep c text rs σ tally σ') (hrs : ∀ r ∈ rs, r.text = text) :
    σ' = σ ∧ tally.synced = 0 := by
  induction h with
  | nil => exact ⟨rfl, rfl⟩
  | equal _ _ ih =>
      obtain ⟨hsame, hsynced⟩ := ih fun r hr => hrs r (List.mem_cons_of_mem _ hr)
      exact ⟨hsame, by simp [hsynced]⟩
  | written htext => exact absurd (hrs _ List.mem_cons_self) htext
  | failed _ htext => exact absurd (hrs _ List.mem_cons_self) htext

def Done (c : Course) (s : Store) (item : ItemId) : Prop :=
  ∀ rb, s.recordIn? item c.base = some rb → ∀ l, ¬ Due c rb.text l (s.recordIn? item l)

theorem Visit.quiet (h : Visit c item σ outcome σ') (hs : σ.store.Sound)
    (hcalm : ¬ c.refuse.Bites) (hdone : Done c σ.store item) :
    σ' = read σ item ∧ (tallyOf outcome).synced = 0 ∧ createdBy outcome = 0 := by
  cases h with
  | unread e hwhy => exact absurd hwhy hcalm
  | baseless => exact ⟨rfl, rfl, rfl⟩
  | @tended _ _ rb _ _ hbase hsweep hfill =>
      have hsame : ∀ r ∈ Copies.among (σ.store.recordsOf item) c.base, r.text = rb.text := by
        intro r hr
        have hitem := item_of_mem_among hr
        have hplace := hs.recordIn?_eq ((distinct_among hs).mem r hr) hitem rfl
        have hdue := hdone rb hbase r.language
        rw [hplace] at hdue
        exact of_not_not fun htext => hdue ⟨(Copies.mem_among.mp hr).2, htext⟩
      obtain ⟨rfl, hsynced⟩ := hsweep.quiet hsame
      have hgaps : Copies.missing ((σ.store.recordsOf item).map (·.language)) c.active = [] := by
        apply List.eq_nil_iff_forall_not_mem.mpr
        intro l hl
        obtain ⟨hactive, hfree⟩ := mem_gaps_iff.mp hl
        have hdue := hdone rb hbase l
        rw [hfree] at hdue
        exact hdue hactive
      rw [hgaps] at hfill
      cases hfill with
      | nothing => exact ⟨rfl, hsynced, rfl⟩
      | filled _ hne => exact absurd rfl hne
      | failed _ _ hne => exact absurd rfl hne

/-- A round that finds nothing to do. -/
structure Idle (before after : Pass) (σ σ' : Session) : Prop where
  looked : Session.Looked σ σ'
  synced : after.report.synced = before.report.synced
  created : after.report.created = before.report.created

theorem Round.idle (h : Round c items pass σ pass' σ') (hs : σ.store.Sound)
    (hcalm : ¬ c.refuse.Bites) (hdone : ∀ item ∈ items, Done c σ.store item) :
    Idle pass pass' σ σ' := by
  induction h with
  | nil _ σ => exact ⟨.refl σ, rfl, rfl⟩
  | @cons item rest pass _ σ _ _ outcome hvisit _ ih =>
      obtain ⟨rfl, hsynced, hcreated⟩ := hvisit.quiet hs hcalm (hdone item List.mem_cons_self)
      obtain ⟨hlooked, hsynced', hcreated'⟩ :=
        ih hs fun other hother => hdone other (List.mem_cons_of_mem item hother)
      rw [enter_eq] at hsynced' hcreated'
      have hread : Session.Looked σ (read σ item) := (Session.Looked.refl σ).note rfl _
      refine ⟨hread.trans hlooked, ?_, ?_⟩
      · exact hsynced'.trans (congrArg (pass.report.synced + ·) hsynced)
      · exact hcreated'.trans (congrArg (pass.report.created + ·) hcreated)

theorem done_passUnder_none (hs : s.Sound) {base : Language} (hbase : d.base = some base) :
    let t := (passUnder d type actor .none s).2.store
    ∀ i ∈ t.liveItems, Done ⟨.never, base.id, others d base.id, actor⟩ t i := by
  intro t i hi rb hrb l
  obtain ⟨_, htreats⟩ := passUnder_none_treats type actor hs hbase
  have hafter : t.baseText? base.id i = some rb.text :=
    Store.baseText?_eq_some_iff.mpr ⟨Store.mem_liveItems.mp hi, rb, hrb, rfl⟩
  have htreated := htreats.based i rb.text ((htreats.baseText?_eq i).symm.trans hafter) l
  exact htreated.not_due Refusals.not_bites_never

theorem faults_passUnder (d : Directory) (type : String) (actor : Actor) (trouble : Trouble)
    (hs : s.Sound) :
    (passUnder d type actor trouble s).2.store.faults = trouble.faults := by
  rcases passUnder_effect d type actor trouble hs with ⟨hsame, _⟩ | ⟨_, _, _, htreats⟩
  · exact congrArg Store.faults hsame
  · exact htreats.frame.faults

theorem Scan.idle (h : Scan d .never type actor (.start s) pass σ') (hs : s.Sound)
    (hdone : ∀ base, d.base = some base → ∀ item ∈ s.liveItems,
      Done ⟨.never, base.id, others d base.id, actor⟩ s item) :
    Idle (started type) pass (.start s) σ' := by
  cases h with
  | aborted e hlooked => exact ⟨hlooked, rfl, rfl⟩
  | scanned hbase _ hround =>
      obtain ⟨hlooked, hsynced, hcreated⟩ :=
        hround.idle (σ := surveyed d (.start s)) hs Refusals.not_bites_never (hdone _ hbase)
      exact ⟨(surveyed_looked d (.start s)).trans hlooked, hsynced, hcreated⟩

end

/-- A store is as one good pass leaves `s`, and the pass over it that comes next finds it so. -/
structure Healed (d : Directory) (type : String) (actor : Actor) (s healed : Store)
    (again : Pass × Session) : Prop where
  outlines : Record.outline '' {r | r ∈ healed.records} =
    Record.outline '' {r | r ∈ (passUnder d type actor .none s).2.store.records}
  looks : ∀ x ∈ again.2.calls, x.question.writes = false
  synced : again.1.report.synced = 0
  created : again.1.report.created = 0
  store : again.2.store = healed

/-- However the earlier passes failed, a good pass ends where it would have ended without them, and
the next one makes no call that writes. -/
theorem pass_heals (d : Directory) (type : String) (actor : Actor) {s : Store} (hs : s.Sound)
    (troubles : List Trouble) :
    let healed := (passUnder d type actor .none (storeAfter d type actor troubles s)).2.store
    Healed d type actor s healed (passUnder d type actor .none healed) := by
  intro healed
  have htroubled := storeAfter_sound d type actor troubles hs
  have hhealed : healed.Sound := passUnder_sound .none htroubled
  have hfaults : { healed with faults := Trouble.none.faults } = healed := by
    rw [← faults_passUnder d type actor .none htroubled]
  have hstart : (Session.start healed).store.Sound := hhealed
  have hscan := scan_run d .never type actor hstart
  obtain ⟨hlooked, hsynced, hcreated⟩ :=
    hscan.idle hhealed fun _ hbase => done_passUnder_none htroubled hbase
  have hagain : passUnder d type actor .none healed =
      (run type actor).run (Session.answer d .never) (.start healed) := by
    rw [passUnder, hfaults]
    rfl
  rw [hagain]
  refine ⟨?_, ?_, hsynced, hcreated, hlooked.store⟩
  · apply hhealed.image_eq (passUnder_sound .none hs)
    intro item l
    rw [outline_passUnder_none htroubled, outline_passUnder_none hs, normal_storeAfter troubles hs]
  · intro x hx
    exact (hlooked.calls x hx).resolve_left List.not_mem_nil

end Reconciliation

namespace Trilingual

def troubles : List Reconciliation.Trouble :=
  [⟨{ Faults.none with listing := true }, .never⟩, ⟨.none, readOnly⟩]

def healed : Store :=
  (Reconciliation.passUnder directory "page" "sync" .none
    (Reconciliation.storeAfter directory "page" "sync" troubles outdated)).2.store

end Trilingual

namespace Reconciliation

open Trilingual in
theorem troubled_page_heals :
    outdated.Sound ∧
      (storeAfter directory "page" "sync" troubles outdated).records.map (·.text) =
        [title "Welcome", title "Hello", title "Welcome"] ∧
      healed.records.map (·.text) = List.replicate 3 (title "Welcome") ∧
      Healed directory "page" "sync" outdated healed
        (passUnder directory "page" "sync" .none healed) := by
  have hbefore : (storeAfter directory "page" "sync" troubles outdated).records.map (·.text) =
      [title "Welcome", title "Hello", title "Welcome"] := by
    cbv
  have hafter : healed.records.map (·.text) = List.replicate 3 (title "Welcome") := by cbv
  exact ⟨reachable_outdated.sound, hbefore, hafter,
    pass_heals directory "page" "sync" reachable_outdated.sound troubles⟩

end Reconciliation

end Polyglot

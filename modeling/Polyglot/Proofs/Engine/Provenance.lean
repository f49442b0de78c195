import Polyglot.Proofs.Creation.Endings
import Polyglot.Proofs.Engine.Agreement
import Polyglot.Proofs.Engine.Editing
import Polyglot.Proofs.Engine.Passes
import Polyglot.Proofs.Engine.Quiescence

namespace Polyglot

namespace Store

open Reconciliation

variable {b : LanguageId} {s t u : Store}

theorem Reachable.run {α : Type} {d : Directory} (h : s.Reachable) (f : Flow α) :
    (f.run (answer d) s).2.Reachable := by
  induction f generalizing s with
  | done a => exact h
  | ask q next ih => exact ih _ (h.answered d q)

/-- What is in `t` and was not in `s` has the base text of its item, and the base texts stay. -/
structure Derived (b : LanguageId) (s t : Store) : Prop where
  frame : Frame s t
  base : ∀ item, t.recordIn? item b = s.recordIn? item b
  texts : ∀ r ∈ t.records, r ∈ s.records ∨ ∃ rb, s.recordIn? r.item b = some rb ∧ r.text = rb.text

theorem Derived.refl (b : LanguageId) (hs : s.Sound) : s.Derived b s :=
  ⟨.refl hs, fun _ => rfl, fun _ hr => Or.inl hr⟩

theorem Derived.trans (h : s.Derived b t) (h' : t.Derived b u) : s.Derived b u where
  frame := h.frame.trans h'.frame
  base item := (h'.base item).trans (h.base item)
  texts r hr := by
    rcases h'.texts r hr with hr | ⟨rb, hrb, htext⟩
    · exact h.texts r hr
    · exact Or.inr ⟨rb, h.base r.item ▸ hrb, htext⟩

theorem derived_of_treats {c : Course} {clean : Prop} (h : Treats c clean s t) :
    s.Derived c.base t where
  frame := h.frame
  base item := by
    cases hbase : s.baseText? c.base item with
    | none => exact h.unbased item hbase c.base
    | some text =>
        obtain ⟨-, rb, hrb, rfl⟩ := baseText?_eq_some_iff.mp hbase
        have hplace := h.based item rb.text hbase c.base
        have hlanguage := (mem_of_recordIn? hrb).2.2
        rw [hrb] at hplace ⊢
        generalize t.recordIn? item c.base = after at hplace
        -- A pass overwrites copies only, and the base record is none.
        cases hplace with
        | overwritten _ _ hdue => exact absurd hlanguage hdue.1.2
        | kept => rfl
        | hindered => rfl
  texts r hr := by
    have hplace := h.frame.sound.recordIn?_of_mem hr
    cases hbase : s.baseText? c.base r.item with
    | none =>
        rw [h.unbased r.item hbase] at hplace
        exact Or.inl (mem_of_recordIn? hplace).1
    | some text =>
        obtain ⟨-, rb, hrb, rfl⟩ := baseText?_eq_some_iff.mp hbase
        have htreated := h.based r.item rb.text hbase r.language
        rw [hplace] at htreated
        generalize hbefore : s.recordIn? r.item r.language = before at htreated
        generalize hafter : some r = after at htreated
        cases htreated with
        | overwritten r₀ now | added id now =>
            have heq := Option.some.inj hafter
            exact Or.inr ⟨rb, hrb, (congrArg Record.text heq :)⟩
        | kept | hindered => exact Or.inl (mem_of_recordIn? (hbefore.trans hafter.symm)).1

end Store

namespace Reconciliation

theorem run_derived {d : Directory} {s : Store} {l : Language} (hbase : d.base = some l)
    (hs : s.Sound) (type : String) (actor : Actor) :
    s.Derived l.id ((run type actor).run (Store.answer d) s).2 := by
  refine Session.of_never (P := fun (_ : Pass) t => s.Derived l.id t) _ s fun pass σ' hrun => ?_
  have hscan := scan_run d .never type actor (σ := .start s) hs
  rw [hrun] at hscan
  rcases hscan.effect hs with ⟨-, hsame, -⟩ | ⟨base, hbase', -, -, htreats⟩
  · rw [hsame]
    exact .refl l.id hs
  · obtain rfl : l = base := Option.some_inj.mp (hbase.symm.trans hbase')
    exact Store.derived_of_treats htreats

end Reconciliation

namespace Backfill

open Reconciliation

variable {c : Course} {language : LanguageId} {item : ItemId} {items : List ItemId}
  {entry entry' : Entry} {result : Except Error Nat} {σ σ' : Session}

theorem Supply.derived (h : Supply c language item σ result σ') (hs : σ.store.Sound)
    (hitem : σ.store.items.contains item = true) : σ.store.Derived c.base σ'.store where
  frame := h.frame hs hitem
  base := h.baseRecord
  texts r hr := by
    cases h with
    | unread | present | baseless => exact Or.inl hr
    | @supplied _ rb _ _ hrb hfill =>
        cases hfill with
        | failed => exact Or.inl hr
        | filled =>
            rcases List.mem_append.mp hr with hr | hr
            · exact Or.inl hr
            · obtain ⟨draft, hdraft, n, -, rfl⟩ := Store.mem_enrol hr
              obtain ⟨l, -, rfl⟩ := List.mem_map.mp hdraft
              exact Or.inr ⟨rb, hrb, rfl⟩

theorem Supplies.derived (h : Supplies c language items entry σ entry' σ') (hs : σ.store.Sound)
    (hitems : ∀ item ∈ items, σ.store.items.contains item = true) :
    σ.store.Derived c.base σ'.store := by
  induction h with
  | nil => exact .refl _ hs
  | cons hsupply _ ih =>
      have hfirst := hsupply.derived hs (hitems _ List.mem_cons_self)
      refine hfirst.trans (ih hfirst.frame.sound fun item hitem => ?_)
      rw [hfirst.frame.items]
      exact hitems item (List.mem_cons_of_mem _ hitem)

theorem fill_derived (d : Directory) {s : Store} (hs : s.Sound) (language base : LanguageId)
    (actor : Actor) :
    s.Derived base ((fill language base actor).run (Store.answer d) s).2 := by
  refine Session.of_never (P := fun (_ : Entry) t => s.Derived base t) _ s fun entry σ' hrun => ?_
  have hfilling := filling_run (σ := .start s) d ⟨.never, base, [], actor⟩ language hs
  dsimp only at hfilling
  rw [hrun] at hfilling
  cases hfilling with
  | unlisted => exact .refl base hs
  | filled _ hsupplies => exact hsupplies.derived hs fun item => contains_of_mem_liveItems

end Backfill

namespace Edit

theorem derived_of_rewrites {s t : Store} {b : LanguageId} (hs : s.Sound) (ht : t.Sound)
    {r rb : Record} {actor : Actor} (hother : r.language ≠ b)
    (hrb : s.recordIn? r.item b = some rb) (h : s.Rewrites r rb.text true actor t) :
    s.Derived b t where
  frame := ⟨ht, (congrArg Store.name h.rest :), (congrArg Store.items h.rest :),
    (congrArg Store.faults h.rest :)⟩
  base item := by
    refine Option.ext fun r' => ?_
    rw [ht.recordIn?_eq_some_iff, hs.recordIn?_eq_some_iff, h.records]
    constructor
    · rintro ⟨⟨hr', -⟩ | rfl, hitem, hlanguage⟩
      · exact ⟨hr', hitem, hlanguage⟩
      · exact absurd hlanguage hother
    · rintro ⟨hr', hitem, hlanguage⟩
      refine ⟨Or.inl ⟨hr', ?_⟩, hitem, hlanguage⟩
      rintro rfl
      exact hother hlanguage
  texts r' hr' := by
    rcases (h.records r').mp hr' with ⟨hr', -⟩ | rfl
    · exact Or.inl hr'
    · exact Or.inr ⟨rb, hrb, rfl⟩

theorem unpin_derived {d : Directory} {s : Store} {l : Language} (hbase : d.base = some l)
    (hs : s.Sound) (item : ItemId) (language : LanguageId) (actor : Actor) :
    s.Derived l.id ((unpin item language actor).run.run (Store.answer d) s).2 := by
  have hderived := Session.of_never (d := d)
    (P := fun (_ : Except Error RecordId) t => t.Sound → s.Derived l.id t)
    (unpin item language actor).run s fun result σ' hrun ht => ?_
  · exact hderived (hs.run _)
  have hunpin := unpin_run (d := d) (σ := .start s) .never hs item language actor
  rw [hrun] at hunpin
  rcases hunpin with ⟨-, hsame, -⟩ | ⟨base, r, rb, hbase', hother, -, hr, hrb, -, hrewrites⟩
  · rw [hsame]
    exact .refl l.id hs
  · obtain rfl : l = base := Option.some_inj.mp (hbase.symm.trans hbase')
    obtain ⟨-, rfl, rfl⟩ := Store.mem_of_recordIn? hr
    exact derived_of_rewrites hs ht (Ne.symm hother) hrb hrewrites

end Edit

namespace Store

/-- Whatever copy is in `t` and was not in `s` has the base text of its item. -/
def FromBase (b : LanguageId) (s t : Store) : Prop :=
  ∀ r ∈ t.records, r ∉ s.records → r.IsCopy b →
    ∀ rb, t.recordIn? r.item b = some rb → r.text = rb.text

theorem FromBase.refl (b : LanguageId) (s : Store) : s.FromBase b s :=
  fun _ hr hnew => absurd hr hnew

theorem Derived.fromBase {b : LanguageId} {s t : Store} (h : s.Derived b t) : s.FromBase b t := by
  intro r hr hnew _ rb hrb
  rcases h.texts r hr with hold | ⟨rb', hrb', htext⟩
  · exact absurd hold hnew
  · rw [h.base, hrb'] at hrb
    cases hrb
    exact htext

end Store

namespace Creation

variable {d : Directory} {b : LanguageId} {s : Store} {item : ItemId} {inputs : List Submission}
  {actor : Actor}

/-- The creation is for an item that has a base text, which is not the first text given, and a copy
is to be added. -/
structure Strays (d : Directory) (b : LanguageId) (s : Store) (item : ItemId)
    (inputs : List Submission) : Prop where
  valid : Valid d inputs
  known : s.items.contains item = true
  free : ∀ l ∈ inputs.map (·.language), l ∉ s.languagesOf item
  text : ∃ rb first, s.recordIn? item b = some rb ∧ inputs.head? = some first ∧
    rb.text ≠ first.text
  gap : ∃ l ∈ d.active.map (·.id), l ∉ inputs.map (·.language) ∧ l ∉ s.languagesOf item

section Done

variable {base : Language} {copies : List LanguageId} {source : Submission} {t : Store}
  (hbase : d.base = some base) (hvalid : Valid d inputs)
  (hfree : ∀ l ∈ inputs.map (·.language), l ∉ s.languagesOf item)
  (hcopies : ∀ l, l ∈ copies ↔ l ∈ targets d inputs ∧ l ∉ s.languagesOf item)
  (hsource : Source d inputs source)
  (hgains : s.Gains item (inputs.map (·.draft) ++ copies.map (Draft.copy · source.text)) actor t)

include hbase hsource

theorem head?_eq_source (hnone : base.id ∉ inputs.map (·.language)) :
    inputs.head? = some source := by
  refine hsource.first fun b hb => ?_
  rw [hbase] at hb
  cases hb
  exact hnone

include hvalid hfree hcopies hgains

/-- A copy has the text of the source. The base record that it is held against was there before, and
then the texts are the same or there was no copy to add; or it was given, and then it is the source;
or it is a copy as well. -/
theorem fromBase_of_not_strays (hs : s.Sound) (hitem : s.items.contains item = true)
    (hstrays : ¬ Strays d base.id s item inputs) : s.FromBase base.id t := by
  intro r hr hnew hcopy rb hrb
  obtain ⟨draft, hdraft, now, id, rfl⟩ := (hgains.cases_mem hr).resolve_left hnew
  rcases List.mem_append.mp hdraft with hdraft | hdraft
  · obtain ⟨input, -, rfl⟩ := List.mem_map.mp hdraft
    cases hcopy.1
  obtain ⟨l, hl, rfl⟩ := List.mem_map.mp hdraft
  change source.text = rb.text
  obtain ⟨hrb, hplace, hlanguage⟩ := Store.mem_of_recordIn? hrb
  change rb.item = item at hplace
  rcases hgains.cases_mem hrb with hold | ⟨draft, hdraft, now', id', rfl⟩
  · by_contra hne
    have hthere : base.id ∈ s.languagesOf item :=
      Store.mem_languagesOf.mpr ⟨rb, hold, hplace, hlanguage⟩
    have hhead := head?_eq_source hbase hsource fun hgiven => hfree base.id hgiven hthere
    obtain ⟨htarget, hlacks⟩ := (hcopies l).mp hl
    obtain ⟨hactive, hgiven⟩ := mem_targets.mp htarget
    exact hstrays ⟨hvalid, hitem, hfree,
      ⟨rb, source, hs.recordIn?_eq hold hplace hlanguage, hhead, Ne.symm hne⟩,
      ⟨l, hactive, hgiven, hlacks⟩⟩
  · rcases List.mem_append.mp hdraft with hdraft | hdraft
    · obtain ⟨input, hinput, rfl⟩ := List.mem_map.mp hdraft
      have hlanguage : input.language = base.id := hlanguage
      have hchosen := hsource.base base hbase (hlanguage ▸ List.mem_map_of_mem hinput)
      rw [List.inj_on_of_nodup_map hvalid.nodup hinput hsource.mem
        (hlanguage.trans hchosen.symm)]
      rfl
    · obtain ⟨l', -, rfl⟩ := List.mem_map.mp hdraft
      rfl

omit hvalid hfree in
theorem not_fromBase_of_strays (hs : s.Sound) (ht : t.Sound)
    (hstrays : Strays d base.id s item inputs) : ¬ s.FromBase base.id t := by
  intro hfrom
  obtain ⟨rb, first, hrb, hfirst, hne⟩ := hstrays.text
  obtain ⟨l, hactive, hgiven, hlacks⟩ := hstrays.gap
  obtain ⟨hold, hplace, hlanguage⟩ := Store.mem_of_recordIn? hrb
  have hthere : base.id ∈ s.languagesOf item :=
    Store.mem_languagesOf.mpr ⟨rb, hold, hplace, hlanguage⟩
  have hhead := head?_eq_source hbase hsource fun hgiven => hstrays.free base.id hgiven hthere
  obtain rfl : source = first := Option.some_inj.mp (hhead.symm.trans hfirst)
  have hl : l ∈ copies := (hcopies l).mpr ⟨mem_targets.mpr ⟨hactive, hgiven⟩, hlacks⟩
  obtain ⟨now, id, hle, hr⟩ := hgains.exists_record (List.mem_append_right _
    (List.mem_map_of_mem hl))
  -- The id of the copy is not in use before, so it is none of the old records.
  have hnew : (Draft.copy l source.text).record item actor now id ∉ s.records := by
    intro hmem
    exact absurd (hs.ids _ hmem).2 (Int.not_lt.mpr hle)
  have hcopy : ((Draft.copy l source.text).record item actor now id).IsCopy base.id := by
    refine ⟨rfl, fun heq => hlacks ?_⟩
    rwa [show l = base.id from heq]
  have htext := hfrom _ hr hnew hcopy rb (ht.recordIn?_eq (hgains.kept hold) hplace hlanguage)
  exact hne htext.symm

end Done

/-- A creation that fails before its first write adds nothing, and without faults there is only one
other way for it to end. -/
theorem create_fromBase_iff {base : Language} (hbase : d.base = some base) (hs : s.Sound)
    (hfaults : s.faults = .none) (item : ItemId) (inputs : List Submission) (actor : Actor) :
    s.FromBase base.id ((create item inputs actor).run.run (Store.answer d) s).2 ↔
      ¬ Strays d base.id s item inputs := by
  have hends := create_ends d s item inputs actor
  have hsound := hs.run (d := d) (create item inputs actor).run
  generalize (create item inputs actor).run.run (Store.answer d) s = out at hends hsound
  cases hends with
  | empty h => exact iff_of_true (.refl _ s) fun hstrays => hstrays.valid.given h
  | repeated l _ h =>
      refine iff_of_true (.refl _ s) fun hstrays => ?_
      cases hstrays.valid.once.symm.trans h
  | unknown id _ _ hid hnone =>
      refine iff_of_true (.refl _ s) fun hstrays => ?_
      simpa [hnone] using hstrays.valid.known id hid
  | noItem _ hno =>
      refine iff_of_true (.refl _ s) fun hstrays => ?_
      cases hstrays.known.symm.trans hno
  | taken l _ _ hl htaken => exact iff_of_true (.refl _ s) fun hstrays => hstrays.free l hl htaken
  | halfway _ _ _ _ _ _ _ _ hfault =>
      rw [hfaults] at hfault
      cases hfault
  | done copies source t hvalid hitem hfree _ hcopies _ hsource hgains =>
      constructor
      · intro hfrom hstrays
        exact not_fromBase_of_strays hbase hcopies hsource hgains hs hsound hstrays hfrom
      · exact fromBase_of_not_strays hbase hvalid hfree hcopies hsource hgains hs hitem

end Creation

namespace World

variable {w v u : World} {b : LanguageId} {type : String}

def Orderly (w : World) : Prop := ∀ type s, w.store? type = some s → s.Sound ∧ s.faults = .none

theorem orderly_of_stores (h : ∀ s ∈ w.stores, s.Sound ∧ s.faults = .none) : w.Orderly :=
  fun _ _ hs => h _ (List.mem_of_find?_eq_some hs)

structure Derived (b : LanguageId) (w v : World) : Prop where
  directory : v.directory = w.directory
  absent : ∀ type, w.store? type = none → v.store? type = none
  stores : ∀ type s, w.store? type = some s → ∃ t, v.store? type = some t ∧ s.Derived b t

def FromBase (b : LanguageId) (w v : World) : Prop :=
  ∀ type s t, w.store? type = some s → v.store? type = some t → s.FromBase b t

theorem Derived.refl (b : LanguageId) (hw : w.Orderly) : w.Derived b w :=
  ⟨rfl, fun _ h => h, fun type s hs => ⟨s, hs, .refl b (hw type s hs).1⟩⟩

theorem Derived.trans (h : w.Derived b v) (h' : v.Derived b u) : w.Derived b u where
  directory := h'.directory.trans h.directory
  absent type hnone := h'.absent type (h.absent type hnone)
  stores type s hs := by
    obtain ⟨t, ht, hderived⟩ := h.stores type s hs
    obtain ⟨t', ht', hderived'⟩ := h'.stores type t ht
    exact ⟨t', ht', hderived.trans hderived'⟩

theorem Derived.orderly (h : w.Derived b v) (hw : w.Orderly) : v.Orderly := by
  intro type t ht
  cases hs : w.store? type with
  | none => cases ht.symm.trans (h.absent type hs)
  | some s =>
      obtain ⟨t', ht', hderived⟩ := h.stores type s hs
      obtain rfl : t = t' := Option.some_inj.mp (ht.symm.trans ht')
      exact ⟨hderived.frame.sound, hderived.frame.faults.trans (hw type s hs).2⟩

theorem FromBase.refl (b : LanguageId) (w : World) : w.FromBase b w := by
  intro type s t hs ht
  obtain rfl : s = t := Option.some_inj.mp (hs.symm.trans ht)
  exact .refl b s

theorem Derived.fromBase (h : w.Derived b v) : w.FromBase b v := by
  intro type s t hs ht
  obtain ⟨t', ht', hderived⟩ := h.stores type s hs
  obtain rfl : t = t' := Option.some_inj.mp (ht.symm.trans ht')
  exact hderived.fromBase

theorem run_on_absent {α : Type} (f : Flow α) (h : w.store? type = none) :
    ((Flow.on type f).run World.answer w).2 = w := by
  induction f with
  | done a => rfl
  | ask q next ih =>
      have hsame : (answer (.content type q) w).2 = w := by simp only [answer, h]
      rw [Flow.on_ask, Program.run_ask, hsame]
      exact ih _

theorem derived_on {α : Type} (hw : w.Orderly) (type : String) (f : Flow α)
    (h : ∀ s : Store, s.Sound → s.Derived b (f.run (Store.answer w.directory) s).2) :
    w.Derived b ((Flow.on type f).run World.answer w).2 := by
  cases hs : w.store? type with
  | none =>
      rw [run_on_absent f hs]
      exact .refl b hw
  | some s =>
      obtain ⟨-, hdirectory, hstores⟩ := Flow.run_on f hs
      refine ⟨hdirectory, fun other hnone => ?_, fun other s' hs' => ?_⟩
      · rw [hstores, if_neg, hnone]
        rintro rfl
        cases hs.symm.trans hnone
      · rw [hstores]
        split_ifs with hother
        · subst hother
          obtain rfl : s = s' := Option.some_inj.mp (hs.symm.trans hs')
          exact ⟨_, rfl, h s (hw _ s hs).1⟩
        · exact ⟨s', hs', .refl b (hw other s' hs').1⟩

theorem fromBase_on_iff {α : Type} {s : Store} (hs : w.store? type = some s) (f : Flow α) :
    w.FromBase b ((Flow.on type f).run World.answer w).2 ↔
      s.FromBase b (f.run (Store.answer w.directory) s).2 := by
  obtain ⟨-, -, hstores⟩ := Flow.run_on f hs
  constructor
  · intro h
    exact h type s _ hs ((hstores type).trans (if_pos rfl))
  · intro h other s' t hs' ht
    rw [hstores] at ht
    split_ifs at ht with hother
    · subst hother
      obtain rfl : s = s' := Option.some_inj.mp (hs.symm.trans hs')
      cases ht
      exact h
    · cases hs'.symm.trans ht
      exact .refl b s'

end World

namespace Backfill

theorem base_of_resolve {w : World} {code : String} {language base : LanguageId}
    (h : ((resolve code).run World.answer w).1 = .ok (language, base)) :
    ∃ l, w.directory.base = some l ∧ base = l.id := by
  have hcode : World.answer (.directory (.byCode code)) w = (.ok (w.directory.byCode code), w) :=
    rfl
  have hbase : World.answer (.directory .base) w = (.ok w.directory.base, w) := rfl
  rw [resolve, Program.run_bind, Program.run_query, hcode] at h
  cases hfound : w.directory.byCode code with
  | none => rw [hfound] at h; cases h
  | some found =>
      rw [hfound] at h
      dsimp only at h
      split at h
      · cases h
      · rw [Program.run_bind, Program.run_query, hbase] at h
        cases hsome : w.directory.base with
        | none => rw [hsome] at h; cases h
        | some l =>
            rw [hsome] at h
            cases h
            exact ⟨l, rfl, rfl⟩

end Backfill

namespace Engine

variable {w : World} {base : Language}

theorem derived_within {α : Type} {b : LanguageId} (e : Engine) (hw : w.Orderly) (type : String)
    (f : Attempt α)
    (h : ∀ s : Store, s.Sound → s.Derived b (f.run.run (Store.answer w.directory) s).2) :
    w.Derived b ((e.within type f).run World.answer w).2 := by
  rw [within]
  split
  · exact World.derived_on hw type f.run h
  · exact .refl b hw

theorem derived_runEach (hbase : w.directory.base = some base) (hw : w.Orderly) (actor : Actor)
    (types : List String) :
    w.Derived base.id ((Reconciliation.runEach actor types).run World.answer w).2 := by
  induction types generalizing w with
  | nil => exact .refl base.id hw
  | cons type rest ih =>
      rw [Reconciliation.runEach, Program.run_bind, Program.run_bind]
      have hfirst := World.derived_on hw type (Reconciliation.run type actor) fun s hs =>
        Reconciliation.run_derived hbase hs type actor
      exact hfirst.trans (ih (hfirst.directory ▸ hbase) (hfirst.orderly hw))

theorem derived_fillTypes {b : LanguageId} (hw : w.Orderly) (language : LanguageId) (actor : Actor)
    (types : List String) (entries : SortedMap String Backfill.Entry) :
    w.Derived b ((Backfill.fillTypes language b actor types entries).run World.answer w).2 := by
  induction types generalizing w entries with
  | nil => exact .refl b hw
  | cons type rest ih =>
      simp only [Backfill.fillTypes, Program.run_bind]
      have hfirst := World.derived_on hw type (Backfill.fill language b actor) fun s hs =>
        Backfill.fill_derived w.directory hs language b actor
      exact hfirst.trans (ih (hfirst.orderly hw) _)

theorem derived_reconcileAll (e : Engine) (hbase : w.directory.base = some base)
    (hw : w.Orderly) : w.Derived base.id (e.reconcileAll.run World.answer w).2 := by
  rw [reconcileAll, reconcileEach_eq, Program.run_bind]
  exact derived_runEach hbase hw e.actor e.registry.names

/-- What is missing is supplied first, and then each type is reconciled. -/
theorem derived_backfill (e : Engine) (hbase : w.directory.base = some base) (hw : w.Orderly)
    (code : String) : w.Derived base.id ((e.backfill code).run World.answer w).2 := by
  have hlookup : ∀ l, World.answer (.directory l) w = (.ok (w.directory.answer l), w) :=
    fun _ => rfl
  rw [run_backfill, Backfill.course, Program.run_bind, Backfill.resolve_looks hlookup]
  cases hresolve : ((Backfill.resolve code).run World.answer w).1 with
  | error refusal => exact .refl base.id hw
  | ok languages =>
      obtain ⟨language, b⟩ := languages
      obtain ⟨l, hl, rfl⟩ := Backfill.base_of_resolve hresolve
      obtain rfl : l = base := Option.some_inj.mp (hl.symm.trans hbase)
      simp only [Program.run_bind, Program.pure_eq_done, Program.run_done]
      have hfilled := derived_fillTypes (b := l.id) hw language e.actor e.registry.names .empty
      exact hfilled.trans
        (derived_runEach (hfilled.directory ▸ hbase) (hfilled.orderly hw) e.actor e.registry.names)

end Engine

namespace Operation

/-- The operations that make copies of base texts at the caller's request. -/
def MakesCopies : Operation → Prop
  | .create .. | .unpin .. | .reconcile _ | .reconcileAll | .backfill _ => True
  | _ => False

def Strays (b : LanguageId) (system : System) : Operation → Prop
  | .create type item inputs _ => system.engine.registry.has type = true ∧
      ∃ s, system.world.store? type = some s ∧
        Creation.Strays system.world.directory b s item inputs
  | _ => False

variable {system : System} {base : Language}

theorem create_comes_from_base_iff (hbase : system.world.directory.base = some base)
    (hw : system.world.Orderly) (type : String) (item : ItemId) (inputs : List Submission)
    (actor : Actor) :
    system.world.FromBase base.id ((create type item inputs actor).perform system).world ↔
      ¬ (create type item inputs actor).Strays base.id system := by
  obtain ⟨e, w⟩ := system
  change w.FromBase base.id ((e.within type (Creation.create item inputs actor)).run
    World.answer w).2 ↔ ¬ (_ ∧ _)
  rw [Engine.within]
  split_ifs with hhas
  · cases hs : w.store? type with
    | none =>
        rw [World.run_on_absent _ hs]
        refine iff_of_true (World.FromBase.refl base.id w) ?_
        rintro ⟨-, s, hs', -⟩
        cases hs'
    | some s =>
        obtain ⟨hsound, hfaults⟩ := hw type s hs
        rw [World.fromBase_on_iff hs,
          Creation.create_fromBase_iff hbase hsound hfaults item inputs actor, not_iff_not]
        constructor
        · intro hstrays
          exact ⟨hhas, s, rfl, hstrays⟩
        · rintro ⟨-, s', hs', hstrays⟩
          obtain rfl : s = s' := Option.some_inj.mp hs'
          exact hstrays
  · refine iff_of_true (World.FromBase.refl base.id w) ?_
    rintro ⟨hhas', -⟩
    exact hhas hhas'

/-- In a system without faults, every copy that a creation, an unpinning, a reconciliation or a
backfill adds or overwrites has the base text that its item then has, unless the operation is a
creation for an item that has another base text than the first text given, and adds a copy. -/
theorem copies_come_from_base_iff (hbase : system.world.directory.base = some base)
    (hw : system.world.Orderly) {op : Operation} (hop : op.MakesCopies) :
    system.world.FromBase base.id (op.perform system).world ↔ ¬ op.Strays base.id system := by
  cases op with
  | create type item inputs actor => exact create_comes_from_base_iff hbase hw type item inputs actor
  | unpin type item language actor =>
      refine iff_of_true (World.Derived.fromBase ?_) not_false
      exact system.engine.derived_within hw type _ fun s hs =>
        Edit.unpin_derived hbase hs item language actor
  | reconcile type =>
      obtain ⟨e, w⟩ := system
      have hderived := e.derived_within hw type (Reconciliation.run type e.actor) fun s hs => by
        rw [Flow.run_liftM, Program.run_bind]
        exact Reconciliation.run_derived hbase hs type e.actor
      refine iff_of_true ?_ not_false
      simp only [perform, Engine.reconcile, Program.run_bind]
      generalize (e.within type (Reconciliation.run type e.actor)).run World.answer w = out
        at hderived
      obtain ⟨error | pass, v⟩ := out
      · exact hderived.fromBase
      · exact hderived.fromBase
  | reconcileAll =>
      refine iff_of_true (World.Derived.fromBase ?_) not_false
      exact system.engine.derived_reconcileAll hbase hw
  | backfill code =>
      refine iff_of_true (World.Derived.fromBase ?_) not_false
      exact system.engine.derived_backfill hbase hw code
  | addItem | edit | work => exact hop.elim

end Operation

namespace Trilingual

/-- A page that got its English text when there was no other language. -/
def begunInEnglish : Store :=
  ((Creation.create 7 [⟨1, title "Hello"⟩] "ann").run.run
    (Store.answer ⟨[⟨1, "en", "English", true, false⟩], "en"⟩) bare).2

def bulletin : System := ⟨press, ⟨directory, [outdated, story]⟩⟩

def grown : System := ⟨press, ⟨directory, [begunInEnglish, story]⟩⟩

theorem reachable_begunInEnglish : begunInEnglish.Reachable := reachable_bare.run _

theorem orderly_bulletin : bulletin.world.Orderly := by
  refine World.orderly_of_stores ?_
  simp only [bulletin, List.forall_mem_cons, List.not_mem_nil, IsEmpty.forall_iff, implies_true,
    and_true]
  exact ⟨⟨reachable_outdated.sound, by decide⟩, reachable_story.sound, by decide⟩

theorem orderly_grown : grown.world.Orderly := by
  refine World.orderly_of_stores ?_
  simp only [grown, List.forall_mem_cons, List.not_mem_nil, IsEmpty.forall_iff, implies_true,
    and_true]
  exact ⟨⟨reachable_begunInEnglish.sound, by cbv⟩, reachable_story.sound, by decide⟩

end Trilingual

namespace Operation

open Trilingual in
/-- A backfill makes the German copies of the English texts. A creation that is given a French text
strays, since the page has an English text and no German one. -/
theorem german_copies_come_from_english :
    (((backfill "de").perform bulletin).world.recordsOf "page" 7).map (·.text) =
        List.replicate 3 (title "Welcome") ∧
      bulletin.world.FromBase 1 ((backfill "de").perform bulletin).world ∧
      ¬ grown.world.FromBase 1 ((create "page" 7 inFrench "bob").perform grown).world := by
  have hbulletin : bulletin.world.directory.base = some ⟨1, "en", "English", true, false⟩ := by
    decide
  have hgrown : grown.world.directory.base = some ⟨1, "en", "English", true, false⟩ := by decide
  have hfilled : (backfill "de").MakesCopies := trivial
  have hcreated : (create "page" 7 inFrench "bob").MakesCopies := trivial
  have hstore : grown.world.store? "page" = some begunInEnglish := by cbv
  have henglish : begunInEnglish.recordIn? 7 1 =
      some ⟨1, 7, 1, title "Hello", false, "ann", "ann", 0, 0⟩ := by
    cbv
  have hlanguages : begunInEnglish.languagesOf 7 = [1] := by cbv
  have hstrays : Creation.Strays directory 1 begunInEnglish 7 inFrench :=
    { valid := ⟨by decide, by decide, by decide⟩
      known := by cbv
      free := by rw [hlanguages]; decide
      text := ⟨_, _, henglish, rfl, by decide⟩
      gap := ⟨3, by decide, by decide, by rw [hlanguages]; decide⟩ }
  have hwelcome : (((backfill "de").perform bulletin).world.recordsOf "page" 7).map (·.text) =
      List.replicate 3 (title "Welcome") := by
    cbv
  refine ⟨hwelcome, ?_, ?_⟩
  · exact (copies_come_from_base_iff hbulletin orderly_bulletin hfilled).mpr not_false
  · rw [copies_come_from_base_iff hgrown orderly_grown hcreated, not_not]
    exact ⟨rfl, begunInEnglish, hstore, hstrays⟩

open Trilingual in
/-- Nothing fails, and the German copy is made of the French text that is given although the page
has an English one. -/
theorem german_copy_comes_from_french :
    let op := create "page" 7 inFrench "bob"
    begunInEnglish.Reachable ∧ begunInEnglish.faults = .none ∧
      grown.world.store? "page" = some begunInEnglish ∧
      grown.world.directory.base = some ⟨1, "en", "English", true, false⟩ ∧
      ((press.create "page" 7 inFrench "bob").run World.answer grown.world).1 = .ok ⟨1, 1, 2⟩ ∧
      (grown.world.recordsOf "page" 7).map Record.content = [(1, title "Hello", false)] ∧
      ((op.perform grown).world.recordsOf "page" 7).map Record.content =
        [(1, title "Hello", false), (2, title "Bonjour", false), (3, title "Bonjour", true)] ∧
      ¬ grown.world.FromBase 1 (op.perform grown).world := by
  intro op
  have hstore : grown.world.store? "page" = some begunInEnglish := by cbv
  have hbefore : begunInEnglish.records =
      [⟨1, 7, 1, title "Hello", false, "ann", "ann", 0, 0⟩] := by
    cbv
  have hafter : ((op.perform grown).world.store? "page").map (·.records) =
      some [⟨1, 7, 1, title "Hello", false, "ann", "ann", 0, 0⟩,
        ⟨2, 7, 2, title "Bonjour", false, "bob", "bob", 1, 1⟩,
        ⟨3, 7, 3, title "Bonjour", true, "bob", "bob", 2, 2⟩] := by
    cbv
  refine ⟨reachable_begunInEnglish, by cbv, hstore, by decide, by cbv, by cbv, by cbv, fun h => ?_⟩
  obtain ⟨t, ht, hrecords⟩ := Option.map_eq_some_iff.mp hafter
  have henglish : t.recordIn? 7 1 = some ⟨1, 7, 1, title "Hello", false, "ann", "ann", 0, 0⟩ := by
    rw [Store.recordIn?, hrecords]
    rfl
  have htext := h "page" begunInEnglish t hstore ht
    ⟨3, 7, 3, title "Bonjour", true, "bob", "bob", 2, 2⟩ (by simp [hrecords]) (by simp [hbefore])
    ⟨rfl, by decide⟩ _ henglish
  exact absurd htext (by decide)

end Operation

end Polyglot

import Polyglot.Proofs.Backfill.Agreement
import Polyglot.Proofs.Engine.Isolation

namespace Polyglot

namespace World

theorem directory_run {α : Type} (p : Service α) (w : World) :
    (p.run answer w).2.directory = w.directory := by
  induction p generalizing w with
  | done a => rfl
  | ask c next ih => rw [Program.run_ask, ih, directory_answer]

/-- What one content type has to do with. -/
def own (type : String) (w : World) : Directory × Option Store := (w.directory, w.store? type)

def serve (type : String) :
    (c : Call) → Directory × Option Store → c.Reply × (Directory × Option Store)
  | .directory l, v => (.ok (v.1.answer l), v)
  | .content _ _, (d, none) => (.error (.notFound .contentType type), d, none)
  | .content _ q, (d, some s) => ((s.answer d q).1, d, some (s.answer d q).2)

theorem window (type : String) :
    Program.Window answer (Call.Reaches type) (own type) (serve type) where
  own c w hc := by
    rcases c with l | ⟨other, q⟩
    · rfl
    · cases show other = type from hc
      have hstore := store?_answer (w := w) (.content type q) type
      cases hs : w.store? type with
      | none => simp [answer, own, serve, hs]
      | some s =>
          rw [hs] at hstore
          simp [own, serve, hs, hstore, reply_answer hs, Call.at]
  other c w hc := by
    rcases c with l | ⟨other, q⟩
    · exact absurd trivial hc
    · have hne : other ≠ type := hc
      simp only [own, directory_answer, store?_answer]
      cases w.store? type <;> simp [Call.at, hne]

theorem run_serve {α : Type} (type : String) (f : Flow α) (d : Directory) (s : Store) :
    (Flow.on type f).run (serve type) (d, some s) =
      ((f.run (Store.answer d) s).1, d, some (f.run (Store.answer d) s).2) := by
  induction f generalizing s with
  | done a => rfl
  | ask q next ih => exact ih _ _

end World

namespace Backfill

section Resolve

variable {σ : Type} {answer : (c : Call) → σ → c.Reply × σ} {d : Directory} {code : String} {s : σ}
  (hlookup : ∀ l, answer (.directory l) s = (.ok (d.answer l), s))

include hlookup

theorem resolve_ok {language base : Language} (hcode : d.byCode code = some language)
    (havailable : language.available = true) (hbase : d.base = some base) :
    (resolve code).run answer s = (.ok (language.id, base.id), s) := by
  simp [resolve, hlookup, Directory.answer, hcode, havailable, hbase]

theorem resolve_looks (code : String) : ((resolve code).run answer s).2 = s := by
  rw [resolve, Program.run_bind, Program.run_query, hlookup, Directory.answer]
  cases d.byCode code with
  | none => rfl
  | some language =>
      dsimp only
      split
      · rfl
      · rw [Program.run_bind, Program.run_query, hlookup, Directory.answer]
        cases d.base <;> rfl

theorem eq_of_aborted {types : List String} {actor : Actor}
    (h : ((run types actor code).run answer s).1.1.aborted ≠ none) :
    ((run types actor code).run answer s).2 = s :=
  (run_eq_of_aborted h).2.trans (resolve_looks hlookup code)

theorem run_none (actor : Actor) (code : String) :
    ((run [] actor code).run answer s).1.1.entries = .empty ∧
      ((run [] actor code).run answer s).2 = s := by
  have hlooks := resolve_looks hlookup code
  rw [run, Program.run_bind, hlooks]
  cases ((resolve code).run answer s).1 <;> exact ⟨rfl, rfl⟩

end Resolve

theorem totalCreated_eq_sum (summary : Summary) :
    summary.totalCreated = (summary.entries.values.map (·.created)).sum := by
  rw [Summary.totalCreated, List.sum_eq_foldl, List.foldl_map]

theorem totalCreated_eq_zero {summary : Summary}
    (h : ∀ type entry, summary.entries.get? type = some entry → entry.created = 0) :
    summary.totalCreated = 0 := by
  rw [totalCreated_eq_sum, SortedMap.map_values _ h]
  simp

/-- A backfill of one content type is its filling and then its reconciliation. -/
theorem run_one {d : Directory} {code : String} {language base : Language}
    (hcode : d.byCode code = some language) (havailable : language.available = true)
    (hbase : d.base = some base) (type : String) (actor : Actor) (s : Store) :
    let out := (run [type] actor code).run (World.serve type) (d, some s)
    let first := (fill language.id base.id actor).run (Store.answer d) s
    let second := (Reconciliation.run type actor).run (Store.answer d) first.2
    out.1.1.aborted = none ∧
      out.1.1.entries.get? type = some (first.1.conclude second.1.report) ∧
      out.2 = (d, some second.2) := by
  rw [run, Program.run_bind, resolve_ok (fun _ => rfl) hcode havailable hbase]
  simp [fillTypes, concludeTypes, World.run_serve]

end Backfill

namespace Engine

open Backfill Reconciliation

section

variable {e : Engine} {w : World} {code type : String} {language base : Language} {s : Store}

theorem backfill_registered (hnames : e.registry.names.Nodup) (htype : type ∈ e.registry.names)
    (hcode : w.directory.byCode code = some language) (havailable : language.available = true)
    (hbase : w.directory.base = some base) (hstore : w.store? type = some s) :
    let out := (e.backfill code).run World.answer w
    let first := (fill language.id base.id e.actor).run (Store.answer w.directory) s
    let second := (Reconciliation.run type e.actor).run (Store.answer w.directory) first.2
    out.1.1.entries.get? type = some (first.1.conclude second.1.report) ∧
      out.2.store? type = some second.2 := by
  obtain ⟨_, hentry, hown⟩ := backfill_alone hnames htype World.window code w
  have hw : World.own type w = (w.directory, some s) := Prod.ext rfl hstore
  rw [hw] at hentry hown
  obtain ⟨_, hentry', hown'⟩ := run_one hcode havailable hbase type e.actor s
  exact ⟨hentry.trans hentry', congrArg Prod.snd (hown.trans hown')⟩

theorem backfill_unregistered (htype : type ∉ e.registry.names) (code : String) (w : World) :
    let out := (e.backfill code).run World.answer w
    out.1.1.entries.get? type = none ∧ out.2.store? type = w.store? type := by
  have hfilter : e.registry.names.filter (· = type) = [] := by
    refine List.filter_eq_nil_iff.mpr fun other hother => ?_
    rintro heq
    exact htype (of_decide_eq_true heq ▸ hother)
  have hapart := run_apart (World.window type) e.registry.names e.actor code w
  rw [hfilter] at hapart
  obtain ⟨_, hentry, hown⟩ := hapart
  have hlookup : ∀ l, World.serve type (.directory l) (World.own type w) =
      (.ok (w.directory.answer l), World.own type w) := fun _ => rfl
  obtain ⟨hempty, hsame⟩ := run_none hlookup e.actor code
  rw [hempty] at hentry
  simp only [backfill, Program.run_bind, Program.pure_eq_done, Program.run_done]
  exact ⟨hentry, congrArg Prod.snd (hown.trans hsame)⟩

theorem backfill_not_aborted (hcode : w.directory.byCode code = some language)
    (havailable : language.available = true) (hbase : w.directory.base = some base) :
    ((e.backfill code).run World.answer w).1.1.aborted = none := by
  rw [backfill, Program.run_bind, Backfill.run, Program.run_bind,
    resolve_ok (d := w.directory) (fun _ => rfl) hcode havailable hbase]
  simp

theorem backfill_engine (e : Engine) (code : String) (w : World) :
    ∃ metrics, ((e.backfill code).run World.answer w).1.2 = { e with metrics } := by
  rw [backfill, Program.run_bind]
  exact ⟨_, rfl⟩

theorem backfill_again (hnames : e.registry.names.Nodup) (htype : type ∈ e.registry.names)
    (hcode : w.directory.byCode code = some language) (havailable : language.available = true)
    (hbase : w.directory.base = some base) (hstore : w.store? type = some s) (hs : s.Sound)
    (hfaults : s.faults = .none) :
    let filled := (e.backfill code).run World.answer w
    let again := (filled.1.2.backfill code).run World.answer filled.2
    again.2.store? type = filled.2.store? type ∧
      ∃ entry, again.1.1.entries.get? type = some entry ∧ entry.created = 0 := by
  intro filled again
  have hactive := Directory.id_mem_active hcode havailable
  obtain ⟨_, hstore'⟩ := backfill_registered hnames htype hcode havailable hbase hstore
  have hdirectory : filled.2.directory = w.directory := World.directory_run _ w
  have hfirst := (fill_stocked e.actor hs hfaults hbase hactive).harmless.frame
  have hpassed := run_passed type e.actor hfirst.sound (hfirst.faults.trans hfaults) hbase
  have hcomplete := complete_of_passed hpassed (hfirst.faults.trans hfaults)
  obtain ⟨metrics, hengine⟩ := backfill_engine e code w
  obtain ⟨hentry, hagain⟩ := backfill_registered (e := { e with metrics }) hnames htype
    (hdirectory ▸ hcode) havailable (hdirectory ▸ hbase) hstore'
  rw [hdirectory] at hentry hagain
  obtain ⟨hcreated, hsame⟩ := hcomplete.fill hactive
  obtain ⟨hcreated', hsame'⟩ := hcomplete.run hbase type
  have hagain' : again = (({ e with metrics } : Engine).backfill code).run World.answer filled.2 :=
    congrArg (fun e' : Engine => (e'.backfill code).run World.answer filled.2) hengine
  rw [hagain']
  refine ⟨?_, _, hentry, ?_⟩
  · rw [hagain, hsame, hsame']
    exact hstore'.symm
  · rw [hsame]
    exact Nat.add_eq_zero_iff.mpr ⟨hcreated, hcreated'⟩

theorem reconcileAll_registered (hnames : e.registry.names.Nodup)
    (htype : type ∈ e.registry.names) (hstore : w.store? type = some s) :
    let out := e.reconcileAll.run World.answer w
    let pass := (Reconciliation.run type e.actor).run (Store.answer w.directory) s
    out.1.1.find? (·.contentType = type) = some pass.1.report ∧
      out.2.store? type = some pass.2 := by
  obtain ⟨results, hjoined, hreports⟩ : ∃ results,
      Program.Joined World.answer e.passes w results (e.reconcileAll.run World.answer w).2 ∧
        (e.reconcileAll.run World.answer w).1.1 = results.map (·.2.report) :=
    joined_reconcileAll e w
  obtain ⟨_, hfind, hown⟩ := reports_alone hnames htype World.window hjoined
  have hw : World.own type w = (w.directory, some s) := Prod.ext rfl hstore
  rw [hw, World.run_serve] at hfind hown
  rw [← hreports] at hfind
  exact ⟨hfind, congrArg Prod.snd hown⟩

end

/-- A backfill that is not aborted leaves every content type as a reconciliation of all types would
leave it, and counts the same. Another backfill writes nothing then. One that is aborted has not
written anything either. -/
theorem backfill_agrees {entries : List (String × Nat)} {e : Engine}
    (hregistry : Registry.ofEntries entries = .ok e.registry) {w : World}
    (hstores : ∀ type ∈ e.registry.names,
      ∃ s, w.store? type = some s ∧ s.Sound ∧ s.faults = .none) (code : String) :
    (∀ language base, w.directory.byCode code = some language → language.available = true →
      w.directory.base = some base →
        let filled := (e.backfill code).run World.answer w
        let direct := e.reconcileAll.run World.answer w
        let again := (filled.1.2.backfill code).run World.answer filled.2
        filled.1.1.aborted = none ∧
          (∀ type ∈ e.registry.names, ∃ s t entry report,
            filled.2.store? type = some s ∧ direct.2.store? type = some t ∧
              Record.outline '' {r | r ∈ s.records} = Record.outline '' {r | r ∈ t.records} ∧
              filled.1.1.entries.get? type = some entry ∧
              direct.1.1.find? (·.contentType = type) = some report ∧
              entry.created = report.created ∧ entry.synced = report.synced) ∧
          (∀ type, again.2.store? type = filled.2.store? type) ∧
          again.1.1.aborted = none ∧ again.1.1.totalCreated = 0) ∧
      ∀ v : World, ((e.backfill code).run World.answer v).1.1.aborted ≠ none →
        ((e.backfill code).run World.answer v).2 = v := by
  have hnames := Registry.nodup_names_of_ofEntries hregistry
  refine ⟨fun language base hcode havailable hbase => ?_, fun v h => ?_⟩
  · intro filled direct again
    have hregistry' : filled.1.2.registry = e.registry := by
      obtain ⟨metrics, hengine⟩ := backfill_engine e code w
      rw [show filled.1.2 = _ from hengine]
    have hdirectory : filled.2.directory = w.directory := World.directory_run _ w
    refine ⟨backfill_not_aborted hcode havailable hbase, fun type htype => ?_, fun type => ?_, ?_,
      ?_⟩
    · obtain ⟨s, hstore, hs, hfaults⟩ := hstores type htype
      have hactive := Directory.id_mem_active hcode havailable
      obtain ⟨hentry, hfilled⟩ := backfill_registered hnames htype hcode havailable hbase hstore
      obtain ⟨hreport, hdirect⟩ := reconcileAll_registered hnames htype hstore
      obtain ⟨houtlines, hcreated, hsynced⟩ :=
        fill_then_run type e.actor hs hfaults hbase hactive
      exact ⟨_, _, _, _, hfilled, hdirect, houtlines, hentry, hreport, hcreated, hsynced⟩
    · by_cases htype : type ∈ e.registry.names
      · obtain ⟨s, hstore, hs, hfaults⟩ := hstores type htype
        exact (backfill_again hnames htype hcode havailable hbase hstore hs hfaults).1
      · rw [← hregistry'] at htype
        exact (backfill_unregistered htype code filled.2).2
    · exact backfill_not_aborted (hdirectory ▸ hcode) havailable (hdirectory ▸ hbase)
    · refine totalCreated_eq_zero fun type entry hentry => ?_
      by_cases htype : type ∈ e.registry.names
      · obtain ⟨s, hstore, hs, hfaults⟩ := hstores type htype
        obtain ⟨_, entry', hentry', hcreated⟩ :=
          backfill_again hnames htype hcode havailable hbase hstore hs hfaults
        obtain rfl : entry = entry' := Option.some_inj.mp (hentry.symm.trans hentry')
        exact hcreated
      · rw [← hregistry'] at htype
        rw [(backfill_unregistered htype code filled.2).1] at hentry
        cases hentry
  · simp only [backfill, Program.run_bind, Program.pure_eq_done, Program.run_done] at h ⊢
    exact eq_of_aborted (fun _ => rfl) h

end Engine

namespace Trilingual

def press : Engine := .start ⟨[("page", 60), ("story", 60)]⟩ "sync"

def story : Store :=
  (((Store.named "story").addItem 3).answer directory
    (.insert 3 [.pinned 1 (title "Once")] "ben")).2

def printed : World := ⟨directory, [outdated, story]⟩

theorem reachable_story : story.Reachable := by
  apply Store.Reachable.answered
  exact .addItem 3 (.named "story")

end Trilingual

namespace Engine

open Trilingual in
/-- German is missing everywhere. The page also has an outdated French copy, the story none. -/
theorem german_backfill_agrees :
    let filled := (press.backfill "de").run World.answer printed
    let direct := press.reconcileAll.run World.answer printed
    let again := (filled.1.2.backfill "de").run World.answer filled.2
    (filled.1.1.entries.get? "page").map (fun entry => (entry.created, entry.synced)) =
        some (1, 1) ∧
      (filled.1.1.entries.get? "story").map (fun entry => (entry.created, entry.synced)) =
        some (2, 0) ∧
      (∀ type ∈ ["page", "story"], ∃ s t,
        filled.2.store? type = some s ∧ direct.2.store? type = some t ∧
          Record.outline '' {r | r ∈ s.records} = Record.outline '' {r | r ∈ t.records}) ∧
      again.1.1.totalCreated = 0 := by
  have hregistry : Registry.ofEntries [("page", 60), ("story", 60)] = .ok press.registry := rfl
  have hstores : ∀ type ∈ press.registry.names,
      ∃ s, printed.store? type = some s ∧ s.Sound ∧ s.faults = .none := by
    have hpage : printed.store? "page" = some outdated := by decide
    have hstory : printed.store? "story" = some story := by decide
    rw [show press.registry.names = ["page", "story"] from rfl]
    simp only [List.forall_mem_cons, List.not_mem_nil, IsEmpty.forall_iff, implies_true, and_true]
    exact ⟨⟨_, hpage, reachable_outdated.sound, by decide⟩,
      ⟨_, hstory, reachable_story.sound, by decide⟩⟩
  have hgerman : printed.directory.byCode "de" = some ⟨3, "de", "German", true, false⟩ := by decide
  have henglish : printed.directory.base = some ⟨1, "en", "English", true, false⟩ := by decide
  obtain ⟨_, hagree, _, _, htotal⟩ :=
    (backfill_agrees hregistry hstores "de").1 _ _ hgerman rfl henglish
  have hpage : ((((press.backfill "de").run World.answer printed).1.1.entries.get? "page").map
      fun entry => (entry.created, entry.synced)) = some (1, 1) := by cbv
  have hstory : ((((press.backfill "de").run World.answer printed).1.1.entries.get? "story").map
      fun entry => (entry.created, entry.synced)) = some (2, 0) := by cbv
  refine ⟨hpage, hstory, fun type htype => ?_, htotal⟩
  obtain ⟨s, t, _, _, hs, ht, houtlines, _⟩ := hagree type htype
  exact ⟨s, t, hs, ht, houtlines⟩

end Engine

end Polyglot

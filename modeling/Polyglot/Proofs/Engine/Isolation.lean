import Mathlib.Logic.Function.Basic
import Polyglot.Engine.Basic
import Polyglot.Proofs.Pool.Schedule
import Polyglot.Proofs.Program.Window
import Polyglot.Proofs.Store.Session

/-!
Content types do not get in each other's way. What a backfill or a reconciliation of all types does
to one of them is what it does to that one alone, whatever becomes of the others, and in whatever
order the calls of reconciliations side by side are answered.
-/

namespace Polyglot

namespace Registry

theorem has_iff_mem_names {r : Registry} {name : String} : r.has name = true ↔ name ∈ r.names := by
  simp [has, get?, names]

theorem nodup_names_of_foldlM {entries : List (String × Nat)} {r r' : Registry}
    (hr : r.names.Nodup) (h : entries.foldlM (fun r e => r.register e.1 e.2) r = .ok r') :
    r'.names.Nodup := by
  induction entries generalizing r with
  | nil =>
      cases h
      exact hr
  | cons e rest ih =>
      rw [List.foldlM_cons, register] at h
      by_cases hhas : r.has e.1 = true
      · rw [if_pos hhas] at h
        cases h
      · rw [if_neg hhas] at h
        refine ih ?_ h
        rw [names, List.map_append]
        refine hr.append (List.nodup_singleton _) ?_
        rintro name hname hmem
        cases List.mem_singleton.mp hmem
        exact hhas (has_iff_mem_names.mpr hname)

theorem nodup_names_of_ofEntries {entries : List (String × Nat)} {r : Registry}
    (h : ofEntries entries = .ok r) : r.names.Nodup := by
  have hempty : empty.names.Nodup := List.nodup_nil
  exact nodup_names_of_foldlM hempty h

end Registry

def Call.Reaches (type : String) : Call → Prop
  | .directory _ => True
  | .content other _ => other = type

namespace Flow

variable {α : Type} {type other : String}

theorem on_asks (type : String) (f : Flow α) :
    (Flow.on type f).Asks fun c => ∃ q, c = .content type q := by
  induction f with
  | done a => trivial
  | ask q next ih => exact ⟨⟨q, rfl⟩, fun reply => ih reply⟩

theorem on_reaches (type : String) (f : Flow α) : (Flow.on type f).Asks (Call.Reaches type) := by
  refine (on_asks type f).mono ?_
  rintro _ ⟨q, rfl⟩
  exact rfl

theorem on_misses (h : other ≠ type) (f : Flow α) :
    (Flow.on other f).Asks (¬ Call.Reaches type ·) := by
  refine (on_asks other f).mono ?_
  rintro _ ⟨q, rfl⟩
  exact h

theorem on_run {σ : Type} (answer : (c : Call) → σ → c.Reply × σ) (f : Flow α) (s : σ) :
    (Flow.on type f).run answer s = f.run (fun q => answer (.content type q)) s := by
  induction f generalizing s with
  | done a => rfl
  | ask q next ih => exact ih _ _

end Flow

namespace Reconciliation

variable {σ : Type} {answer : (q : Query) → σ → q.Reply × σ}

theorem contentType_enter (pass : Pass) (outcome : Except Error ItemOutcome) :
    (pass.enter outcome).report.contentType = pass.report.contentType := by
  rcases outcome with e | tally | _ <;> rfl

theorem contentType_reconcileItems (base : LanguageId) (active : List LanguageId) (actor : Actor)
    (items : List ItemId) (pass : Pass) (s : σ) :
    ((reconcileItems base active actor items pass).run answer s).1.report.contentType =
      pass.report.contentType := by
  induction items generalizing pass s with
  | nil => rfl
  | cons item rest ih =>
      rw [reconcileItems, Program.run_bind, ih, contentType_enter]

theorem contentType_run (type : String) (actor : Actor) (s : σ) :
    ((run type actor).run answer s).1.report.contentType = type := by
  rw [run, Program.run_bind]
  split
  · rfl
  · exact contentType_reconcileItems _ _ _ _ _ _

end Reconciliation

namespace Backfill

variable {σ τ : Type} {answer : (c : Call) → σ → c.Reply × σ} {type : String} {view : σ → τ}
  {serve : (c : Call) → τ → c.Reply × τ} {types : List String} {actor : Actor}

theorem resolve_asks (code : String) : (resolve code).Asks fun c => ∃ l, c = .directory l := by
  refine ⟨⟨_, rfl⟩, fun reply => ?_⟩
  rcases reply with e | _ | language
  · trivial
  · trivial
  · show Program.Asks _ (if _ then _ else _)
    split
    · trivial
    · refine ⟨⟨_, rfl⟩, fun reply => ?_⟩
      rcases reply with e | _ | base <;> trivial

theorem resolve_reaches (code type : String) : (resolve code).Asks (Call.Reaches type) := by
  refine (resolve_asks code).mono ?_
  rintro _ ⟨l, rfl⟩
  trivial

theorem fillTypes_apart (hwindow : Program.Window answer (Call.Reaches type) view serve)
    (language base : LanguageId) (actor : Actor) (types : List String)
    {entries entries' : SortedMap String Entry} (hentries : entries.get? type = entries'.get? type)
    (s : σ) :
    let all := (fillTypes language base actor types entries).run answer s
    let own := (fillTypes language base actor (types.filter (· = type)) entries').run serve (view s)
    all.1.get? type = own.1.get? type ∧ view all.2 = own.2 := by
  induction types generalizing entries entries' s with
  | nil => exact ⟨hentries, rfl⟩
  | cons other rest ih =>
      rw [fillTypes, Program.run_bind]
      by_cases hother : other = type
      · subst hother
        rw [List.filter_cons_of_pos (by simp), fillTypes, Program.run_bind,
          ← hwindow.run (Flow.on_reaches other _)]
        exact ih (by simp) _
      · rw [List.filter_cons_of_neg (by simpa using hother),
          ← hwindow.run_other (Flow.on_misses hother (fill language base actor)) s]
        exact ih (by simpa [Ne.symm hother] using hentries) _

theorem concludeTypes_apart (hwindow : Program.Window answer (Call.Reaches type) view serve)
    (actor : Actor) (types : List String) {entries entries' : SortedMap String Entry}
    (hentries : entries.get? type = entries'.get? type) (metrics metrics' : Metrics) (s : σ) :
    let all := (concludeTypes actor types entries metrics).run answer s
    let own := (concludeTypes actor (types.filter (· = type)) entries' metrics').run serve (view s)
    all.1.1.get? type = own.1.1.get? type ∧ view all.2 = own.2 := by
  induction types generalizing entries entries' metrics metrics' s with
  | nil => exact ⟨hentries, rfl⟩
  | cons other rest ih =>
      rw [concludeTypes, Program.run_bind]
      by_cases hother : other = type
      · subst hother
        rw [List.filter_cons_of_pos (by simp), concludeTypes, Program.run_bind,
          ← hwindow.run (Flow.on_reaches other _)]
        exact ih (by simp [hentries]) _ _ _
      · rw [List.filter_cons_of_neg (by simpa using hother),
          ← hwindow.run_other (Flow.on_misses hother (Reconciliation.run other actor)) s]
        exact ih (by simpa [Ne.symm hother] using hentries) _ _ _

/-- A backfill of many types is, for one of them, a backfill of that one. -/
theorem run_apart (hwindow : Program.Window answer (Call.Reaches type) view serve)
    (types : List String) (actor : Actor) (code : String) (s : σ) :
    let all := (run types actor code).run answer s
    let own := (run (types.filter (· = type)) actor code).run serve (view s)
    all.1.1.aborted = own.1.1.aborted ∧ all.1.1.entries.get? type = own.1.1.entries.get? type ∧
      view all.2 = own.2 := by
  dsimp only
  rw [run, run, Program.run_bind, Program.run_bind,
    ← hwindow.run (resolve_reaches code type)]
  dsimp only
  cases ((resolve code).run answer s).1 with
  | error refusal => exact ⟨rfl, rfl, rfl⟩
  | ok languages =>
      obtain ⟨language, base⟩ := languages
      dsimp only
      simp only [Program.run_bind, Program.pure_eq_done, Program.run_done]
      obtain ⟨hfill, hview⟩ := fillTypes_apart hwindow language base actor types rfl
        ((resolve code).run answer s).2
      rw [← hview]
      obtain ⟨hentry, hview⟩ := concludeTypes_apart hwindow actor types hfill _ _ _
      exact ⟨trivial, hentry, hview⟩

theorem isSome_fillTypes (language base : LanguageId) (actor : Actor) (types : List String)
    (entries : SortedMap String Entry) (s : σ) :
    (((fillTypes language base actor types entries).run answer s).1.get? type).isSome = true ↔
      type ∈ types ∨ (entries.get? type).isSome = true := by
  induction types generalizing entries s with
  | nil => simp [fillTypes]
  | cons other rest ih =>
      rw [fillTypes, Program.run_bind, ih, SortedMap.get?_insert]
      by_cases hother : type = other <;> simp [hother]

theorem isSome_concludeTypes (actor : Actor) (types : List String)
    (entries : SortedMap String Entry) (metrics : Metrics) (s : σ) :
    (((concludeTypes actor types entries metrics).run answer s).1.1.get? type).isSome = true ↔
      type ∈ types ∨ (entries.get? type).isSome = true := by
  induction types generalizing entries metrics s with
  | nil => simp [concludeTypes]
  | cons other rest ih =>
      rw [concludeTypes, Program.run_bind, ih, SortedMap.get?_insert]
      by_cases hother : type = other <;> simp [hother]

theorem isSome_entry_iff (types : List String) (actor : Actor) (code : String) (s : σ)
    (h : ((run types actor code).run answer s).1.1.aborted = none) :
    (((run types actor code).run answer s).1.1.entries.get? type).isSome = true ↔
      type ∈ types := by
  rw [run, Program.run_bind] at h ⊢
  cases hresolve : ((resolve code).run answer s).1 with
  | error refusal =>
      rw [hresolve] at h
      cases h
  | ok languages => simp [isSome_concludeTypes, isSome_fillTypes]

theorem isSome_entry (type : String) (actor : Actor) (code : String) (s : σ)
    (h : ((run [type] actor code).run answer s).1.1.aborted = none) :
    (((run [type] actor code).run answer s).1.1.entries.get? type).isSome :=
  (isSome_entry_iff [type] actor code s h).mpr (List.mem_singleton_self type)

theorem run_eq_of_aborted {code : String} {s : σ}
    (h : ((run types actor code).run answer s).1.1.aborted ≠ none) :
    ((run types actor code).run answer s).1.1.entries = .empty ∧
      ((run types actor code).run answer s).2 = ((resolve code).run answer s).2 := by
  rw [run, Program.run_bind] at h ⊢
  cases hresolve : ((resolve code).run answer s).1 with
  | error refusal => exact ⟨rfl, rfl⟩
  | ok languages =>
      rw [hresolve] at h
      simp at h

end Backfill

namespace Engine

def passes (e : Engine) : List (String × Service Reconciliation.Pass) :=
  e.registry.names.map fun type => (type, (Reconciliation.run type e.actor).on type)

variable {σ τ : Type} {answer : (c : Call) → σ → c.Reply × σ} {e : Engine}

@[simp] theorem map_fst_passes (e : Engine) : e.passes.map (·.1) = e.registry.names := by
  simp [passes, Function.comp_def]

theorem joined_reconcileEach (e : Engine) (types : List String) (s : σ) :
    ∃ results, Program.Joined answer
        (types.map fun type => (type, (Reconciliation.run type e.actor).on type)) s results
        ((e.reconcileEach types).run answer s).2 ∧
      ((e.reconcileEach types).run answer s).1.1 = results.map (·.2.report) := by
  induction types generalizing e s with
  | nil => exact ⟨[], .done [] s, rfl⟩
  | cons type rest ih =>
      rw [reconcileEach, Program.run_bind, Program.run_bind]
      obtain ⟨results, hjoined, hreports⟩ := ih
        { e with metrics := e.metrics +
          (((Reconciliation.run type e.actor).on type).run answer s).1.metrics }
        (((Reconciliation.run type e.actor).on type).run answer s).2
      exact ⟨_, hjoined.cons type _, congrArg (_ :: ·) hreports⟩

/-- Reconciling the types one after the other is one way of reconciling them side by side. -/
theorem joined_reconcileAll (e : Engine) (s : σ) :
    ∃ results, Program.Joined answer e.passes s results (e.reconcileAll.run answer s).2 ∧
      (e.reconcileAll.run answer s).1.1 = results.map (·.2.report) :=
  joined_reconcileEach e e.registry.names s

theorem apart_of_joined (hnames : e.registry.names.Nodup) {type : String}
    (htype : type ∈ e.registry.names) {view : σ → τ} {serve : (c : Call) → τ → c.Reply × τ}
    (hwindow : Program.Window answer (Call.Reaches type) view serve) {s t : σ}
    {results : List (String × Reconciliation.Pass)}
    (h : Program.Joined answer e.passes s results t) :
    ∃ pass, (type, pass) ∈ results ∧
      (pass, view t) = ((Reconciliation.run type e.actor).on type).run serve (view s) := by
  refine h.apart hwindow ?_ (List.mem_map_of_mem htype) (Flow.on_reaches type _) ?_
  · rw [map_fst_passes]
    exact hnames
  · rintro r hr hne
    obtain ⟨other, _, rfl⟩ := List.mem_map.mp hr
    exact Flow.on_misses hne _

theorem contentType_of_joined (hnames : e.registry.names.Nodup) {view : String → σ → τ}
    {serve : String → (c : Call) → τ → c.Reply × τ}
    (hwindow : ∀ type, Program.Window answer (Call.Reaches type) (view type) (serve type))
    {s t : σ} {results : List (String × Reconciliation.Pass)}
    (h : Program.Joined answer e.passes s results t) :
    results.map (·.2.report.contentType) = e.registry.names := by
  have hresults := h.names
  rw [map_fst_passes] at hresults
  rw [← hresults]
  refine List.map_congr_left fun r hr => ?_
  have htype : r.1 ∈ e.registry.names := hresults ▸ List.mem_map_of_mem hr
  obtain ⟨pass, hpass, hrun⟩ := apart_of_joined hnames htype (hwindow r.1) h
  have heq : r = (r.1, pass) :=
    List.inj_on_of_nodup_map (hresults ▸ hnames) hr hpass rfl
  rw [heq, show pass = _ from congrArg Prod.fst hrun, Flow.on_run]
  exact Reconciliation.contentType_run r.1 e.actor _

section Alone

variable {view : String → σ → τ} {serve : String → (c : Call) → τ → c.Reply × τ} {type : String}
  (hnames : e.registry.names.Nodup) (htype : type ∈ e.registry.names)
  (hwindow : ∀ type, Program.Window answer (Call.Reaches type) (view type) (serve type))

include hnames htype hwindow

/-- A backfill does with one of its types what it would do with this type alone. -/
theorem backfill_alone (code : String) (s : σ) :
    let r := (e.backfill code).run answer s
    let alone := (Backfill.run [type] e.actor code).run (serve type) (view type s)
    r.1.1.aborted = alone.1.1.aborted ∧
      r.1.1.entries.get? type = alone.1.1.entries.get? type ∧ view type r.2 = alone.2 := by
  have hfilter : e.registry.names.filter (· = type) = [type] := by
    rw [List.filter_eq, List.count_eq_one_of_mem hnames htype, List.replicate_one]
  have hapart := Backfill.run_apart (hwindow type) e.registry.names e.actor code s
  rw [hfilter] at hapart
  simpa only [backfill, Program.run_bind, Program.pure_eq_done, Program.run_done] using hapart

theorem reports_alone {s t : σ} {results : List (String × Reconciliation.Pass)}
    (h : Program.Joined answer e.passes s results t) :
    let reports := results.map (·.2.report)
    let alone := ((Reconciliation.run type e.actor).on type).run (serve type) (view type s)
    reports.map (·.contentType) = e.registry.names ∧
      reports.find? (·.contentType = type) = some alone.1.report ∧ view type t = alone.2 := by
  intro reports alone
  have hcontentType : reports.map (·.contentType) = e.registry.names := by
    rw [List.map_map]
    exact contentType_of_joined hnames hwindow h
  obtain ⟨pass, hpass, hrun⟩ := apart_of_joined hnames htype (hwindow type) h
  obtain ⟨rfl, hview⟩ := Prod.mk.inj hrun
  refine ⟨hcontentType, ?_, hview⟩
  have hreport : alone.1.report.contentType = type := by
    rw [show alone = _ from Flow.on_run _ _ _]
    exact Reconciliation.contentType_run type e.actor _
  exact find?_of_nodup_map (hcontentType ▸ hnames) (List.mem_map.mpr ⟨_, hpass, rfl⟩) hreport

end Alone

end Engine

abbrev Consulted := Answered Lookup fun l => Except Error l.Answer

/-- The shared directory with a note of every look-up in it, the newest of which stands first. -/
structure Desk where
  directory : Directory
  lookups : List Consulted

def Desk.answer (refuse : List Consulted → Lookup → Option Error) (l : Lookup) (desk : Desk) :
    Except Error l.Answer × Desk :=
  let reply := match refuse desk.lookups l with
    | some e => .error e
    | none => .ok (desk.directory.answer l)
  (reply, { desk with lookups := ⟨l, reply⟩ :: desk.lookups })

structure Sessions where
  desk : Desk
  of : String → Session

/-- Which look-ups are refused, and which calls to each of the stores. -/
structure Rules where
  lookups : List Consulted → Lookup → Option Error
  of : String → Refusals

namespace Sessions

def answer (rules : Rules) : (c : Call) → Sessions → c.Reply × Sessions
  | .directory l, w =>
      let (reply, desk) := w.desk.answer rules.lookups l
      (reply, { w with desk })
  | .content type q, w =>
      let (reply, σ) := (w.of type).answer w.desk.directory (rules.of type) q
      (reply, { w with of := Function.update w.of type σ })

/-- What one content type has to do with. -/
def own (type : String) (w : Sessions) : Desk × Session := (w.desk, w.of type)

def serve (lookups : List Consulted → Lookup → Option Error) (refuse : Refusals) :
    (c : Call) → Desk × Session → c.Reply × (Desk × Session)
  | .directory l, v => ((v.1.answer lookups l).1, (v.1.answer lookups l).2, v.2)
  | .content _ q, v =>
      ((v.2.answer v.1.directory refuse q).1, v.1, (v.2.answer v.1.directory refuse q).2)

theorem window (rules : Rules) (type : String) :
    Program.Window (answer rules) (Call.Reaches type) (own type)
      (serve rules.lookups (rules.of type)) where
  own c w hc := by
    rcases c with l | ⟨other, q⟩
    · rfl
    · cases show other = type from hc
      simp [answer, own, serve]
  other c w hc := by
    rcases c with l | ⟨other, q⟩
    · exact absurd trivial hc
    · have hne : type ≠ other := fun heq => hc heq.symm
      simp [answer, own, hne]

end Sessions

namespace Engine

/-- Two runs that differ in what becomes of other content types only: in their stores and in the
calls that are refused there. A backfill leaves the type with the same store and enters the same
for it. So do reconciliations of all types, in whatever order the calls of either run were
answered; their reports stand in the order of registration. -/
theorem unaffected_by_other_types {entries : List (String × Nat)} {e : Engine}
    (hregistry : Registry.ofEntries entries = .ok e.registry) {type : String}
    (htype : e.registry.has type = true) (code : String) {rules rules' : Rules}
    {w w' : Sessions} (hlookups : rules.lookups = rules'.lookups) (hdesk : w.desk = w'.desk)
    (hrefusals : rules.of type = rules'.of type) (hsession : w.of type = w'.of type) :
    (let r := (e.backfill code).run (Sessions.answer rules) w
     let r' := (e.backfill code).run (Sessions.answer rules') w'
     r.2.of type = r'.2.of type ∧ r.1.1.aborted = r'.1.1.aborted ∧
       r.1.1.entries.get? type = r'.1.1.entries.get? type ∧
       (r.1.1.aborted = none → (r.1.1.entries.get? type).isSome = true)) ∧
    (∀ results v results' v',
      Program.Joined (Sessions.answer rules) e.passes w results v →
      Program.Joined (Sessions.answer rules') e.passes w' results' v' →
        let reports := results.map (·.2.report)
        let reports' := results'.map (·.2.report)
        v.of type = v'.of type ∧
          reports.map (·.contentType) = e.registry.names ∧
          reports'.map (·.contentType) = e.registry.names ∧
          ∃ report, reports.find? (·.contentType = type) = some report ∧
            reports'.find? (·.contentType = type) = some report) ∧
    ∃ results, Program.Joined (Sessions.answer rules) e.passes w results
        (e.reconcileAll.run (Sessions.answer rules) w).2 ∧
      (e.reconcileAll.run (Sessions.answer rules) w).1.1 = results.map (·.2.report) := by
  have hnames := Registry.nodup_names_of_ofEntries hregistry
  have hmem := Registry.has_iff_mem_names.mp htype
  have hown : Sessions.own type w = Sessions.own type w' := Prod.ext hdesk hsession
  have hserve : Sessions.serve rules.lookups (rules.of type) =
      Sessions.serve rules'.lookups (rules'.of type) := by rw [hlookups, hrefusals]
  refine ⟨?_, ?_, joined_reconcileAll e w⟩
  · obtain ⟨haborted, hentry, hview⟩ := backfill_alone hnames hmem (Sessions.window rules) code w
    obtain ⟨haborted', hentry', hview'⟩ :=
      backfill_alone hnames hmem (Sessions.window rules') code w'
    rw [hown, hserve] at haborted hentry hview
    refine ⟨congrArg Prod.snd (hview.trans hview'.symm), haborted.trans haborted'.symm,
      hentry.trans hentry'.symm, fun hnone => ?_⟩
    rw [hentry]
    exact Backfill.isSome_entry type e.actor code _ (haborted.symm.trans hnone)
  · intro results v results' v' h h'
    obtain ⟨hcontentType, hfind, hview⟩ := reports_alone hnames hmem (Sessions.window rules) h
    obtain ⟨hcontentType', hfind', hview'⟩ := reports_alone hnames hmem (Sessions.window rules') h'
    rw [hown, hserve] at hfind hview
    exact ⟨congrArg Prod.snd (hview.trans hview'.symm), hcontentType, hcontentType', _, hfind,
      hfind'⟩

end Engine

namespace Bilingual

def newsroom : Engine := .start ⟨[("page", 60), ("story", 60)]⟩ "sync"

def drafted : Sessions :=
  ⟨⟨directory, []⟩, fun type =>
    .start (((Store.named type).addItem 7).append 7 [.pinned 1 (title "Hello")] "ann")⟩

theorem sound_drafted (type : String) : (drafted.of type).store.Sound := by
  refine ((Store.sound_named type).addItem 7).append "ann" rfl (List.nodup_singleton _) ?_
  intro d _ r hr
  cases hr

def storiesDown : Rules :=
  ⟨fun _ _ => none, fun type =>
    if type = "story" then fun _ _ => some (.storage (.listing "story")) else .never⟩

def allUp : Rules := ⟨fun _ _ => none, fun _ => .never⟩

end Bilingual

namespace Engine

open Bilingual in
theorem pages_filled_while_stories_down :
    let entries := ((newsroom.backfill "fr").run (Sessions.answer storiesDown) drafted).1.1.entries
    entries.get? "page" = some ⟨1, 0, false, 0, none⟩ ∧
      entries.get? "story" = some ⟨0, 0, true, 0, some (.storage (.listing "story"))⟩ := by
  have hregistry : Registry.ofEntries [("page", 60), ("story", 60)] = .ok newsroom.registry := rfl
  have htype : newsroom.registry.has "page" = true := rfl
  have hlookups : storiesDown.lookups = allUp.lookups := rfl
  have hrefusals : storiesDown.of "page" = allUp.of "page" := rfl
  have hup : (((newsroom.backfill "fr").run (Sessions.answer allUp) drafted).1.1.entries.get?
      "page") = some ⟨1, 0, false, 0, none⟩ := by cbv
  have hstory : (((newsroom.backfill "fr").run (Sessions.answer storiesDown)
      drafted).1.1.entries.get? "story") =
      some ⟨0, 0, true, 0, some (.storage (.listing "story"))⟩ := by cbv
  obtain ⟨⟨-, -, hpage, -⟩, -⟩ :=
    unaffected_by_other_types hregistry htype "fr" hlookups (Eq.refl drafted.desk) hrefusals rfl
  exact ⟨hpage.trans hup, hstory⟩

end Engine

end Polyglot

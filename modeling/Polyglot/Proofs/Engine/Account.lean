import Polyglot.Proofs.Backfill.Account
import Polyglot.Proofs.Engine.Agreement

namespace Polyglot

namespace Sessions

variable {rules : Rules} {lookups : List Consulted → Lookup → Option Error} {refuse : Refusals}

theorem run_serve {α : Type} (type : String) (f : Flow α) (desk : Desk) (σ : Session) :
    (Flow.on type f).run (serve lookups refuse) (desk, σ) =
      ((f.run (Session.answer desk.directory refuse) σ).1, desk,
        (f.run (Session.answer desk.directory refuse) σ).2) := by
  induction f generalizing σ with
  | done a => rfl
  | ask q next ih => exact ih _ _

def contents (w : Sessions) : Directory × (String → Session) := (w.desk.directory, w.of)

theorem eq_of_answer_ok {l : Lookup} {a : l.Answer} {w : Sessions}
    (h : (answer rules (.directory l) w).1 = .ok a) : w.desk.directory.answer l = a := by
  simp only [answer, Desk.answer] at h
  split at h
  · cases h
  · exact Except.ok.inj h

end Sessions

namespace Backfill

section

variable {σ : Type} {answer : (c : Call) → σ → c.Reply × σ} {types : List String} {actor : Actor}
  {code : String} {s : σ}

theorem resolve_eq_ok (h : ((run types actor code).run answer s).1.1.aborted = none) :
    ∃ language base, ((resolve code).run answer s).1 = .ok (language, base) := by
  rw [run, Program.run_bind] at h
  cases hresolve : ((resolve code).run answer s).1 with
  | error refusal =>
      rw [hresolve] at h
      cases h
  | ok languages => exact ⟨_, _, rfl⟩

end

section

variable {rules : Rules} {w : Sessions} {code type : String}

theorem resolve_kept (rules : Rules) (code : String) (w : Sessions) :
    let out := (resolve code).run (Sessions.answer rules) w
    out.2.desk.directory = w.desk.directory ∧ out.2.of = w.of := by
  have hkept : ((resolve code).run (Sessions.answer rules) w).2.contents = w.contents :=
    (resolve_asks code).kept (by rintro _ v ⟨l, rfl⟩; rfl) w
  exact Prod.mk.inj hkept

/-- The languages of a backfill are what the directory has, whichever look-ups are refused. -/
theorem of_resolve_eq_ok {l b : LanguageId}
    (h : ((resolve code).run (Sessions.answer rules) w).1 = .ok (l, b)) :
    ∃ language base, w.desk.directory.byCode code = some language ∧ language.available = true ∧
      w.desk.directory.base = some base ∧ l = language.id ∧ b = base.id := by
  rw [resolve, Program.run_bind, Program.run_query] at h
  cases hcode : (Sessions.answer rules (.directory (.byCode code)) w).1 with
  | error e =>
      rw [hcode] at h
      cases h
  | ok found =>
      have hcode' : w.desk.directory.byCode code = found := Sessions.eq_of_answer_ok hcode
      rw [hcode] at h
      cases found with
      | none => cases h
      | some language =>
          dsimp only at h
          cases havailable : language.available with
          | false =>
              rw [havailable] at h
              cases h
          | true =>
              rw [havailable, Bool.not_true, if_neg Bool.false_ne_true, Program.run_bind,
                Program.run_query] at h
              set w₁ := (Sessions.answer rules (.directory (.byCode code)) w).2 with hw₁
              cases hbase : (Sessions.answer rules (.directory .base) w₁).1 with
              | error e =>
                  rw [hbase] at h
                  cases h
              | ok found =>
                  have hbase' : w₁.desk.directory.base = found := Sessions.eq_of_answer_ok hbase
                  rw [hbase] at h
                  cases found with
                  | none => cases h
                  | some base =>
                      cases h
                      exact ⟨language, base, hcode', havailable, hbase', rfl, rfl⟩

/-- A backfill of one content type is its filling and then its reconciliation, once the languages
are known. -/
theorem run_passes {language base : LanguageId}
    (h : ((resolve code).run (Sessions.answer rules) w).1 = .ok (language, base)) (type : String)
    (actor : Actor) :
    let out := (run [type] actor code).run (Sessions.serve rules.lookups (rules.of type))
      (Sessions.own type w)
    let answer := Session.answer w.desk.directory (rules.of type)
    let first := (fill language base actor).run answer (w.of type)
    let second := (Reconciliation.run type actor).run answer first.2
    out.1.1.entries.get? type = some (first.1.conclude second.1.report) ∧ out.2.2 = second.2 := by
  obtain ⟨hdirectory, hof⟩ := resolve_kept rules code w
  rw [run, Program.run_bind, ← (Sessions.window rules type).run (resolve_reaches code type), h]
  simp [fillTypes, concludeTypes, Sessions.run_serve, Sessions.own, hdirectory, hof]

end

end Backfill

namespace Engine

open Backfill

theorem backfill_passes {e : Engine} (hnames : e.registry.names.Nodup) {type : String}
    (htype : type ∈ e.registry.names) {rules : Rules} {w : Sessions} {code : String}
    {language base : LanguageId}
    (h : ((resolve code).run (Sessions.answer rules) w).1 = .ok (language, base)) :
    let out := (e.backfill code).run (Sessions.answer rules) w
    let answer := Session.answer w.desk.directory (rules.of type)
    let first := (fill language base e.actor).run answer (w.of type)
    let second := (Reconciliation.run type e.actor).run answer first.2
    out.1.1.entries.get? type = some (first.1.conclude second.1.report) ∧
      out.2.of type = second.2 := by
  obtain ⟨_, hentry, hown⟩ := backfill_alone hnames htype (Sessions.window rules) code w
  obtain ⟨hentry', hown'⟩ := run_passes h type e.actor
  exact ⟨hentry.trans hentry', (congrArg Prod.snd hown).trans hown'⟩

/-- The two passes of a backfill over a content type lead from `w` to `v`, and the summary has a
tally that accounts for them. -/
def Accounted (e : Engine) (rules : Rules) (language base : LanguageId) (w v : Sessions)
    (summary : Summary) (type : String) : Prop :=
  let answer := Session.answer w.desk.directory (rules.of type)
  let first := (fill language base e.actor).run answer (w.of type)
  let second := (Reconciliation.run type e.actor).run answer first.2
  v.of type = second.2 ∧ ∃ entry, summary.entries.get? type = some entry ∧
    Accounts language base (w.of type) first.2 second.2 second.1.report entry

/-- Whatever calls fail, the summary of a backfill says what has become of every content type. -/
theorem backfill_accounts {entries : List (String × Nat)} {e : Engine}
    (hregistry : Registry.ofEntries entries = .ok e.registry) (rules : Rules) {w : Sessions}
    (hsound : ∀ type ∈ e.registry.names, (w.of type).store.Sound) (code : String) :
    let out := (e.backfill code).run (Sessions.answer rules) w
    let summary := out.1.1
    (summary.aborted ≠ none → summary.entries = .empty ∧ out.2.of = w.of) ∧
    (summary.aborted = none → ∃ language base,
      w.desk.directory.byCode code = some language ∧ language.available = true ∧
      w.desk.directory.base = some base ∧
      summary.entries.keys.Perm e.registry.names ∧
      summary.totalCreated = (e.registry.names.map fun type =>
        ((w.of type).store.issued (out.2.of type).store).length).sum ∧
      ∀ type ∈ e.registry.names, e.Accounted rules language.id base.id w out.2 summary type) := by
  intro out summary
  have hnames := Registry.nodup_names_of_ofEntries hregistry
  have hrun : (summary, out.2) = (((Backfill.run e.registry.names e.actor code).run
      (Sessions.answer rules) w).1.1, ((Backfill.run e.registry.names e.actor code).run
        (Sessions.answer rules) w).2) := by
    simp only [summary, out, backfill, Program.run_bind, Program.pure_eq_done, Program.run_done]
  obtain ⟨hsummary, hout⟩ := Prod.mk.inj hrun
  refine ⟨fun haborted => ?_, fun hnone => ?_⟩
  · rw [hsummary] at haborted
    obtain ⟨hempty, hsame⟩ := run_eq_of_aborted haborted
    refine ⟨hsummary ▸ hempty, ?_⟩
    rw [hout, hsame]
    exact (resolve_kept rules code w).2
  · have hnone' := hsummary ▸ hnone
    obtain ⟨_, _, hresolve⟩ := resolve_eq_ok hnone'
    obtain ⟨language, base, hcode, havailable, hbase, rfl, rfl⟩ := of_resolve_eq_ok hresolve
    have hlisted (type : String) :
        (summary.entries.get? type).isSome = true ↔ type ∈ e.registry.names := by
      rw [hsummary]
      exact isSome_entry_iff e.registry.names e.actor code w hnone'
    have hkeys : summary.entries.keys.Perm e.registry.names :=
      (List.perm_ext_iff_of_nodup (SortedMap.nodup_keys _) hnames).mpr fun type =>
        SortedMap.mem_keys.trans (hlisted type)
    have haccounted (type : String) (htype : type ∈ e.registry.names) :
        e.Accounted rules language.id base.id w out.2 summary type := by
      obtain ⟨hentry, hown⟩ := backfill_passes hnames htype hresolve
      exact ⟨hown, _, hentry, accounts_passes (rules.of type) type e.actor (hsound type htype)
        hcode havailable hbase⟩
    refine ⟨language, base, hcode, havailable, hbase, hkeys, ?_, haccounted⟩
    have hcreated (type : String) (entry : Entry) (hentry : summary.entries.get? type = some entry) :
        entry.created = ((w.of type).store.issued (out.2.of type).store).length := by
      have htype := (hlisted type).mp (by simp [hentry])
      obtain ⟨hown, entry', hentry', haccounts⟩ := haccounted type htype
      obtain rfl : entry = entry' := Option.some_inj.mp (hentry.symm.trans hentry')
      rw [hown]
      exact haccounts.created
    rw [totalCreated_eq_sum, SortedMap.map_values _ hcreated]
    exact (hkeys.map _).sum_eq

end Engine

namespace Bilingual

def backfilled : (Backfill.Summary × Engine) × Sessions :=
  (newsroom.backfill "fr").run (Sessions.answer storiesDown) drafted

end Bilingual

namespace Engine

open Bilingual in
/-- The stories cannot be listed, which their tally says, while every page has its French copy. -/
theorem drafted_pages_accounted :
    let summary := backfilled.1.1
    summary.aborted = none ∧ summary.entries.keys.Perm ["page", "story"] ∧
      summary.totalCreated = 1 ∧
      (summary.entries.get? "story").map (·.failed) = some true ∧
      (summary.entries.get? "page").map (·.failed) = some false ∧
      Backfill.Finished 2 1 (backfilled.2.of "page").store := by
  have hregistry : Registry.ofEntries [("page", 60), ("story", 60)] = .ok newsroom.registry := rfl
  have hnone : backfilled.1.1.aborted = none := by cbv
  have htotal : backfilled.1.1.totalCreated = 1 := by cbv
  have hstory : (backfilled.1.1.entries.get? "story").map (·.failed) = some true := by cbv
  have hpage : (backfilled.1.1.entries.get? "page").map (·.failed) = some false := by cbv
  obtain ⟨language, base, hcode, _, hbase, hkeys, _, haccounted⟩ :=
    (backfill_accounts hregistry storiesDown (fun type _ => sound_drafted type) "fr").2 hnone
  obtain rfl : language = ⟨2, "fr", "French", true, false⟩ :=
    Option.some_inj.mp (hcode.symm.trans (by decide))
  obtain rfl : base = ⟨1, "en", "English", true, false⟩ :=
    Option.some_inj.mp (hbase.symm.trans (by decide))
  obtain ⟨hown, entry, hentry, haccounts⟩ := haccounted "page" (by decide)
  refine ⟨hnone, hkeys, htotal, hstory, hpage, ?_⟩
  have hfinished : entry.failed = false := by
    rw [show backfilled.1.1.entries.get? "page" = some entry from hentry] at hpage
    exact Option.some_inj.mp hpage
  exact hown ▸ haccounts.finished hfinished

end Engine

end Polyglot

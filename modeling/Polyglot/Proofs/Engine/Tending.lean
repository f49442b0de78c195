import Polyglot.Proofs.Flow.Outcome
import Polyglot.Proofs.Pool.Knowledge

namespace Polyglot

structure World.Converges (b : LanguageId) (awaited : String → ItemId → Option Text)
    (w : World) : Prop where
  base : ∃ l, w.directory.base = some l ∧ l.id = b
  stores : ∀ type s, w.store? type = some s → s.Converges b (awaited type)

theorem World.Converges.sound {b : LanguageId} {awaited : String → ItemId → Option Text}
    {w : World} (h : w.Converges b awaited) : w.Sound b where
  stores type s hs := (h.stores type s hs).sound
  base l hl := by
    obtain ⟨l', hl', hid⟩ := h.base
    cases hl'.symm.trans hl
    exact hid

/-- One store is replaced, and nothing is on its way to the others that was not before. -/
theorem World.Converges.replace {b : LanguageId} {awaited awaited' : String → ItemId → Option Text}
    {w v : World} {t : Store} (h : w.Converges b awaited) (type : String)
    (hdirectory : v.directory = w.directory)
    (hstores : ∀ other, v.store? other = if other = type then some t else w.store? other)
    (ht : t.Converges b (awaited' type))
    (hawaited : ∀ other, other ≠ type → awaited' other = awaited other) :
    v.Converges b awaited' := by
  refine ⟨hdirectory ▸ h.base, fun other s hs => ?_⟩
  rw [hstores] at hs
  by_cases heq : other = type
  · rw [if_pos heq] at hs
    cases hs
    exact heq ▸ ht
  · rw [if_neg heq] at hs
    rw [hawaited other heq]
    exact h.stores other s hs

/-- A job that runs undisturbed and writes base texts, or into copies that wait for a text. -/
def Job.Tends (awaited : String → ItemId → Option Text) : Job → Prop
  | .create .. => False
  | .edit .. => False
  | .handle event => awaited event.contentType event.item ≠ none
  | _ => True

/-- The base records that were read are still in the stores. -/
structure Tended (b : LanguageId) (awaited : String → ItemId → Option Text) (past : List Heard)
    (w : World) : Prop where
  informed : Informed b w past
  world : w.Converges b awaited
  fresh : ∀ type item rs, (⟨.content type (.records item), .ok rs⟩ : Heard) ∈ past →
    ∀ rb ∈ rs, rb.language = b → ∀ s, w.store? type = some s → rb ∈ s.records

section

variable {b : LanguageId} {awaited : String → ItemId → Option Text} {past : List Heard}
  {w : World} {type : String} {s : Store} {job : Job}

theorem World.Converges.tended (h : w.Converges b awaited) : Tended b awaited [] w :=
  ⟨.nil b w, h, nofun⟩

theorem Tended.base_read (h : Tended b awaited past w) {item : ItemId} {base : LanguageId}
    {rs : List Record} {rb : Record} (hread : BaseRead past type item base rs rb)
    (hs : w.store? type = some s) :
    rb ∈ s.records ∧ rb.item = item ∧ rb.language = b ∧ base = b := by
  have hbase : base = b := h.informed.base hread
  have hlanguage : rb.language = b := (Copies.language_of_find? hread.found).trans hbase
  have hrb := List.mem_of_find?_eq_some hread.found
  obtain ⟨t, ht, hrs⟩ := h.informed.read type item rs hread.read
  exact ⟨h.fresh type item rs hread.read rb hrb hlanguage s hs, (hrs rb hrb).1, hlanguage, hbase⟩

theorem Tended.put_base_text (h : Tended b awaited past w) {item : ItemId} {base : LanguageId}
    {rs : List Record} {rb r : Record} (hread : BaseRead past type item base rs rb)
    (hs : w.store? type = some s) (hr : r ∈ s.records) (hitem : r.item = item)
    (hlanguage : r.language ≠ b) (actor : Actor) :
    (s.put r.id rb.text true actor).Converges b (awaited type) := by
  have hconverges := h.world.stores type s hs
  obtain ⟨hrb, hplace, hl, _⟩ := h.base_read hread hs
  refine hconverges.put hr hlanguage actor fun _ _ rb' hrb' hitem' hl' => ?_
  rw [hconverges.sound.eq_of_key hrb' hrb (hitem'.trans (hitem.trans hplace.symm))
    (hl'.trans hl.symm)]

theorem Tended.becomes (h : Tended b awaited past w) (hjob : job.Tends awaited) {q : Query}
    {t : Store} (hs : w.store? type = some s) (hgrounds : job.Grounds past (.content type q))
    (hbecomes : s.Becomes q t) :
    t.Converges b (awaited type) ∧ ∀ rb ∈ s.records, rb.language = b → rb ∈ t.records := by
  have hconverges := h.world.stores type s hs
  cases hbecomes with
  | same => exact ⟨hconverges, fun rb hrb _ => hrb⟩
  | inserted item drafts actor hitem hnodup hfree =>
      refine ⟨?_, fun rb hrb _ => List.mem_append_left _ hrb⟩
      have hsound := hconverges.sound.append actor hitem hnodup hfree
      cases hgrounds with
      | look hlooks => cases hlooks
      | given => cases hjob
      | derived => cases hjob
      | filled hpass hread _ =>
          obtain ⟨hrb, hplace, hl, _⟩ := h.base_read hread hs
          exact hconverges.append hrb hplace hl hsound
  | overwritten r text actor hr hfollows =>
      have hbase (hlanguage : r.language ≠ b) : ∀ rb ∈ s.records, rb.language = b →
          rb ∈ (s.put r.id text true actor).records :=
        fun rb hrb hl => hconverges.sound.mem_put_of_ne hr hrb (hl ▸ hlanguage)
      generalize hid : r.id = id at hgrounds hbase
      cases hgrounds with
      | look hlooks => cases hlooks
      | followed hnamed hread hmem =>
          obtain ⟨hmem, _, hlanguage⟩ := Copies.mem_among.mp hmem
          obtain ⟨hitem, hl⟩ := h.informed.place hread hs hmem hr hid
          have hl : r.language ≠ b := by rwa [hl, ← h.informed.named _ _ hnamed]
          refine ⟨?_, hbase hl⟩
          rw [← hid]
          exact hconverges.put hr hl _ fun _ hnone => absurd (hitem ▸ hnone) hjob
      | refreshed hpass hread hmem =>
          obtain ⟨hmem, _, hlanguage⟩ := Copies.mem_among.mp hmem
          obtain ⟨hitem, hl⟩ := h.informed.place hread.read hs hmem hr hid
          have hl : r.language ≠ b := by rwa [hl, ← h.informed.base hread]
          refine ⟨?_, hbase hl⟩
          rw [← hid]
          exact h.put_base_text hread hs hr hitem hl _
  | written r text follows actor hr =>
      have hbase (hlanguage : r.language ≠ b) : ∀ rb ∈ s.records, rb.language = b →
          rb ∈ (s.put r.id text follows actor).records :=
        fun rb hrb hl => hconverges.sound.mem_put_of_ne hr hrb (hl ▸ hlanguage)
      generalize hid : r.id = id at hgrounds hbase
      cases hgrounds with
      | look hlooks => cases hlooks
      | edited => cases hjob
      | unpinned hread hne hfind =>
          obtain ⟨hitem, hl⟩ :=
            h.informed.place hread.read hs (List.mem_of_find?_eq_some hfind) hr hid
          have hl : r.language ≠ b := by
            rw [hl, Copies.language_of_find? hfind, ← h.informed.base hread]
            exact hne.symm
          refine ⟨?_, hbase hl⟩
          rw [← hid]
          exact h.put_base_text hread hs hr hitem hl _

theorem Tended.at (h : Tended b awaited past w) (hjob : job.Tends awaited) {c : Call}
    (hgrounds : job.Grounds past c) (hs : w.store? type = some s) :
    (c.at w.directory type s).Converges b (awaited type) ∧
      ∀ rb ∈ s.records, rb.language = b → rb ∈ (c.at w.directory type s).records := by
  rcases c.becomes_at w.directory type s with heq | ⟨q, rfl, hbecomes⟩
  · rw [heq]
    exact ⟨h.world.stores type s hs, fun rb hrb _ => hrb⟩
  · exact h.becomes hjob hs hgrounds hbecomes

theorem Tended.answer (h : Tended b awaited past w) (hjob : job.Tends awaited) {c : Call}
    (hgrounds : job.Grounds past c) :
    Tended b awaited (⟨c, (World.answer c w).1⟩ :: past) (World.answer c w).2 := by
  refine ⟨?_, ⟨?_, ?_⟩, ?_⟩
  · refine (h.world.sound.informed_answer h.informed c).mono fun type s hs => ?_
    exact ⟨c.at w.directory type s, by rw [World.store?_answer, hs]; rfl, c.later_at⟩
  · rw [World.directory_answer]
    exact h.world.base
  · intro type t ht
    rw [World.store?_answer] at ht
    obtain ⟨s, hs, rfl⟩ := Option.map_eq_some_iff.mp ht
    exact (h.at hjob hgrounds hs).1
  · intro type item rs hread rb hrb hl t ht
    rw [World.store?_answer] at ht
    obtain ⟨s, hs, rfl⟩ := Option.map_eq_some_iff.mp ht
    refine (h.at hjob hgrounds hs).2 rb ?_ hl
    rcases List.mem_cons.mp hread with heq | hread
    · obtain ⟨s', hs', hreply⟩ := World.store?_of_reply (World.told heq)
      cases hs.symm.trans hs'
      rw [← Except.ok.inj hreply] at hrb
      exact (Store.mem_recordsOf.mp hrb).1
    · exact h.fresh type item rs hread rb hrb hl s hs

/-- A program on the grounds of such a job leaves the copies in order. -/
theorem World.Converges.run {α : Type} {post : List Heard → α → Prop} (h : w.Converges b awaited)
    (job : Job) (hjob : job.Tends awaited) {program : Service α}
    (hgrounded : program.Grounded job.Grounds post []) :
    (program.run World.answer w).2.Converges b awaited := by
  obtain ⟨later, hlater, _⟩ := hgrounded.run World.answer (Tended b awaited)
    (fun past c w h hc => h.answer hjob hc) h.tended
  exact hlater.world

end

end Polyglot

import Polyglot.Proofs.Pool.Settling

namespace Polyglot

namespace Pool

/-- Once the edits have ended and their events are handled, the copies, if there are any, hold the
base text if and only if the text that was written last was also published last. -/
theorem edits_agree_iff {w : World} {engine : Engine} {type : String} {item : ItemId}
    {b : LanguageId} {id : RecordId} {edits : List (Text × Actor)} {log : List Entry} {p : Pool}
    (hw : w.Sound b) (hready : w.Ready type item b id) (haccepting : engine.accepting = true)
    (hreceiving : engine.channel.receiving = true) (hqueue : engine.channel.queue = [])
    (hedits : edits ≠ []) (htexts : ∀ e ∈ edits, e.1.isEmpty = false)
    (hrun : Run Move.Internal
      ⟨w, engine, edits.map fun e => (Job.edit type item b e.1 e.2).task⟩ log p)
    (htasks : p.tasks = []) (hhandled : p.engine.channel.queue = []) :
    p.world.Agrees type item b ↔
      ((∃ r, p.world.Holds type r ∧ r.item = item ∧ r.IsCopy b) →
        (written log).head? = (published log).head?) := by
  let jobs := edits.map fun e => Job.edit type item b e.1 e.2
  have hjob {job : Job} (hmem : job ∈ jobs) :
      ∃ e ∈ edits, job = .edit type item b e.1 e.2 := by
    obtain ⟨e, he, rfl⟩ := List.mem_map.mp hmem
    exact ⟨e, he, rfl⟩
  have hstart : Race type item b id (edits.map (·.1)) [] [] ⟨w, engine, jobs.map Job.task⟩ := by
    refine .start hw hready haccepting hreceiving hqueue ?_ ?_ ?_
    · intro job hmem
      obtain ⟨e, he, rfl⟩ := hjob hmem
      exact .edit e.2 (List.mem_map_of_mem he)
    · intro job hmem
      obtain ⟨e, _, rfl⟩ := hjob hmem
      rfl
    · obtain ⟨e, he⟩ := List.exists_mem_of_ne_nil edits hedits
      exact ⟨e.1, e.2, List.mem_map_of_mem he⟩
  have hrun' : Run Move.Internal ⟨w, engine, jobs.map Job.task⟩ log p := by
    rw [List.map_map]
    exact hrun
  have hnonempty : ∀ text ∈ edits.map (·.1), text.isEmpty = false := by
    intro text hmem
    obtain ⟨e, he, rfl⟩ := List.mem_map.mp hmem
    exact htexts e he
  obtain ⟨wrote, _, last, _, hwrote, hlast, hbase, hcarries⟩ :=
    (hstart.run hnonempty hrun').ended htasks hhandled
  have hcopies {r : Record} (hr : p.world.Holds type r) (hitem : r.item = item)
      (hcopy : r.IsCopy b) : r.text = last := by
    rcases hcarries r hr hitem hcopy with htext | ⟨actor, hactor, _⟩
    · exact htext
    · cases hactor
  rw [hwrote, hlast]
  constructor
  · rintro hagrees ⟨r, hr, hitem, hcopy⟩
    rw [← hbase, hagrees r hr hitem hcopy, hcopies hr hitem hcopy]
  · intro horder r hr hitem hcopy
    rw [hbase, horder ⟨r, hr, hitem, hcopy⟩, hcopies hr hitem hcopy]

end Pool

namespace Bilingual

def editing : Pool :=
  ⟨site, engine,
    [(title "Welcome", "ann"), (title "Good day", "bob")].map fun e =>
      (Job.edit "page" 7 1 e.1 e.2).task⟩

/-- The second edit writes between the two steps of the first, and publishes before it. -/
def overtaking : List Turn :=
  List.replicate 4 (.task 0) ++ List.replicate 5 (.task 1) ++ .task 0 ::
    .take :: List.replicate 5 (.task 0) ++ .take :: List.replicate 5 (.task 0)

/-- The second edit writes between the two steps of the first, and publishes after it. -/
def inTurn : List Turn :=
  List.replicate 4 (.task 0) ++ List.replicate 4 (.task 1) ++ .task 0 :: .task 0 ::
    .take :: List.replicate 5 (.task 0) ++ .take :: List.replicate 5 (.task 0)

end Bilingual

namespace Pool

open Bilingual in
theorem edits_agree_in_turn :
    Run Move.Internal editing (editing.play inTurn).1 (editing.play inTurn).2 ∧
      (written (editing.play inTurn).1).head? = (published (editing.play inTurn).1).head? ∧
      (editing.play inTurn).2.world.Agrees "page" 7 1 := by
  obtain ⟨hrun, htasks, hhandled⟩ := run_of_ended editing inTurn (by cbv)
  have horder :
      (written (editing.play inTurn).1).head? = (published (editing.play inTurn).1).head? := by
    cbv
  refine ⟨hrun, horder, (edits_agree_iff sound_site ready_site rfl rfl rfl ?_ ?_ hrun htasks
    hhandled).mpr fun _ => horder⟩
  · exact List.cons_ne_nil _ _
  · decide

open Bilingual in
theorem overwritten_edit_reaches_copy :
    Run Move.Internal editing (editing.play overtaking).1 (editing.play overtaking).2 ∧
      (editing.play overtaking).2.tasks = [] ∧
      (editing.play overtaking).2.engine.channel.queue = [] ∧
      (editing.play overtaking).2.world.text? "page" 7 1 = some (title "Good day") ∧
      (editing.play overtaking).2.world.record? "page" 2 =
        some ⟨2, 7, 2, title "Welcome", true, "ann", "ann", 0, 4⟩ ∧
      ¬ (editing.play overtaking).2.world.Agrees "page" 7 1 := by
  obtain ⟨hrun, htasks, hhandled⟩ := run_of_ended editing overtaking (by cbv)
  have hbase : (editing.play overtaking).2.world.text? "page" 7 1 = some (title "Good day") := by
    cbv
  have hcopy : (editing.play overtaking).2.world.record? "page" 2 =
      some ⟨2, 7, 2, title "Welcome", true, "ann", "ann", 0, 4⟩ := by
    cbv
  refine ⟨hrun, htasks, hhandled, hbase, hcopy, World.not_agrees hbase hcopy rfl ?_ ?_⟩
  · exact ⟨rfl, by decide⟩
  · decide

end Pool

end Polyglot

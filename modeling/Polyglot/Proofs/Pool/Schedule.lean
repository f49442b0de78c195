import Mathlib
import Polyglot.Proofs.Pool.Basic

namespace Polyglot

inductive Turn where
  | start (job : Job)
  | task (place : Nat)
  | take
  | change (c : Change)

namespace Pool

/-- The step of a turn, if there is one to make. -/
def turn? (p : Pool) : Turn → Option (Move × Pool)
  | .start job => some (.start job, { p with tasks := p.tasks ++ [job.task] })
  | .task place =>
      match p.tasks.drop place with
      | [] => none
      | ⟨job, past, .ask c next⟩ :: after =>
          let (reply, world) := World.answer c p.world
          let task : Task := ⟨job, ⟨c, reply⟩ :: past, next reply⟩
          some (.call job c, { p with world, tasks := p.tasks.take place ++ task :: after })
      | ⟨job, _, .done f⟩ :: after =>
          some (.finish job, { p with engine := f p.engine, tasks := p.tasks.take place ++ after })
  | .take =>
      match p.tasks.any (·.job.isHandler), p.engine.channel.receive with
      | false, (.event event, channel) =>
          some (.take event,
            { p with
              engine := { p.engine with channel }
              tasks := p.tasks ++ [(Job.handle event).task] })
      | _, _ => none
  | .change c => some (.change c, { p with world := c.apply p.world })

/-- Makes the step of one more turn, unless there is none to make. -/
def advance (r : List Entry × Pool) (turn : Turn) : List Entry × Pool :=
  match r.2.turn? turn with
  | none => r
  | some (m, q) => (⟨m, r.2.world, q.world⟩ :: r.1, q)

def play (p : Pool) (schedule : List Turn) : List Entry × Pool := schedule.foldl advance ([], p)

variable {p q : Pool} {m : Move} {turn : Turn}

theorem step_of_turn? (h : p.turn? turn = some (m, q)) : Step p m q := by
  cases turn with
  | start job =>
      cases h
      exact .start p job
  | task place =>
      have hsplit := (List.take_append_drop place p.tasks).symm
      simp only [turn?] at h
      split at h
      · cases h
      · rename_i hdrop
        cases h
        exact .call p _ _ _ _ _ _ (hdrop ▸ hsplit)
      · rename_i hdrop
        cases h
        exact .finish p _ _ _ _ _ (hdrop ▸ hsplit)
  | take =>
      simp only [turn?] at h
      split at h
      · rename_i hidle hreceive
        cases h
        refine .take p _ _ (fun t ht => ?_) hreceive
        simpa using List.any_eq_false.mp hidle t ht
      · cases h
  | change c =>
      cases h
      exact .change p c

theorem run_play {allowed : Move → Prop} {schedule : List Turn}
    (h : ∀ e ∈ (p.play schedule).1, allowed e.move) :
    Run allowed p (p.play schedule).1 (p.play schedule).2 := by
  induction schedule using List.reverseRecOn with
  | nil => exact .refl
  | append_singleton earlier turn ih =>
      have hplay : p.play (earlier ++ [turn]) = advance (p.play earlier) turn := by
        simp [play]
      rw [hplay] at h ⊢
      unfold advance at h ⊢
      split at h
      · exact ih h
      · rename_i m q hturn
        exact .step (ih fun e he => h e (List.mem_cons_of_mem _ he))
          (h _ List.mem_cons_self) (step_of_turn? hturn)

theorem step_play (h : (p.play [turn]).1.map (·.move) = [m]) : Step p m (p.play [turn]).2 := by
  simp only [play, List.foldl_cons, List.foldl_nil, advance] at h ⊢
  split at h
  · cases h
  · rename_i m' q hturn
    cases h
    exact step_of_turn? hturn

end Pool

namespace Bilingual

def directory : Directory :=
  ⟨[⟨1, "en", "English", true, false⟩, ⟨2, "fr", "French", true, false⟩], "en"⟩

def title (text : String) : Text := .ofList [("title", text)]

def pool : Pool := .initial ["page"] directory (.start ⟨[("page", 5)]⟩ "sync")

/-- A page gets its English title and the copy of it, and then another English title that nobody
has copied yet. -/
def outdated : List Turn :=
  .change (.addItem "page" 7) :: .start (.create "page" 7 [⟨1, title "Hello"⟩] "ann") ::
    List.replicate 7 (.task 0) ++
    .start (.edit "page" 7 1 (title "Welcome") "ann") :: List.replicate 5 (.task 0)

end Bilingual

end Polyglot

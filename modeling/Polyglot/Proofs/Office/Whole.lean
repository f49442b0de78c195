import Polyglot.Proofs.Office.Handles

namespace Polyglot

namespace Engine

theorem letGo_hold (e : Engine) (h : Handle) : (e.hold h).letGo h = e := by
  cases h <;> rfl

theorem letGo_publish_hold (e : Engine) (h : Handle) (event : Event) :
    ((e.hold h).publish h event).letGo h = e.publish h event := by
  cases h with
  | closed => rfl
  | joined =>
      rw [publish_eq, publish_eq]
      have haccepts : (e.hold .joined).accepts .joined = e.accepts .joined := rfl
      rw [haccepts]
      cases e.accepts .joined <;> rfl

end Engine

namespace Office

variable {σ : Type}

section

variable (answer : (c : Call) → σ → c.Reply × σ)

/-- A run comes to this engine and these stores, and to nothing else but what is written down. -/
def Performs (o : Office σ) (out : Engine × σ) : Prop :=
  ∃ acts, o.run answer acts =
    { o with engine := out.1, stores := out.2, log := (o.run answer acts).log }

/-- Where the backend answers a call, it answers as in the run. -/
def Follows (backend : Backend σ) : Prop :=
  ∀ c s reply s', backend c s = (some reply, s') → answer c s = (reply, s')

end

section Worker

variable {answer : (c : Call) → σ → c.Reply × σ} {backend : Backend σ}

/-- A handler goes on to its end, or to the call that is not answered. -/
theorem run_handler (hbackend : Follows answer backend) (o : Office σ) (event : Event)
    (rest : Service Propagation.Outcome) :
    let out := rest.attempt backend o.stores
    ∃ acts, { o with worker := .busy event rest }.run answer acts =
      { o with stores := out.2 }.settle event out.1 := by
  induction rest generalizing o with
  | done outcome => exact ⟨[.work], rfl⟩
  | ask c next ih =>
      intro out
      cases hcall : backend c o.stores with
      | mk reply s =>
          cases reply with
          | some reply =>
              have hout : out = (next reply).attempt backend s := by
                simp only [out, Program.attempt, hcall]
              obtain ⟨acts, hacts⟩ := ih reply { o with stores := s }
              refine ⟨.work :: acts, ?_⟩
              rw [run_cons, step, work]
              simp only [hbackend c _ _ _ hcall]
              rw [hacts, hout]
          | none =>
              have hout : out = (none, s) := by
                simp only [out, Program.attempt, hcall]
              rw [hout]
              exact ⟨[.meanwhile fun _ => s, .panic], rfl⟩

theorem performs_work (hbackend : Follows answer backend) {o : Office σ}
    (hidle : o.worker = .idle) :
    o.Performs answer (o.engine.work backend o.stores) := by
  rw [Engine.work]
  split
  · rename_i event channel hreceive
    rw [Engine.dispatch]
    dsimp only
    split
    · rename_i htype
      obtain ⟨acts, hacts⟩ := run_handler hbackend
        { o with engine := { o.engine with channel } } event
        (Flow.on event.contentType (Propagation.handle event))
      refine ⟨.work :: acts, ?_⟩
      rw [run_cons, step, work, hidle]
      simp only [hreceive, htype, if_true]
      rw [hacts, settle, hidle]
    · rename_i htype
      refine ⟨[.work], ?_⟩
      rw [run_cons, step, work, hidle]
      simp only [hreceive, htype]
      rw [run_nil, if_neg Bool.false_ne_true]
      rfl
  · exact ⟨[], rfl⟩

theorem Performs.trans {o : Office σ} {out out' : Engine × σ} (h : o.Performs answer out)
    (h' : ∀ log, { o with engine := out.1, stores := out.2, log }.Performs answer out') :
    o.Performs answer out' := by
  obtain ⟨acts, hacts⟩ := h
  obtain ⟨later, hlater⟩ := h' (o.run answer acts).log
  rw [← hacts] at hlater
  refine ⟨acts ++ later, ?_⟩
  rw [run_append, hlater, hacts]

/-- The queue is drained by a run. -/
theorem performs_drain (hbackend : Follows answer backend) {o : Office σ}
    (hidle : o.worker = .idle) :
    o.Performs answer (o.engine.drain backend o.stores) := by
  rw [Engine.drain]
  generalize o.engine.channel.queue.length = turns
  induction turns with
  | zero => exact ⟨[], rfl⟩
  | succ turns ih => exact ih.trans fun log => performs_work hbackend hidle

end Worker

section Editor

variable (answer : (c : Call) → σ → c.Reply × σ)

def joinedBy (o : Office σ) (editor : Editor) : Office σ :=
  { o with editors := o.editors ++ [editor] }

def afterEdit (o : Office σ) (holder : Holder) : Edit.Result → Office σ
  | .ok (_, some event) =>
      let o := o.publish holder event
      { o with engine := o.engine.letGo holder.handle }
  | _ => { o with engine := o.engine.letGo holder.handle }

theorem editor_last (o : Office σ) (editor : Editor) :
    (o.joinedBy editor).editors[o.editors.length]? = some editor :=
  List.getElem?_concat_length

theorem dismiss_last (o : Office σ) (editor : Editor) :
    (o.joinedBy editor).dismiss o.editors.length =
      { o with engine := o.engine.letGo editor.holder.handle } := by
  simp [dismiss, joinedBy, List.eraseIdx_append_of_length_le]

theorem advance_end (o : Office σ) (holder : Holder) (report : Edit.Report) :
    (o.joinedBy ⟨holder, .done (.ok (report, none))⟩).step answer (.advance o.editors.length) =
      { o with engine := o.engine.letGo holder.handle } := by
  rw [step, advance, editor_last]
  exact dismiss_last o _

theorem run_editor (o : Office σ) (holder : Holder) (rest : Service Edit.Result) :
    let out := rest.run answer o.stores
    ∃ acts, (o.joinedBy ⟨holder, rest⟩).run answer acts =
      { o with stores := out.2 }.afterEdit holder out.1 := by
  induction rest generalizing o with
  | done result =>
      rcases result with error | ⟨report, _ | event⟩
      · refine ⟨[.advance o.editors.length], ?_⟩
        rw [run_cons, run_nil, step, advance, editor_last]
        exact dismiss_last o _
      · exact ⟨[.advance o.editors.length], advance_end answer o holder report⟩
      · have hpublish : (o.joinedBy ⟨holder, .done (.ok (report, some event))⟩).step answer
            (.advance o.editors.length) =
              (o.publish holder event).joinedBy ⟨holder, .done (.ok (report, none))⟩ := by
          rw [step, advance, editor_last]
          simp [joinedBy, publish]
        refine ⟨[.advance o.editors.length, .advance o.editors.length], ?_⟩
        rw [run_cons, hpublish]
        exact advance_end answer (o.publish holder event) holder report
  | ask c next ih =>
      intro out
      have hask : (o.joinedBy ⟨holder, .ask c next⟩).step answer (.advance o.editors.length) =
          { o with stores := (answer c o.stores).2 }.joinedBy
            ⟨holder, next (answer c o.stores).1⟩ := by
        rw [step, advance, editor_last]
        simp [joinedBy]
      obtain ⟨acts, hacts⟩ := ih (answer c o.stores).1 { o with stores := (answer c o.stores).2 }
      refine ⟨.advance o.editors.length :: acts, ?_⟩
      rw [run_cons, hask, hacts]
      rfl

theorem performs_edit (o : Office σ) (type : String) (item : ItemId) (language : LanguageId)
    (text : Text) (actor : Actor) :
    let out := (o.engine.edit type item language text actor).run answer o.stores
    o.Performs answer (out.1.2, out.2) := by
  by_cases htype : o.engine.registry.has type = true
  · obtain ⟨acts, hacts⟩ := run_editor answer
      { o with engine := o.engine.hold o.engine.handle } o.engine.handOut
      (o.engine.within type (Edit.edit type item language text actor))
    refine ⟨.begin type item language text actor :: acts, ?_⟩
    have hbegin : o.step answer (.begin type item language text actor) =
        { o with engine := o.engine.hold o.engine.handle }.joinedBy
          ⟨o.engine.handOut, o.engine.within type (Edit.edit type item language text actor)⟩ := by
      rw [step, begin, if_pos htype]
      rfl
    rw [run_cons, hbegin, hacts, Engine.edit, Program.run_bind]
    generalize (o.engine.within type (Edit.edit type item language text actor)).run answer
      o.stores = out
    obtain ⟨error | ⟨report, _ | event⟩, stores⟩ := out
    · simp only [afterEdit, Engine.handOut, Engine.letGo_hold]
      rfl
    · simp only [afterEdit, Engine.handOut, Engine.letGo_hold]
      rfl
    · simp only [afterEdit, publish, Engine.handOut, Engine.letGo_publish_hold]
      rfl
  · refine ⟨[], ?_⟩
    rw [run_nil, Engine.edit, Engine.within, if_neg htype]
    rfl

end Editor

section Shutdown

variable (answer : (c : Call) → σ → c.Reply × σ)

/-- A worker that has nothing to receive from anyone ends. -/
theorem step_stop {o : Office σ} (hidle : o.worker = .idle)
    (hreceiving : o.engine.channel.receiving = true) (hqueue : o.engine.channel.queue = [])
    (hhandles : o.engine.channel.handles = 0) :
    o.step answer .work = { o with
      engine := { o.engine with channel := o.engine.channel.dropReceiver }, worker := .ended } := by
  have hreceive : o.engine.channel.receive = (.closed, o.engine.channel) := by
    simp [Channel.receive, hreceiving, hqueue, hhandles]
  rw [step, work, hidle]
  simp only [hreceive]

/-- A shutdown is performed by the acts of one call of it, which comes back if the worker ends. -/
theorem run_shutdown {backend : Backend σ} (hbackend : Follows answer backend) {o : Office σ}
    (hkept : Kept o) (hidle : o.worker = .idle) (hclosing : o.closing = ⟨0, true, false⟩) :
    let out := o.engine.shutdown backend o.stores
    ∃ acts, (o.run answer acts).engine = out.1 ∧ (o.run answer acts).stores = out.2 ∧
      (out.1.channel.receiving = false → .shutDown true ∈ (o.run answer acts).log) := by
  let begun : Office σ :=
    { o with engine := o.engine.stopAccepting, closing := ⟨0, false, true⟩ }
  have hbegin : o.run answer [.close, .claim] = begun := by
    simp only [run_cons, run_nil, step, claim, hclosing, begun]
  have hidle₁ : begun.worker = .idle := hidle
  obtain ⟨acts, hacts⟩ := performs_drain hbackend hidle₁
  have hrun := (congrArg (run answer · acts) hbegin).trans hacts
  rw [← run_append] at hrun
  dsimp only [begun] at hrun
  rw [Engine.shutdown]
  generalize o.engine.stopAccepting.drain backend o.stores = drained at hrun
  generalize hlast : o.run answer ([.close, .claim] ++ acts) = last at hrun
  have hdrained : Kept last := hlast ▸ hkept.run answer _
  have hidle' : last.worker = .idle := by rw [hrun]; exact hidle
  have hreceiving : drained.1.channel.receiving = true := by
    have hreceiving := hdrained.receiving
    rwa [hidle', hrun] at hreceiving
  dsimp only
  rw [Engine.stopWorker]
  split
  · rename_i hstop
    rw [Bool.and_eq_true, List.isEmpty_iff, beq_iff_eq] at hstop
    have hengine : last.engine = drained.1 := by rw [hrun]
    have hwork := step_stop answer hidle' (by rw [hengine, hreceiving])
      (by rw [hengine, hstop.1]) (by rw [hengine, hstop.2])
    have hwaiting : last.closing.waiting = true := by rw [hrun]
    refine ⟨[.close, .claim] ++ acts ++ [.work, .await], ?_⟩
    rw [run_append, hlast, run_cons, run_cons, run_nil, hwork, step, await]
    simp only [hwaiting, Worker.hasEnded, Bool.and_self, if_true, note]
    refine ⟨by rw [hengine], by rw [hrun], fun _ => ?_⟩
    exact List.mem_append_right _ (List.mem_singleton_self _)
  · refine ⟨[.close, .claim] ++ acts, ?_⟩
    rw [hlast, hrun]
    refine ⟨rfl, rfl, fun hended => ?_⟩
    rw [hreceiving] at hended
    cases hended

end Shutdown

end Office

end Polyglot

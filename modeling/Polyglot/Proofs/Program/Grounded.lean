import Mathlib.Data.List.Infix
import Polyglot.Flow.Query

/-!
What a program asks, whoever answers. A question is judged by the answers that the program was
given before it, so that what a flow may ask is settled once, apart from any store and from
anybody who interferes.
-/

namespace Polyglot

structure Answered (Q : Type) (A : Q → Type) where
  question : Q
  answer : A question

namespace Program

variable {Q : Type} {A : Q → Type} {α β σ : Type}

/-- Whatever the answers are, each question has its `grounds` in the answers before it, and
`post` holds of all answers and the result. The newest stands first. -/
def Grounded (grounds : List (Answered Q A) → Q → Prop)
    (post : List (Answered Q A) → α → Prop) :
    Program Q A α → List (Answered Q A) → Prop
  | .done a, past => post past a
  | .ask q next, past =>
      grounds past q ∧ ∀ answer, (next answer).Grounded grounds post (⟨q, answer⟩ :: past)

section

variable {grounds : List (Answered Q A) → Q → Prop} {post : List (Answered Q A) → α → Prop}
  {past : List (Answered Q A)}

@[simp] theorem grounded_done (a : α) :
    (done a : Program Q A α).Grounded grounds post past ↔ post past a := Iff.rfl

@[simp] theorem grounded_ask (q : Q) (next : A q → Program Q A α) :
    (ask q next).Grounded grounds post past ↔
      grounds past q ∧ ∀ answer, (next answer).Grounded grounds post (⟨q, answer⟩ :: past) :=
  Iff.rfl

theorem Grounded.weaken {grounds' : List (Answered Q A) → Q → Prop}
    {post' : List (Answered Q A) → α → Prop} {p : Program Q A α}
    (h : p.Grounded grounds post past)
    (hgrounds : ∀ past q, grounds past q → grounds' past q)
    (hpost : ∀ past a, post past a → post' past a) : p.Grounded grounds' post' past := by
  induction p generalizing past with
  | done a => exact hpost past a h
  | ask q next ih => exact ⟨hgrounds past q h.1, fun answer => ih answer (h.2 answer)⟩

theorem Grounded.remembers {p : Program Q A α} (h : p.Grounded grounds post past) :
    p.Grounded grounds (fun later a => past <:+ later ∧ post later a) past := by
  induction p generalizing past with
  | done a => exact ⟨List.suffix_refl past, h⟩
  | ask q next ih =>
      refine ⟨h.1, fun answer => (ih answer (h.2 answer)).weaken (fun _ _ h => h) ?_⟩
      rintro later a ⟨hsuffix, hpost⟩
      exact ⟨(List.suffix_cons _ _).trans hsuffix, hpost⟩

/-- Whatever was heard on the way was asked on good grounds. -/
theorem Grounded.heard {p : Program Q A α} (h : p.Grounded grounds post past) :
    p.Grounded grounds (fun later a => post later a ∧
      ∀ x ∈ later, x ∈ past ∨ ∃ older, grounds older x.question) past := by
  induction p generalizing past with
  | done a => exact ⟨h, fun x hx => Or.inl hx⟩
  | ask q next ih =>
      refine ⟨h.1, fun answer => (ih answer (h.2 answer)).weaken (fun _ _ h => h) ?_⟩
      rintro later a ⟨hpost, hheard⟩
      refine ⟨hpost, fun x hx => ?_⟩
      rcases hheard x hx with hx | hx
      · rcases List.mem_cons.mp hx with rfl | hx
        · exact Or.inr ⟨past, h.1⟩
        · exact Or.inl hx
      · exact Or.inr hx

theorem Grounded.bind {m : List (Answered Q A) → β → Prop} {p : Program Q A β}
    {f : β → Program Q A α} (h : p.Grounded grounds m past)
    (hf : ∀ later b, past <:+ later → m later b → (f b).Grounded grounds post later) :
    (p >>= f).Grounded grounds post past := by
  induction p generalizing past with
  | done b => exact hf past b (List.suffix_refl past) h
  | ask q next ih =>
      refine ⟨h.1, fun answer => ih answer (h.2 answer) ?_⟩
      intro later b hsuffix hmid
      exact hf later b ((List.suffix_cons _ _).trans hsuffix) hmid

/-- An invariant that every question on good grounds keeps holds at the end of a run. -/
theorem Grounded.run {p : Program Q A α} {s : σ} (h : p.Grounded grounds post past)
    (answer : (q : Q) → σ → A q × σ) (inv : List (Answered Q A) → σ → Prop)
    (hkeep : ∀ past q s, inv past s → grounds past q →
      inv (⟨q, (answer q s).1⟩ :: past) (answer q s).2)
    (hinv : inv past s) :
    ∃ later, inv later (p.run answer s).2 ∧ post later (p.run answer s).1 := by
  induction p generalizing past s with
  | done a => exact ⟨past, hinv, h⟩
  | ask q next ih => exact ih _ (h.2 _) (hkeep past q s hinv h.1)

end

end Program

namespace Flow

variable {α β : Type} {type : String}

@[simp] theorem on_done (a : α) : Flow.on type (.done a) = .done a := rfl

@[simp] theorem on_ask (q : Query) (next : q.Reply → Flow α) :
    Flow.on type (.ask q next) = .ask (.content type q) fun reply => Flow.on type (next reply) :=
  rfl

theorem on_bind (f : Flow β) (g : β → Flow α) :
    Flow.on type (f >>= g) = Flow.on type f >>= fun b => Flow.on type (g b) := by
  induction f with
  | done b => rfl
  | ask q next ih =>
      simp only [Program.ask_bind, on_ask]
      congr 1
      funext reply
      exact ih reply

end Flow

abbrev Heard := Answered Call Call.Reply

namespace Program

variable {α β : Type} {grounds : List Heard → Call → Prop} {past : List Heard} {type : String}

/-- An attempt goes on only after a success, and ends as it is at a failure. -/
theorem Grounded.attempt {m : List Heard → Except Error β → Prop}
    {post : List Heard → Except Error α → Prop} {x : Attempt β} {f : β → Attempt α}
    (h : (Flow.on type x.run).Grounded grounds m past)
    (hok : ∀ later b, past <:+ later → m later (.ok b) →
      (Flow.on type (f b).run).Grounded grounds post later)
    (herror : ∀ later e, past <:+ later → m later (.error e) → post later (.error e)) :
    (Flow.on type (x >>= f).run).Grounded grounds post past := by
  rw [ExceptT.run_bind, Flow.on_bind]
  refine h.bind ?_
  rintro later (e | b) hsuffix hmid
  · exact herror later e hsuffix hmid
  · exact hok later b hsuffix hmid

theorem Grounded.lift {m : List Heard → β → Prop}
    {post : List Heard → Except Error α → Prop} {flow : Flow β} {f : β → Attempt α}
    (h : (Flow.on type flow).Grounded grounds m past)
    (hok : ∀ later b, past <:+ later → m later b →
      (Flow.on type (f b).run).Grounded grounds post later) :
    (Flow.on type ((liftM flow : Attempt β) >>= f).run).Grounded grounds post past := by
  change (Flow.on type (ExceptT.lift flow >>= f).run).Grounded grounds post past
  rw [ExceptT.run_bind_lift, Flow.on_bind]
  exact h.bind hok

theorem Grounded.lifted {flow : Flow β}
    (h : (Flow.on type flow).Grounded grounds (fun _ _ => True) past) :
    (Flow.on type (liftM flow : Attempt β).run).Grounded grounds (fun _ _ => True) past := by
  change (Flow.on type (ExceptT.lift flow).run).Grounded grounds _ past
  rw [ExceptT.run_lift, map_eq_pure_bind, Flow.on_bind]
  exact h.bind fun _ _ _ _ => trivial

theorem Grounded.query {post : List Heard → α → Prop} {q : Query} {g : q.Reply → Flow α}
    (hq : grounds past (.content type q))
    (h : ∀ reply, (Flow.on type (g reply)).Grounded grounds post
      (⟨.content type q, reply⟩ :: past)) :
    (Flow.on type ((Flow.demand q).run >>= g)).Grounded grounds post past := ⟨hq, h⟩

theorem Grounded.demand {post : List Heard → Except Error α → Prop} {q : Query}
    {f : q.Answer → Attempt α} (hq : grounds past (.content type q))
    (herror : ∀ e, post (⟨.content type q, .error e⟩ :: past) (.error e))
    (hok : ∀ a, (Flow.on type (f a).run).Grounded grounds post
      (⟨.content type q, .ok a⟩ :: past)) :
    (Flow.on type (Flow.demand q >>= f).run).Grounded grounds post past := by
  rw [Flow.run_demand_bind, Flow.on_ask]
  refine ⟨hq, fun reply => ?_⟩
  cases reply with
  | error e => exact herror e
  | ok a => exact hok a

end Program

end Polyglot

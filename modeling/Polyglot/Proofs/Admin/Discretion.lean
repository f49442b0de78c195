import Polyglot.Admin.Surface
import Polyglot.Proofs.Admin.Wire
import Polyglot.Store.Intervention

namespace Polyglot.Admin

def Request.Metered (r : Request) : Prop :=
  target r.path = .route .metrics ∧ (r.method = "GET" ∨ r.method = "HEAD")

/-- What a route tells a request without the key, where the counters stand at `reading`. -/
def Route.discreet (reading : Metrics.Reading) : Route → Answer
  | .health => .health
  | .metrics => .metrics reading
  | .reconcile _ => .unauthorized
  | .backfill _ => .unauthorized

def discreet (r : Request) (reading : Metrics.Reading) : Answer :=
  match target r.path with
  | .nowhere => .noRoute
  | .undecodable method => if r.method = method then .badPath else .wrongMethod
  | .route route =>
      if r.method = route.method then route.discreet reading
      else if r.method = "HEAD" ∧ route.method = "GET" then .headersOnly
      else .wrongMethod

variable {key : String} {r : Request}

theorem serve_of_keyless {headers : List Header} (h : Keyless key headers) (e : Engine)
    (route : Route) :
    serve (some key) headers e route = .done (route.discreet e.metrics.read, e) := by
  have hverify := (verify_eq_false_iff key headers).mpr h
  cases route with
  | health => rfl
  | metrics => rfl
  | reconcile type =>
      rw [serve, hverify]
      rfl
  | backfill code =>
      rw [serve, hverify]
      rfl

/-- The answer comes at once, without a call to a store. -/
theorem respond_of_keyless (h : Keyless key r.headers) (e : Engine) :
    respond (some key) e r = .done (discreet r e.metrics.read, e) := by
  rw [respond, discreet]
  cases target r.path with
  | nowhere => rfl
  | undecodable method => rfl
  | route route =>
      dsimp only
      split
      · exact serve_of_keyless h e route
      · split <;> rfl

theorem discreet_of_not_metered (h : ¬r.Metered) (reading reading' : Metrics.Reading) :
    discreet r reading = discreet r reading' := by
  rw [discreet, discreet]
  cases htarget : target r.path with
  | nowhere => rfl
  | undecodable method => rfl
  | route route =>
      cases route with
      | metrics =>
          have hget : r.method ≠ Route.metrics.method := fun hget => h ⟨htarget, Or.inl hget⟩
          dsimp only
          rw [if_neg hget, if_neg hget]
      | _ => rfl

/-- Without the key nothing changes, and the answer is the same in every state of the engine and
its stores unless it is about the counters. The flows answer 401, whatever they are asked for. -/
theorem discretion_of_keyless (h : Keyless key r.headers) :
    (∀ (σ : Type) (backend : Backend σ) (e : Engine) (s : σ), ∃ answer,
      (respond (some key) e r).attempt backend s = (some (answer, e), s)) ∧
    (¬r.Metered → ∃ answer, ∀ (σ : Type) (backend : Backend σ) (e : Engine) (s : σ),
      (respond (some key) e r).attempt backend s = (some (answer, e), s)) ∧
    (r.method = "POST" →
      ((∃ type, target r.path = .route (.reconcile type)) ∨
        ∃ code, target r.path = .route (.backfill code)) →
      ∃ answer : Answer, answer.status = 401 ∧ answer.error? = some "unauthorized" ∧
        ∀ (σ : Type) (backend : Backend σ) (e : Engine) (s : σ),
          (respond (some key) e r).attempt backend s = (some (answer, e), s)) := by
  refine ⟨fun σ backend e s => ⟨_, by rw [respond_of_keyless h]; rfl⟩, fun hmetered => ?_,
    fun hmethod hflow => ⟨.unauthorized, rfl, rfl, fun σ backend e s => ?_⟩⟩
  · refine ⟨discreet r Metrics.zero.read, fun σ backend e s => ?_⟩
    rw [respond_of_keyless h, discreet_of_not_metered hmetered _ Metrics.zero.read]
    rfl
  · have hanswer : discreet r e.metrics.read = .unauthorized := by
      rw [discreet]
      rcases hflow with ⟨type, htarget⟩ | ⟨code, htarget⟩
      · rw [htarget]
        exact if_pos hmethod
      · rw [htarget]
        exact if_pos hmethod
    rw [respond_of_keyless h, hanswer]
    rfl

/-- One byte of the key is wrong. Whether there is such a content type or language does not show. -/
theorem wrong_key_turned_away :
    let headers : List Header := [⟨"X-Api-Key", [107, 51, 120]⟩]
    Keyless "k3y" headers ∧
      ∀ path ∈ ["/admin/reconcile/no%20page", "/admin/languages/xx/backfill"],
        ∃ answer : Answer, answer.status = 401 ∧ answer.error? = some "unauthorized" ∧
          ∀ (e : Engine) (s : Stage),
            (respond (some "k3y") e ⟨"POST", path, headers⟩).attempt Stage.answer s =
              (some (answer, e), s) := by
  intro headers
  have hkeyless : Keyless "k3y" headers := (verify_eq_false_iff _ _).mp (by decide +kernel)
  have hreconcile : target "/admin/reconcile/no%20page" = .route (.reconcile "no page") := by
    have hparameter : parameter? "no%20page" = some "no page" := by decide +kernel
    have htarget := target_reconcile "no%20page" (by decide) (by simp [Plain])
    rw [withParameter, hparameter] at htarget
    exact htarget
  have hbackfill : target "/admin/languages/xx/backfill" = .route (.backfill "xx") := by
    have hparameter : parameter? "xx" = some "xx" := by decide +kernel
    have htarget := target_backfill "xx" (by simp [Plain])
    rw [withParameter, hparameter] at htarget
    exact htarget
  refine ⟨hkeyless, fun path hpath => ?_⟩
  have hflow : (∃ type, target path = .route (.reconcile type)) ∨
      ∃ code, target path = .route (.backfill code) := by
    simp only [List.mem_cons, List.not_mem_nil, or_false] at hpath
    rcases hpath with rfl | rfl
    · exact Or.inl ⟨_, hreconcile⟩
    · exact Or.inr ⟨_, hbackfill⟩
  obtain ⟨answer, hstatus, herror, hanswer⟩ :=
    (discretion_of_keyless (r := ⟨"POST", path, headers⟩) hkeyless).2.2 rfl hflow
  exact ⟨answer, hstatus, herror, hanswer Stage Stage.answer⟩

end Polyglot.Admin

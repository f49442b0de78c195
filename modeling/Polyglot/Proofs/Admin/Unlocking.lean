import Polyglot.Proofs.Admin.Discretion
import Polyglot.Proofs.Engine.Passes
import Polyglot.Proofs.Setup.Schedule

namespace Polyglot

theorem Config.adminKey_of_ofEnvironment {env : String → Option String} {c : Config}
    (h : ofEnvironment env = .ok c) : c.adminKey = (env "ADMIN_API_KEY").filter (!isBlank ·) := by
  obtain ⟨c', hread, h⟩ := SetupError.bind_eq_ok_iff.mp h
  obtain ⟨_, -, h⟩ := SetupError.bind_eq_ok_iff.mp h
  cases h
  simp only [read] at hread
  split at hread
  · cases hread
  · cases hread
    rfl

namespace Admin

section Ascii

def Ascii (text : String) : Prop := ∀ c ∈ text.toList, c.toNat < 128

theorem bytesOf_eq (text : String) : bytesOf text = text.toList.flatMap String.utf8EncodeChar := by
  rw [bytesOf, ← String.utf8Encode_toList, List.utf8Encode, List.toList_data_toByteArray]

theorem utf8EncodeChar_of_ascii {c : Char} (h : c.toNat < 128) :
    String.utf8EncodeChar c = [UInt8.ofNat c.toNat] :=
  if_pos (Nat.le_of_lt_succ h)

/-- The encoding of any other character ends in a byte that is no ASCII. -/
theorem exists_byte_of_not_ascii {c : Char} (h : ¬ c.toNat < 128) :
    ∃ b ∈ String.utf8EncodeChar c, ¬ b.toNat < 128 := by
  have hlong : ¬ c.val.toNat ≤ 127 := fun hle => h (Nat.lt_succ_of_le hle)
  have hlast : ¬ (UInt8.ofNat (c.val.toNat % 64 + 128)).toNat < 128 := by
    rw [UInt8.toNat_ofNat']
    omega
  rw [String.utf8EncodeChar.eq_1, if_neg hlong]
  split_ifs
  · exact ⟨_, by simp, hlast⟩
  · exact ⟨_, by simp, hlast⟩
  · exact ⟨_, by simp, hlast⟩

theorem ascii_iff {text : String} : Ascii text ↔ ∀ b ∈ bytesOf text, b.toNat < 128 := by
  rw [bytesOf_eq]
  constructor
  · intro h b hb
    obtain ⟨c, hc, hb⟩ := List.mem_flatMap.mp hb
    rw [utf8EncodeChar_of_ascii (h c hc), List.mem_singleton] at hb
    rw [hb, UInt8.toNat_ofNat']
    exact lt_of_le_of_lt (Nat.mod_le _ _) (h c hc)
  · intro h c hc
    by_contra hnot
    obtain ⟨b, hb, hhigh⟩ := exists_byte_of_not_ascii hnot
    exact hhigh (h b (List.mem_flatMap.mpr ⟨c, hc, hb⟩))

theorem isTextByte_iff {b : UInt8} (h : isHeaderByte b = true) :
    isTextByte b = true ↔ b.toNat < 128 := by
  simp only [isHeaderByte, isTextByte, Bool.or_eq_true, Bool.and_eq_true, decide_eq_true_eq,
    UInt8.le_iff_toNat_le, UInt8.lt_iff_toNat_lt, ne_eq, ← UInt8.toNat_inj, UInt8.reduceToNat] at h ⊢
  omega

end Ascii

section Request

variable {key name : String} {headers : List Header}

/-- A key that is shown as it is counts as shown exactly if it is ASCII. -/
theorem keyless_iff (hsendable : ∀ b ∈ bytesOf key, isHeaderByte b = true)
    (hheader : headers.filter (·.name.toLower = keyHeader) = [⟨name, bytesOf key⟩]) :
    Keyless key headers ↔ ¬ Ascii key := by
  have hfirst : headers.find? (·.name.toLower = keyHeader) = some ⟨name, bytesOf key⟩ := by
    rw [← List.head?_filter, hheader, List.head?_cons]
  rw [Keyless, hfirst, ascii_iff]
  simp only [Option.mem_def, Option.some_inj, forall_eq', ne_eq, not_true_eq_false, or_false]
  push Not
  refine exists_congr fun b => and_congr_right fun hb => ?_
  rw [← Bool.not_eq_true, isTextByte_iff (hsendable b hb), not_lt]

def onDemand (e : Engine) (type : String) : Service (Answer × Engine) := do
  let pass ← (Reconciliation.run type e.actor).on type
  return (.reconciled pass.report, { e with metrics := e.metrics + pass.metrics })

theorem onDemand_ne_done (e : Engine) (type : String) (result : Answer × Engine) :
    onDemand e type ≠ .done result := by
  rw [onDemand, Reconciliation.run, Reconciliation.survey, Flow.run_baseLanguage_bind,
    Program.ask_bind, Flow.on_ask, Program.ask_bind]
  intro h
  cases h

theorem serve_of_verified {key : Option String} {e : Engine} {type : String}
    (hverify : verify key (providedKey headers) = true) (htype : e.registry.has type = true) :
    serve key headers e (.reconcile type) = onDemand e type := by
  have hwithin : e.within type (Reconciliation.run type e.actor) =
      Flow.on type (Reconciliation.run type e.actor) >>= fun pass => pure (.ok pass) := by
    rw [Engine.within, if_pos htype, Flow.run_liftM, Flow.on_bind]
    rfl
  rw [serve, hverify, Engine.reconcile, hwithin, onDemand]
  simp

/-- A request to reconcile a registered content type that shows the configured key, and no other:
in ASCII the key opens, and in anything else it is turned away. -/
theorem configured_key_opens_iff {env : String → Option String} {c : Config} {e : Engine}
    {r : Request} {type : String} (hc : Config.ofEnvironment env = .ok c)
    (hkey : env "ADMIN_API_KEY" = some key) (hfilled : isBlank key = false)
    (hsendable : ∀ b ∈ bytesOf key, isHeaderByte b = true) (hmethod : r.method = "POST")
    (htarget : target r.path = .route (.reconcile type)) (htype : e.registry.has type = true)
    (hheader : r.headers.filter (·.name.toLower = keyHeader) = [⟨name, bytesOf key⟩]) :
    (respond c.adminKey e r = onDemand e type ↔ Ascii key) ∧
      (respond c.adminKey e r = .done (.unauthorized, e) ↔ ¬ Ascii key) := by
  have hadmin : c.adminKey = some key := by
    rw [Config.adminKey_of_ofEnvironment hc, hkey, Option.filter_some, hfilled]
    rfl
  have hserve : respond c.adminKey e r = serve (some key) r.headers e (.reconcile type) := by
    rw [respond, htarget, hadmin]
    exact if_pos hmethod
  have hkeyless : Keyless key r.headers ↔ ¬ Ascii key := keyless_iff hsendable hheader
  rw [hserve]
  by_cases hascii : Ascii key
  · have hverify : verify (some key) (providedKey r.headers) = true := by
      rw [← Bool.not_eq_false, verify_eq_false_iff, hkeyless]
      exact not_not_intro hascii
    rw [serve_of_verified hverify htype]
    exact ⟨iff_of_true rfl hascii,
      iff_of_false (onDemand_ne_done e type _) (not_not_intro hascii)⟩
  · rw [serve_of_keyless (hkeyless.mpr hascii), Route.discreet]
    exact ⟨iff_of_false (onDemand_ne_done e type _).symm hascii, iff_of_true rfl hascii⟩

end Request

section Keyed

def environmentWith (key : String) : String → Option String
  | "DATABASE_URL" => some "postgres://localhost/content"
  | "ADMIN_API_KEY" => some key
  | _ => none

def configWith (key : String) : Config :=
  ⟨"postgres://localhost/content", "ko", 60, none, "system", some key, 8080⟩

def bulletins : Engine := .start ⟨[("bulletin", 60)]⟩ "system"

def request (key : String) : Request :=
  ⟨"POST", "/admin/reconcile/bulletin", [⟨"accept", [42, 47, 42]⟩, ⟨"X-Api-Key", bytesOf key⟩]⟩

theorem target_request (key : String) :
    target (request key).path = .route (.reconcile "bulletin") := by
  have hparameter : parameter? "bulletin" = some "bulletin" := by decide +kernel
  have htarget := target_reconcile "bulletin" (by decide) (by simp [Plain])
  rw [withParameter, hparameter] at htarget
  exact htarget

/-- White space around a key and between its words is part of it. -/
theorem spaced_key_opens :
    Config.ofEnvironment (environmentWith " open\tses~me ") = .ok (configWith " open\tses~me ") ∧
      respond (some " open\tses~me ") bulletins (request " open\tses~me ") =
        onDemand bulletins "bulletin" := by
  have hc : Config.ofEnvironment (environmentWith " open\tses~me ") =
      .ok (configWith " open\tses~me ") := by decide +kernel
  have hheader : (request " open\tses~me ").headers.filter (·.name.toLower = keyHeader) =
      [⟨"X-Api-Key", bytesOf " open\tses~me "⟩] := by decide +kernel
  have hopens := (configured_key_opens_iff (e := bulletins) hc rfl (by decide +kernel)
    (by decide +kernel) rfl (target_request _) (by decide) hheader).1
  exact ⟨hc, hopens.mpr (by simp [Ascii])⟩

/-- A key is configured that every request can carry, and the request that carries it is turned
away. -/
theorem umlaut_key_turned_away :
    Config.ofEnvironment (environmentWith "schlüssel") = .ok (configWith "schlüssel") ∧
      isBlank "schlüssel" = false ∧ (∀ b ∈ bytesOf "schlüssel", isHeaderByte b = true) ∧
      bulletins.registry.has "bulletin" = true ∧
      target (request "schlüssel").path = .route (.reconcile "bulletin") ∧
      (request "schlüssel").headers.filter (·.name.toLower = keyHeader) =
        [⟨"X-Api-Key", bytesOf "schlüssel"⟩] ∧
      respond (configWith "schlüssel").adminKey bulletins (request "schlüssel") =
        .done (.unauthorized, bulletins) := by
  refine ⟨by decide +kernel, by decide +kernel, by decide +kernel, by decide, target_request _,
    by decide +kernel, ?_⟩
  have hkeyless : Keyless "schlüssel" (request "schlüssel").headers :=
    (verify_eq_false_iff _ _).mp (by decide +kernel)
  rw [configWith, respond_of_keyless hkeyless, discreet, target_request]
  rfl

end Keyed

end Admin

end Polyglot

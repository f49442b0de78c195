import Mathlib.Data.List.TakeWhile
import Mathlib.Data.String.Basic
import Polyglot.Admin.Key
import Polyglot.Admin.Route

namespace Polyglot.Admin

section Key

def bytesOf (text : String) : List UInt8 := text.toByteArray.data.toList

/-- The first key header is absent, holds a byte that is no text, or differs from the key. -/
def Keyless (key : String) (headers : List Header) : Prop :=
  ∀ h ∈ headers.find? (·.name.toLower = keyHeader),
    (∃ b ∈ h.value, isTextByte b = false) ∨ h.value ≠ bytesOf key

theorem toNat_lt_of_isTextByte {b : UInt8} (h : isTextByte b = true) : b.toNat < 128 := by
  simp only [isTextByte, Bool.or_eq_true, Bool.and_eq_true, decide_eq_true_eq,
    UInt8.lt_iff_toNat_lt] at h
  rcases h with ⟨_, hlt⟩ | rfl
  · exact Nat.lt_succ_of_lt hlt
  · decide

theorem utf8EncodeChar_ofNat {b : UInt8} (h : b.toNat < 128) :
    String.utf8EncodeChar (Char.ofNat b.toNat) = [b] := by
  have hvalid : b.toNat.isValidChar := Or.inl (by omega)
  have hval : (Char.ofNat b.toNat).val.toNat = b.toNat := by
    rw [Char.ofNat, dif_pos hvalid]
    rfl
  rw [String.utf8EncodeChar.eq_1, hval, if_pos (Nat.le_of_lt_succ h), UInt8.ofNat_toNat]

theorem bytesOf_ofList (bytes : List UInt8) (h : ∀ b ∈ bytes, isTextByte b = true) :
    bytesOf (String.ofList (bytes.map fun b => Char.ofNat b.toNat)) = bytes := by
  induction bytes with
  | nil => rfl
  | cons b rest ih =>
      have hb := utf8EncodeChar_ofNat (toNat_lt_of_isTextByte (h b List.mem_cons_self))
      have hrest := ih fun b' hb' => h b' (List.mem_cons_of_mem b hb')
      simp only [bytesOf, String.toByteArray_ofList, List.map_cons] at hrest ⊢
      rw [List.utf8Encode_cons, List.utf8Encode_singleton, hb, ByteArray.data_append,
        Array.toList_append, hrest]
      rfl

theorem sameKey_iff (a b : String) : sameKey a b = true ↔ bytesOf a = bytesOf b := by
  have hdata : sameKey a b = (a.toByteArray.data == b.toByteArray.data) := rfl
  rw [hdata, beq_iff_eq, bytesOf, bytesOf, Array.toList_inj]

/-- A request passes unless it does not show the key. -/
theorem verify_eq_false_iff (key : String) (headers : List Header) :
    verify (some key) (providedKey headers) = false ↔ Keyless key headers := by
  rw [Keyless, providedKey]
  cases headers.find? (·.name.toLower = keyHeader) with
  | none => simp [verify]
  | some h =>
      simp only [Option.bind_some, Header.text?, Option.mem_def, Option.some_inj, forall_eq']
      by_cases htext : h.value.all isTextByte = true
      · have hbytes := bytesOf_ofList h.value (List.all_eq_true.mp htext)
        have hnone : ¬∃ b ∈ h.value, isTextByte b = false := by
          rintro ⟨b, hb, hno⟩
          rw [List.all_eq_true.mp htext b hb] at hno
          cases hno
        rw [if_pos htext, verify, ← Bool.not_eq_true, sameKey_iff, hbytes, or_iff_right hnone,
          ne_comm]
      · rw [if_neg htext]
        refine iff_of_true rfl (Or.inl ?_)
        simpa using htext

end Key

section Path

open String in
/-- What is left of a path, `m` being the part of the segment under way that is behind. -/
theorem splitOnAux_slash (l m r : List Char) (acc : List String) :
    (ofList (l ++ m ++ r)).splitOnAux "/" ⟨utf8Len l⟩ ⟨utf8Len l + utf8Len m⟩ 0 acc =
      acc.reverse ++ (List.splitOnPPrepend (· == '/') r m.reverse).map ofList := by
  induction r generalizing l m acc with
  | nil =>
      have hdone := atEnd_of_valid (l ++ m) []
      have hpart := extract_of_valid l m []
      rw [utf8Len_append, List.append_nil] at hdone
      rw [List.append_nil] at hpart
      rw [List.append_nil, splitOnAux, if_pos (hdone.mpr rfl), hpart, List.splitOnPPrepend_nil,
        List.reverse_reverse, List.reverse_cons]
      rfl
  | cons c r ih =>
      have hdone := atEnd_of_valid (l ++ m) (c :: r)
      have hget := get_of_valid (l ++ m) (c :: r)
      have hnext := next_of_valid (l ++ m) c r
      have hpart := extract_of_valid l m (c :: r)
      rw [utf8Len_append] at hdone hget hnext
      have hseparator : Pos.Raw.get "/" 0 = '/' := rfl
      rw [splitOnAux, if_neg (fun h => List.cons_ne_nil c r (hdone.mp h)), hget, hseparator,
        List.headD_cons]
      by_cases h : c = '/'
      · subst h
        have hlength : Pos.Raw.next "/" 0 = ⟨Char.utf8Size '/'⟩ := by decide
        have hback : (⟨utf8Len l + utf8Len m + Char.utf8Size '/'⟩ : Pos.Raw).unoffsetBy
            ⟨Char.utf8Size '/'⟩ = ⟨utf8Len l + utf8Len m⟩ := by
          simp [Pos.Raw.unoffsetBy]
        have hrest := ih (l ++ m ++ ['/']) [] (ofList m :: acc)
        simp only [utf8Len_append, utf8Len_cons, utf8Len_nil, Nat.zero_add, Nat.add_zero,
          List.append_nil] at hrest
        rw [List.append_assoc (l ++ m), List.singleton_append] at hrest
        rw [if_pos (beq_self_eq_true _), hnext, hlength]
        dsimp only
        rw [hback, hpart, if_pos (by decide), hrest,
          List.splitOnPPrepend_cons_pos (by decide)]
        simp
      · have hrest := ih l (m ++ [c]) acc
        have hoffset : (⟨utf8Len l + utf8Len m⟩ : Pos.Raw).unoffsetBy 0 =
            ⟨utf8Len l + utf8Len m⟩ := rfl
        have hne : ¬(c == '/') = true := by simpa using h
        simp only [utf8Len_append, utf8Len_cons, utf8Len_nil, Nat.zero_add, ← List.append_assoc,
          ← Nat.add_assoc] at hrest
        rw [List.append_assoc (l ++ m), List.singleton_append] at hrest
        rw [if_neg hne, List.splitOnPPrepend_cons_neg (Bool.not_eq_true _ ▸ hne), hoffset, hnext,
          hrest, List.reverse_append]
        rfl

theorem splitOn_slash (s : String) :
    s.splitOn "/" = (s.toList.splitOn '/').map String.ofList := by
  have h := splitOnAux_slash [] [] s.toList []
  rw [List.append_nil, List.nil_append, String.ofList_toList] at h
  rw [String.splitOn, if_neg (by decide)]
  exact h

theorem splitOn_intercalate_slash {segments : List String} (hne : segments ≠ [])
    (h : ∀ s ∈ segments, '/' ∉ s.toList) :
    (String.intercalate "/" segments).splitOn "/" = segments := by
  have hslash : "/".toList = ['/'] := rfl
  have hlists : ∀ l ∈ segments.map String.toList, '/' ∉ l := by simpa using h
  rw [splitOn_slash, String.toList_intercalate, hslash,
    List.splitOn_intercalate '/' hlists (by simpa using hne), List.map_map]
  simp

/-- A segment without the marks that end a segment or a path. -/
def Plain (segment : String) : Prop := ∀ c ∈ segment.toList, c ≠ '/' ∧ c ≠ '?' ∧ c ≠ '#'

theorem mem_intercalate {x c : Char} {ls : List (List Char)} (h : c ∈ [x].intercalate ls) :
    c = x ∨ ∃ l ∈ ls, c ∈ l := by
  induction ls with
  | nil => simp at h
  | cons l rest ih =>
      cases rest with
      | nil => exact Or.inr ⟨l, List.mem_cons_self, by simpa using h⟩
      | cons l' rest =>
          rw [List.intercalate_cons_cons, List.mem_append, List.mem_append] at h
          rcases h with (h | h) | h
          · exact Or.inr ⟨l, List.mem_cons_self, h⟩
          · exact Or.inl (List.mem_singleton.mp h)
          · exact (ih h).imp id fun ⟨m, hm, hc⟩ => ⟨m, List.mem_cons_of_mem l hm, hc⟩

theorem segments_of_path (segments : List String) (hne : segments ≠ [])
    (h : ∀ s ∈ segments, Plain s) :
    (pathOnly (String.intercalate "/" segments)).splitOn "/" = segments := by
  have hmarks : ∀ c ∈ (String.intercalate "/" segments).toList,
      decide (c ≠ '?') && decide (c ≠ '#') := by
    intro c hc
    rw [String.toList_intercalate] at hc
    rcases mem_intercalate hc with rfl | ⟨_, hl, hc⟩
    · decide
    · obtain ⟨s, hs, rfl⟩ := List.mem_map.mp hl
      simpa using (h s hs c hc).2
  rw [pathOnly, List.takeWhile_eq_self_iff.mpr hmarks, String.ofList_toList]
  exact splitOn_intercalate_slash hne fun s hs hslash => (h s hs _ hslash).1 rfl

theorem target_reconcile (segment : String) (hne : segment ≠ "") (h : Plain segment) :
    target ("/admin/reconcile/" ++ segment) = withParameter "POST" segment .reconcile := by
  have hpath : "/admin/reconcile/" ++ segment =
      String.intercalate "/" ["", "admin", "reconcile", segment] := by
    simp only [String.intercalate_cons_cons, String.intercalate_singleton, ← String.append_assoc]
    rfl
  have hsegments := segments_of_path ["", "admin", "reconcile", segment]
    (List.cons_ne_nil _ _) (by simpa [Plain] using h)
  rw [target, hpath, hsegments]
  simp [hne]

theorem target_backfill (segment : String) (h : Plain segment) :
    target ("/admin/languages/" ++ segment ++ "/backfill") =
      withParameter "POST" segment .backfill := by
  have hpath : "/admin/languages/" ++ segment ++ "/backfill" =
      String.intercalate "/" ["", "admin", "languages", segment, "backfill"] := by
    have hend : "/backfill" = "/" ++ "backfill" := rfl
    simp only [String.intercalate_cons_cons, String.intercalate_singleton, hend,
      ← String.append_assoc]
    rfl
  have hsegments := segments_of_path ["", "admin", "languages", segment, "backfill"]
    (List.cons_ne_nil _ _) (by simpa [Plain] using h)
  rw [target, hpath, hsegments]
  simp

end Path

end Polyglot.Admin

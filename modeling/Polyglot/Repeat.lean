namespace Polyglot

/-- The first element that is in `seen` or stands in the list before. -/
def firstRepeat {α : Type} [DecidableEq α] (seen : List α) : List α → Option α
  | [] => none
  | a :: rest => if a ∈ seen then some a else firstRepeat (a :: seen) rest

theorem firstRepeat_eq_none_iff {α : Type} [DecidableEq α] {seen l : List α} :
    firstRepeat seen l = none ↔ l.Nodup ∧ ∀ a ∈ l, a ∉ seen := by
  induction l generalizing seen with
  | nil => simp [firstRepeat]
  | cons a rest ih =>
      by_cases h : a ∈ seen
      · simp [firstRepeat, h]
      · simp only [firstRepeat, h, if_false, ih, List.nodup_cons, List.mem_cons]
        constructor
        · rintro ⟨hnodup, hout⟩
          refine ⟨⟨fun ha => (hout a ha) (Or.inl rfl), hnodup⟩, ?_⟩
          rintro b (rfl | hb)
          · exact h
          · exact fun hs => hout b hb (Or.inr hs)
        · rintro ⟨⟨ha, hnodup⟩, hout⟩
          refine ⟨hnodup, fun b hb hs => ?_⟩
          rcases hs with rfl | hs
          · exact ha hb
          · exact hout b (Or.inr hb) hs

end Polyglot

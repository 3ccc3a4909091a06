import Findings.Category

/-!
# Labels of categories

A category is found under its label and under no other text (`ofLabel?_eq_some_iff`). The two look-ups of a label,
whether it is known and which category it stands for, agree: a known label stands for the category that has it
(`label_classify`), any other for the one that unknown labels are filed under (`classify_unknown`).
-/

namespace Findings.Category

theorem ofLabel?_label (c : Category) : ofLabel? c.label = some c := by
  cases c <;> rfl

theorem label_of_ofLabel? {t : Text} {c : Category} (h : ofLabel? t = some c) : c.label = t := by
  unfold ofLabel? at h
  simpa using List.find?_some h

theorem ofLabel?_eq_some_iff {t : Text} {c : Category} : ofLabel? t = some c ↔ t = c.label := by
  constructor
  · exact fun h => (label_of_ofLabel? h).symm
  · rintro rfl
    exact ofLabel?_label c

theorem isKnown_eq (t : Text) : isKnown t = all.any (·.label = t) := by
  rw [isKnown, ofLabel?, List.isSome_find?]

theorem label_classify {t : Text} (h : isKnown t) : (classify t).label = t := by
  obtain ⟨c, hc⟩ := Option.isSome_iff_exists.mp h
  rw [classify, hc]
  exact label_of_ofLabel? hc

theorem classify_unknown {t : Text} (h : isKnown t = false) : classify t = fallback := by
  have hnone : ofLabel? t = none := Option.isNone_iff_eq_none.mp (Option.isSome_eq_false_iff.mp h)
  rw [classify, hnone]
  rfl

end Findings.Category

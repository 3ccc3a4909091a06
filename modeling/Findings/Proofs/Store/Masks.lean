import Findings.Store.Visibility
import Mathlib.Data.List.Nodup

/-!
# Setting entries of a mask

`Mask.setAll` sets the entries in front of the first sentinel, the last one of a category winning, and
succeeds exactly when there is no sentinel (`setAll_eq`). With one entry for each category
(`shows_setEach`) their order makes no difference (`setEach_perm`), and the mask stays the same just when
each of these entries says what it said before (`setEach_eq_self_iff`). Of categories that are hidden one after
another, neither the order matters nor how often each is hidden (`hideAll_congr`).
-/

namespace Findings.Mask

theorem shows_set (m : Mask) (c c' : Category) (shown : Bool) :
    (m.set c shown).shows c' = if c' = c then shown else m.shows c' := by
  cases c <;> cases c' <;> rfl

theorem set_set (m : Mask) (c : Category) (shown again : Bool) :
    (m.set c shown).set c again = m.set c again := by
  cases c <;> rfl

theorem ext_shows {m m' : Mask} (h : ∀ c, m.shows c = m'.shows c) : m = m' := by
  cases m
  cases m'
  simp only [mk.injEq]
  exact ⟨h .error, h .warning, h .style, h .performance, h .portability, h .information⟩

/-- The entries in front of the first sentinel. -/
def leading : List (CategoryCode × Bool) → List (Category × Bool)
  | [] => []
  | (.real c, shown) :: rest => (c, shown) :: leading rest
  | (.sentinel, _) :: _ => []

/-- The mask with these entries set one after another. -/
def setEach (m : Mask) (entries : List (Category × Bool)) : Mask :=
  entries.foldl (fun m e => m.set e.1 e.2) m

theorem setAll_eq (m : Mask) (entries : List (CategoryCode × Bool)) :
    m.setAll entries = (m.setEach (leading entries),
      if .sentinel ∈ entries.map (·.1) then .error (.invalidCategory (.category .sentinel))
      else .ok ()) := by
  induction entries generalizing m with
  | nil => simp [setAll, leading, setEach]
  | cons e entries ih =>
    obtain ⟨code, shown⟩ := e
    cases code with
    | sentinel => simp [setAll, leading, setEach]
    | real c => simp [setAll, leading, setEach, ih]

theorem leading_real (entries : List (Category × Bool)) :
    leading (entries.map fun e => (.real e.1, e.2)) = entries := by
  induction entries with
  | nil => rfl
  | cons e entries ih => simp [leading, ih]

theorem mem_of_mem_leading {entries : List (CategoryCode × Bool)} {e : Category × Bool}
    (h : e ∈ leading entries) : (CategoryCode.real e.1, e.2) ∈ entries := by
  induction entries with
  | nil => exact absurd h List.not_mem_nil
  | cons first entries ih =>
    obtain ⟨code, shown⟩ := first
    cases code with
    | sentinel => exact absurd h List.not_mem_nil
    | real c =>
      rcases List.mem_cons.mp h with rfl | h
      · exact List.mem_cons_self
      · exact List.mem_cons_of_mem _ (ih h)

theorem leading_nodup {entries : List (CategoryCode × Bool)} (h : (entries.map (·.1)).Nodup) :
    ((leading entries).map (·.1)).Nodup := by
  induction entries with
  | nil => exact List.nodup_nil
  | cons first entries ih =>
    obtain ⟨code, shown⟩ := first
    rw [List.map_cons, List.nodup_cons] at h
    cases code with
    | sentinel => exact List.nodup_nil
    | real c =>
      rw [leading, List.map_cons, List.nodup_cons]
      refine ⟨fun hc => ?_, ih h.2⟩
      obtain ⟨e, he, rfl⟩ := List.mem_map.mp hc
      exact h.1 (List.mem_map.mpr ⟨_, mem_of_mem_leading he, rfl⟩)

theorem shows_setEach_of_not_mem {entries : List (Category × Bool)} {c : Category}
    (h : c ∉ entries.map (·.1)) (m : Mask) : (m.setEach entries).shows c = m.shows c := by
  induction entries generalizing m with
  | nil => rfl
  | cons e entries ih =>
    rw [List.map_cons, List.mem_cons, not_or] at h
    rw [setEach, List.foldl_cons]
    exact (ih h.2 _).trans ((shows_set m e.1 c e.2).trans (if_neg h.1))

theorem shows_setEach {entries : List (Category × Bool)} (hn : (entries.map (·.1)).Nodup)
    {e : Category × Bool} (he : e ∈ entries) (m : Mask) :
    (m.setEach entries).shows e.1 = e.2 := by
  induction entries generalizing m with
  | nil => exact absurd he List.not_mem_nil
  | cons first entries ih =>
    rw [List.map_cons, List.nodup_cons] at hn
    rw [setEach, List.foldl_cons]
    rcases List.mem_cons.mp he with rfl | he
    · exact (shows_setEach_of_not_mem hn.1 _).trans ((shows_set m _ _ _).trans (if_pos rfl))
    · exact ih hn.2 he _

/-- With one entry for each category, their order makes no difference. -/
theorem setEach_perm {entries entries' : List (Category × Bool)} (hp : entries.Perm entries')
    (hn : (entries.map (·.1)).Nodup) (m : Mask) : m.setEach entries = m.setEach entries' := by
  have hn' : (entries'.map (·.1)).Nodup := (hp.map _).nodup_iff.mp hn
  apply ext_shows
  intro c
  by_cases hc : c ∈ entries.map (·.1)
  · obtain ⟨e, he, rfl⟩ := List.mem_map.mp hc
    rw [shows_setEach hn he, shows_setEach hn' (hp.mem_iff.mp he)]
  · have hc' : c ∉ entries'.map (·.1) := mt (hp.map _).mem_iff.mpr hc
    rw [shows_setEach_of_not_mem hc, shows_setEach_of_not_mem hc']

theorem setEach_eq_self_iff {entries : List (Category × Bool)} (hn : (entries.map (·.1)).Nodup)
    (m : Mask) : m.setEach entries = m ↔ ∀ e ∈ entries, m.shows e.1 = e.2 := by
  constructor
  · intro h e he
    rw [← shows_setEach hn he m, h]
  · intro h
    apply ext_shows
    intro c
    by_cases hc : c ∈ entries.map (·.1)
    · obtain ⟨e, he, rfl⟩ := List.mem_map.mp hc
      rw [shows_setEach hn he, h e he]
    · exact shows_setEach_of_not_mem hc m

/-! ## Hiding -/

/-- The mask with categories hidden one after another. -/
def hideAll (m : Mask) (categories : List Category) : Mask := categories.foldl (fun m c => m.set c false) m

theorem shows_hideAll (m : Mask) (categories : List Category) (c : Category) :
    (m.hideAll categories).shows c = (m.shows c && decide (c ∉ categories)) := by
  induction categories generalizing m with
  | nil => simp [hideAll]
  | cons first categories ih =>
    rw [hideAll, List.foldl_cons]
    refine (ih (m.set first false)).trans ?_
    rw [shows_set]
    by_cases hc : c = first <;> simp [hc]

/-- Neither the order of hiding matters nor how often a category is hidden. -/
theorem hideAll_congr {categories categories' : List Category}
    (h : ∀ c, c ∈ categories ↔ c ∈ categories') (m : Mask) : m.hideAll categories = m.hideAll categories' :=
  ext_shows fun c => by simp only [shows_hideAll, h]

end Findings.Mask

import Findings.Application
import Findings.Proofs.Lists
import Findings.Proofs.Text.Numerals

/-!
# Registered applications

A registration under a new name adds that name to the menu, one under a name that is there leaves the menu as
it is (`names_register`); either way it decides who is found under its own name and under no other
(`get?_register`). So after any registrations the menu has the names in the order in which they came first
(`names_ofList`), and under each is found what was registered last (`get?_ofList`). As no name is in the menu
twice, picking by position and by the name at that position comes to the same (`pick_position`). Together this
is `menu_and_names_agree`. That a number is no position of the menu is told only of a number that can be written
out (`overlong_position_not_reported`).
-/

namespace Findings.Registry

/-- The registry after registrations, one after another. -/
def ofList (as : List Application) : Registry := as.foldl register {}

theorem ofList_concat (as : List Application) (a : Application) :
    ofList (as ++ [a]) = (ofList as).register a := by
  rw [ofList, List.foldl_append]
  rfl

/-- The application that was registered last under a name. -/
def latest? (as : List Application) (name : Text) : Option Application :=
  as.reverse.find? fun a => a.name = name

/-! ## One registration -/

theorem get?_eq_none_iff {r : Registry} {name : Text} : r.get? name = none ↔ name ∉ r.names := by
  rw [get?, List.find?_eq_none, names, List.mem_map]
  constructor
  · rintro h ⟨b, hb, rfl⟩
    exact h b hb (by simp)
  · intro h b hb hname
    exact h ⟨b, hb, of_decide_eq_true hname⟩

theorem name_of_get? {r : Registry} {name : Text} {a : Application} (h : r.get? name = some a) :
    a.name = name := by
  simpa using List.find?_some h

theorem exists_get? {r : Registry} {name : Text} (h : name ∈ r.names) : ∃ a, r.get? name = some a :=
  Option.ne_none_iff_exists'.mp fun hnone => get?_eq_none_iff.mp hnone h

section Register

variable (r : Registry) (a : Application)

/-- What takes the place of another application has its name. -/
theorem name_replace (b : Application) : (if b.name = a.name then a else b).name = b.name := by
  split_ifs with h
  · exact h.symm
  · rfl

theorem names_register :
    (r.register a).names = if a.name ∈ r.names then r.names else r.names ++ [a.name] := by
  unfold register
  split_ifs with hcontains hmem hmem
  · rw [names, List.map_map]
    exact List.map_congr_left fun b _ => name_replace a b
  · exact absurd (List.contains_iff_mem.mp hcontains) hmem
  · exact absurd (List.contains_iff_mem.mpr hmem) hcontains
  · rw [names, List.map_append]
    rfl

/-- A name is found where it was found before, with what stands there now. -/
theorem get?_replace (name : Text) :
    get? ⟨r.applications.map fun b => if b.name = a.name then a else b⟩ name =
      (r.get? name).map fun b => if b.name = a.name then a else b := by
  have hsame : ((fun b : Application => decide (b.name = name)) ∘
      fun b => if b.name = a.name then a else b) = fun b => decide (b.name = name) := by
    funext b
    rw [Function.comp_apply, name_replace]
  rw [get?, List.find?_map, hsame, get?]

theorem get?_register (name : Text) :
    (r.register a).get? name = if a.name = name then some a else r.get? name := by
  unfold register
  split_ifs with hcontains hname hname
  · subst hname
    obtain ⟨b, hb⟩ := exists_get? (List.contains_iff_mem.mp hcontains)
    rw [get?_replace, hb, Option.map_some, if_pos (name_of_get? hb)]
  · rw [get?_replace]
    cases hb : r.get? name with
    | none => rfl
    | some b => rw [Option.map_some, if_neg fun h => hname (h.symm.trans (name_of_get? hb))]
  · subst hname
    have hnone : r.get? a.name = none :=
      get?_eq_none_iff.mpr fun hmem => hcontains (List.contains_iff_mem.mpr hmem)
    rw [get?] at hnone
    rw [get?, List.find?_append, hnone]
    simp
  · rw [get?, List.find?_append, ← get?]
    simp [hname]

end Register

/-! ## All registrations -/

theorem names_ofList (as : List Application) : (ofList as).names = (as.map (·.name)).eraseDups := by
  induction as using List.reverseRecOn with
  | nil => rfl
  | append_singleton as a ih =>
    rw [ofList_concat, names_register, ih, List.map_append, List.map_singleton, eraseDups_concat]
    simp only [List.mem_eraseDups]

theorem get?_ofList (as : List Application) (name : Text) : (ofList as).get? name = latest? as name := by
  induction as using List.reverseRecOn with
  | nil => rfl
  | append_singleton as a ih =>
    rw [ofList_concat, get?_register, ih, latest?, latest?, List.reverse_concat, List.find?_cons]
    by_cases h : a.name = name <;> simp [h]

theorem nodup_names_ofList (as : List Application) : (ofList as).names.Nodup := by
  rw [names_ofList]
  exact nodup_eraseDups _

/-! ## Picking -/

section Pick

variable {r : Registry}

theorem get?_of_getElem? (h : r.names.Nodup) {i : Nat} {a : Application}
    (ha : r.applications[i]? = some a) : r.get? a.name = some a := by
  have hmem := List.mem_of_getElem? ha
  obtain ⟨b, hb⟩ : ∃ b, r.get? a.name = some b := exists_get? (List.mem_map_of_mem hmem)
  rw [hb, List.inj_on_of_nodup_map h (List.mem_of_find?_eq_some hb) hmem (name_of_get? hb)]

theorem pick_name (name : Text) :
    r.pick (.name name) = (r.get? name).elim (.error (.unknownApplication name r.names)) .ok := by
  rw [pick]
  cases r.get? name <;> rfl

/-- At a position of the menu stands what is found under its name. -/
theorem pick_position (h : r.names.Nodup) {i : Nat} {name : Text} (hname : r.names[i]? = some name) :
    ∃ a, r.get? name = some a ∧ r.pick (.position i) = .ok a := by
  rw [names, List.getElem?_map, Option.map_eq_some_iff] at hname
  obtain ⟨a, ha, rfl⟩ := hname
  refine ⟨a, get?_of_getElem? h ha, ?_⟩
  simp [pick, ha]

theorem pick_outside {i : Int} (h : i < 0 ∨ r.names.length ≤ i) :
    r.pick (.position i) = .error (.saying i (.noApplicationAt i r.names.length)) := by
  have hlength : r.names.length = r.applications.length := List.length_map _
  rw [hlength] at h ⊢
  have hnone : (if 0 ≤ i then r.applications[i.toNat]? else none) = none := by
    split_ifs with hpos
    · exact List.getElem?_eq_none (by omega)
    · rfl
  simp only [pick, hnone]

end Pick

/-- After any registrations, the menu is the names in the order of their first registration; under each name
that was registered, and under no other, is found and picked the application registered last under it; and
each position of the menu, and no other number, picks the same as the name that stands there. What is told of
another number is that it is no position, or that it is too long to be written out. One more registration
changes nothing for other names. -/
theorem menu_and_names_agree (as : List Application) :
    let r := ofList as
    r.names = (as.map (·.name)).eraseDups ∧
    (∀ name, r.get? name = latest? as name ∧ (r.get? name = none ↔ ∀ a ∈ as, a.name ≠ name) ∧
      (∀ a, r.pick (.name name) = .ok a ↔ latest? as name = some a) ∧
      ((∀ a ∈ as, a.name ≠ name) →
        r.pick (.name name) = .error (.unknownApplication name r.names))) ∧
    (∀ (i : Nat) (name : Text), r.names[i]? = some name →
      ∃ a, latest? as name = some a ∧ r.pick (.name name) = .ok a ∧ r.pick (.position i) = .ok a) ∧
    (∀ i : Int, i < 0 ∨ r.names.length ≤ i →
      r.pick (.position i) =
        .error (if Legible i then .noApplicationAt i r.names.length else .integerTooLong)) ∧
    ∀ a name, a.name ≠ name → (ofList (as ++ [a])).get? name = r.get? name := by
  intro r
  have hget : ∀ name, r.get? name = latest? as name := get?_ofList as
  have hnone : ∀ name, r.get? name = none ↔ ∀ a ∈ as, a.name ≠ name := by
    intro name
    rw [get?_eq_none_iff, names_ofList, List.mem_eraseDups, List.mem_map]
    exact ⟨fun h a ha heq => h ⟨a, ha, heq⟩, fun h ⟨a, ha, heq⟩ => h a ha heq⟩
  refine ⟨names_ofList as, fun name => ⟨hget name, hnone name, fun a => ?_, fun h => ?_⟩, ?_,
    fun i hi => pick_outside hi, fun a name hne => ?_⟩
  · rw [pick_name, ← hget]
    cases r.get? name <;> simp
  · rw [pick_name, (hnone name).mpr h]
    rfl
  · intro i name hname
    obtain ⟨a, ha, hpick⟩ := pick_position (nodup_names_ofList as) hname
    refine ⟨a, (hget name).symm.trans ha, ?_, hpick⟩
    rw [pick_name, ha]
    rfl
  · rw [ofList_concat, get?_register, if_neg hne]

/-- An editor that is registered once more, behind a viewer. -/
def editorTwice : List Application :=
  [{ name := "editor", tag := 1 }, { name := "viewer", tag := 2 }, { name := "editor", tag := 3 }]

/-- The names of `editorTwice` as they are listed. -/
def editorMenu : List Text := ["editor", "viewer"]

theorem editorTwice_agree :
    let r := ofList editorTwice
    r.names = editorMenu ∧ r.pick (.position 0) = .ok { name := "editor", tag := 3 } ∧
      r.pick (.name "editor") = .ok { name := "editor", tag := 3 } ∧
      r.pick (.name "pager") = .error (.unknownApplication "pager" editorMenu) ∧
      r.pick (.position (-1)) = .error (.noApplicationAt (-1) 2) ∧
      (r.register { name := "pager", tag := 4 }).get? "viewer" = r.get? "viewer" := by
  intro r
  obtain ⟨hnames, hunder, hat, houtside, hother⟩ := menu_and_names_agree editorTwice
  have hmenu : r.names = editorMenu := hnames.trans (by decide)
  obtain ⟨a, hlatest, hname, hposition⟩ := hat 0 "editor" (by decide)
  obtain rfl : ({ name := "editor", tag := 3 } : Application) = a :=
    Option.some.inj ((rfl : latest? editorTwice "editor" = _).symm.trans hlatest)
  have hunknown := (hunder "pager").2.2.2 (by decide)
  rw [hmenu] at hunknown
  exact ⟨hmenu, hposition, hname, hunknown, houtside (-1) (by decide),
    hother { name := "pager", tag := 4 } "viewer" (by decide)⟩

/-- A number far outside the menu, of which that is not told. -/
theorem overlong_position_not_reported :
    let r := ofList editorTwice
    r.names.length ≤ overlong ∧ r.pick (.position overlong) = .error .integerTooLong ∧
      ∀ i n, r.pick (.position overlong) ≠ .error (.noApplicationAt i n) := by
  intro r
  have hlength : (r.names.length : Int) ≤ overlong := le_overlong (by decide)
  have hpick : r.pick (.position overlong) = .error .integerTooLong := by
    rw [pick_outside (.inr hlength), Error.saying, if_neg not_legible_overlong]
  refine ⟨hlength, hpick, fun i n => ?_⟩
  rw [hpick]
  simp

end Findings.Registry

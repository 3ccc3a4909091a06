import Findings.Convert.Folder
import Mathlib.Tactic.SplitIfs

/-!
# Files that are put and opened

Putting a content sets that of one file and no other (`contentAt_put`, `contentAt_put_of_ne`), and opening for
writing puts nothing but an empty one (`create_cases`).

A plain name is one part that stands for something in the folder itself. A file can be opened for writing by
it unless a subfolder has it (`create_plain`), and what was put into the file is read by it (`read_put`).
-/

namespace Findings.Convert.Folder

/-! ## Putting -/

theorem any_put (f : Folder) (route : Route) (content : List UInt8) :
    (f.put route content).files.any (·.1 = route) := by
  unfold put
  split_ifs with h
  · obtain ⟨e, he, hroute⟩ := List.any_eq_true.mp h
    refine List.any_eq_true.mpr ⟨_, List.mem_map_of_mem he, ?_⟩
    simp [of_decide_eq_true hroute]
  · simp

/-- The content that was put last stays. -/
theorem put_put (f : Folder) (route : Route) (before content : List UInt8) :
    (f.put route before).put route content = f.put route content := by
  have hany := any_put f route before
  rw [put, if_pos hany]
  unfold put
  split_ifs with h
  · rw [List.map_map]
    congr 2
    funext e
    by_cases he : e.1 = route <;> simp [he]
  · -- A new file is the only one of its name, so the second time only its content changes.
    have hrest : ∀ e ∈ f.files, (if e.1 = route then (route, content) else e) = e := by
      intro e he
      refine if_neg fun hroute => h ?_
      exact List.any_eq_true.mpr ⟨e, he, decide_eq_true hroute⟩
    rw [List.map_append, List.map_congr_left hrest]
    simp

theorem find?_put (f : Folder) (route : Route) (content : List UInt8) :
    (f.put route content).files.find? (fun e => e.1 = route) = some (route, content) := by
  unfold put
  split_ifs with h
  · have hsame : ∀ e : Route × List UInt8,
        decide ((if e.1 = route then (route, content) else e).1 = route) = decide (e.1 = route) := by
      intro e
      by_cases he : e.1 = route <;> simp [he]
    obtain ⟨e, hfind⟩ : ∃ e, f.files.find? (fun e => e.1 = route) = some e := by
      rw [← Option.isSome_iff_exists, List.find?_isSome]
      exact List.any_eq_true.mp h
    have hroute := List.find?_some hfind
    rw [List.find?_map, Function.comp_def, funext hsame, hfind]
    simp [of_decide_eq_true hroute]
  · rw [List.any_eq_true, not_exists] at h
    have hnone : f.files.find? (fun e => e.1 = route) = none :=
      List.find?_eq_none.mpr fun e he hroute => h e ⟨he, hroute⟩
    rw [List.find?_append, hnone]
    simp

/-- The content of the file at a route, if there is one. -/
def contentAt (f : Folder) (route : Route) : Option (List UInt8) :=
  (f.files.find? fun e => e.1 = route).map (·.2)

theorem contentAt_put (f : Folder) (route : Route) (content : List UInt8) :
    (f.put route content).contentAt route = some content := by
  rw [contentAt, find?_put]
  rfl

theorem contentAt_put_of_ne (f : Folder) {route other : Route} (h : other ≠ route) (content : List UInt8) :
    (f.put route content).contentAt other = f.contentAt other := by
  unfold put contentAt
  split_ifs
  · have hsame : ∀ e : Route × List UInt8,
        decide ((if e.1 = route then (route, content) else e).1 = other) = decide (e.1 = other) := by
      intro e
      by_cases he : e.1 = route <;> simp [he]
    rw [List.find?_map, Function.comp_def, funext hsame]
    cases hfind : f.files.find? fun e => e.1 = other with
    | none => rfl
    | some e =>
      have hother : e.1 = other := by simpa using List.find?_some hfind
      simp [hother, h]
  · rw [List.find?_append]
    simp [Ne.symm h]

/-! ## Opening for writing -/

/-- A file that is opened for writing is empty afterwards; a device changes nothing. -/
theorem create_cases {f after : Folder} {name : Text} {d : Destination} (h : f.create name = .ok (after, d)) :
    (∃ route, d = .file route ∧ after = f.put route []) ∨ ∃ device, d = .device device ∧ after = f := by
  obtain ⟨node, hnode⟩ : ∃ node, f.opened node = .ok (after, d) := by
    simp only [create] at h
    split at h
    · simp at h
    · split at h
      · simp at h
      · split at h
        · simp at h
        · split_ifs at h
          split at h
          · simp at h
          · exact ⟨_, h⟩
  cases node with
  | file route | free route =>
    obtain ⟨rfl, rfl⟩ := Prod.mk.inj (Except.ok.inj hnode)
    exact .inl ⟨route, rfl, rfl⟩
  | device device =>
    obtain ⟨rfl, rfl⟩ := Prod.mk.inj (Except.ok.inj hnode)
    exact .inr ⟨device, rfl, rfl⟩
  | folder _ | outside | root | devices => simp [opened] at hnode

/-! ## Plain names -/

/-- The name is one part, and the name of what the folder holds under it. -/
structure IsPlain (name : Text) : Prop where
  start : start name = .ok (.folder [], [name])
  ne_nil : name ≠ []
  ne_dot : name ≠ Text.ofString "."
  ne_up : name ≠ Text.ofString ".."
  size : sizeOf name ≤ partLimit

section

variable {name : Text} (h : IsPlain name)
include h

theorem enter_plain (f : Folder) : f.enter (.folder []) name = .ok (f.nodeAt [name]) := by
  simp [enter, inside, child, h.ne_nil, h.ne_dot, h.ne_up, Nat.not_lt.mpr h.size]

theorem create_eq_opened (f : Folder) : f.create name = f.opened (f.nodeAt [name]) := by
  have hinside : inside (.folder []) = .ok (.folder []) := rfl
  simp [create, h.start, h.ne_nil, follow, hinside, enter_plain h f]

theorem create_plain {f : Folder} (hsub : [name] ∉ f.subfolders) :
    f.create name = .ok (f.put [name] [], .file [name]) := by
  have hnode : f.nodeAt [name] = .file [name] ∨ f.nodeAt [name] = .free [name] := by
    have hfolder : ¬([name] = [] || f.subfolders.contains [name]) := by simp [hsub]
    rw [nodeAt, if_neg hfolder]
    split_ifs
    · exact .inl rfl
    · exact .inr rfl
  rw [create_eq_opened h]
  rcases hnode with hnode | hnode <;> rw [hnode, opened]

theorem create_subfolder {f : Folder} (hsub : [name] ∈ f.subfolders) :
    f.create name = .error .isFolder := by
  have hnode : f.nodeAt [name] = .folder [name] := by simp [nodeAt, hsub]
  rw [create_eq_opened h, hnode]
  rfl

theorem read_put {f : Folder} (hsub : [name] ∉ f.subfolders) (content : List UInt8) :
    (f.put [name] content).read name = .ok content := by
  have hnode : (f.put [name] content).nodeAt [name] = .file [name] := by
    have hany := any_put f [name] content
    have hkept : [name] ∉ (f.put [name] content).subfolders := hsub
    simp [nodeAt, hkept, hany]
  simp only [read, h.start, follow, enter_plain h, hnode, find?_put]
  rfl

end

end Findings.Convert.Folder

import Findings.Proofs.Tree.Adding

/-!
# Reported lines

A value for a line stands for a number that is not negative, and for itself if it is such a number; only an
infinite one stands for none (`toLine_cases`). So a report in texts is filed just when none of its lines is
infinite, whatever they are otherwise (`TakesUp`, `lines_accepted_iff`), and an infinite one loses the finding
(`infinite_line_refused`).
-/

namespace Findings

/-- A floating-point number that is infinite. -/
def Value.IsInfinite (v : Value) : Prop := ∃ negative, v = .float (.infinite negative)

/-- Only an infinite value stands for no line. -/
theorem Value.toLine_cases (v : Value) :
    v.IsInfinite ∧ v.toLine = .error .infiniteLine ∨
      ¬v.IsInfinite ∧ ∃ n, v.toLine = .ok n ∧ ∀ k : Nat, v = .int k → n = k := by
  cases v with
  | float x =>
    cases x with
    | infinite negative => exact .inl ⟨⟨negative, rfl⟩, rfl⟩
    | _ => exact .inr ⟨by simp [IsInfinite], _, rfl, by simp⟩
  | int n =>
    refine .inr ⟨by simp [IsInfinite], _, rfl, fun k hk => ?_⟩
    obtain rfl := Value.int.inj hk
    exact Int.toNat_natCast k
  | _ => exact .inr ⟨by simp [IsInfinite], _, rfl, by simp⟩

namespace Tree

/-- The location stands for a reported file and a value for its line: the file in canonical spelling, and a line
that is not negative and the value itself if that is such a number. -/
structure ReadOff (reported : Text × Value) (l : Location) : Prop where
  file : l.file = Path.canonical reported.1
  nonneg : 0 ≤ l.line
  line : ∀ n : Nat, reported.2 = .int n → l.line = n

theorem toLocation_cases (reported : Text × Value) :
    reported.2.IsInfinite ∧ toLocation (.text reported.1) reported.2 = .error .infiniteLine ∨
      ¬reported.2.IsInfinite ∧
        ∃ l, toLocation (.text reported.1) reported.2 = .ok l ∧ ReadOff reported l := by
  obtain ⟨file, line⟩ := reported
  have hfile := Value.toCanonicalPath_text file
  rcases line.toLine_cases with ⟨hline, herror⟩ | ⟨hline, n, hn, hself⟩
  · exact .inl ⟨hline, by simp only [toLocation, hfile, herror]⟩
  · refine .inr ⟨hline, ⟨Path.canonical file, n⟩, by simp only [toLocation, hfile, hn], ?_⟩
    exact ⟨rfl, Int.natCast_nonneg n, fun k hk => congrArg Nat.cast (hself k hk)⟩

/-- Files in texts and any values for lines, as a backtrace. -/
def backtraceOf (reported : List (Text × Value)) : List (Value × Value) :=
  reported.map fun p => (.text p.1, p.2)

/-- Locations are read off one by one, unless a line is infinite. -/
theorem toLocations_cases (reported : List (Text × Value)) :
    (∃ p ∈ reported, p.2.IsInfinite) ∧
        toLocations (backtraceOf reported) = .error .infiniteLine ∨
      (¬∃ p ∈ reported, p.2.IsInfinite) ∧
        ∃ ls, toLocations (backtraceOf reported) = .ok ls ∧ List.Forall₂ ReadOff reported ls := by
  induction reported with
  | nil => exact .inr ⟨by simp, [], rfl, .nil⟩
  | cons p reported ih =>
    rw [List.exists_mem_cons_iff, not_or, backtraceOf, List.map_cons, toLocations, ← backtraceOf]
    rcases toLocation_cases p with ⟨hinfinite, herror⟩ | ⟨hfinite, l, hl, hread⟩
    · exact .inl ⟨.inl hinfinite, by rw [herror]⟩
    · rw [hl]
      rcases ih with ⟨hinfinite, herror⟩ | ⟨hfinite', ls, hls, hreads⟩
      · exact .inl ⟨.inr hinfinite, by simp only [herror]⟩
      · exact .inr ⟨⟨hfinite, hfinite'⟩, l :: ls, by simp only [hls], .cons hread hreads⟩

/-- A report in texts, with any values for the lines. -/
def inTexts (file severity message id : Text) (reported : List (Text × Value)) : Report where
  file := .text file
  severity := .text severity
  message := .text message
  backtrace := backtraceOf reported
  id := .text id

/-- Two lists stand for the pairs of what is at the same position of both. -/
theorem ofLists_texts (file severity message id : Text) (files : List Text) (lines : List Value) :
    Report.ofLists (.text file) (.text severity) (.text message) (files.map .text) lines (.text id) =
      inTexts file severity message id (files.zip lines) := by
  rw [Report.ofLists, inTexts, backtraceOf, List.zip_map_left]
  rfl

/-- A report in texts is refused for an infinite line, or filed with a location for each reported one. -/
theorem add_inTexts_cases (t : Tree) (file severity message id : Text) (reported : List (Text × Value)) :
    let r := inTexts file severity message id reported
    (∃ p ∈ reported, p.2.IsInfinite) ∧ (∃ log, t.add r = .error t .infiniteLine log) ∨
      (¬∃ p ∈ reported, p.2.IsInfinite) ∧
        ∃ f log, r.Yields f ∧ List.Forall₂ ReadOff reported f.backtrace ∧
          t.add r = .ok { t with view := Tree.file t.view f } (t.store.nextRef f.file) log := by
  intro r
  rcases toLocations_cases reported with ⟨hinfinite, herror⟩ | ⟨hfinite, ls, hls, hreads⟩
  · have hfiled : r.filed = .error .infiniteLine := by
      simp [r, Report.filed, inTexts, classify, submission, herror, Except.bind]
    exact .inl ⟨hinfinite, r.events, by rw [add_eq, hfiled]⟩
  · have hbacktrace : ∀ p ∈ r.backtrace, ∃ l, toLocation p.1 p.2 = .ok l := by
      intro p hp
      obtain ⟨q, hq, rfl⟩ := List.mem_map.mp hp
      rcases toLocation_cases q with ⟨hinfinite, -⟩ | ⟨-, l, hl, -⟩
      · exact absurd ⟨q, hq, hinfinite⟩ hfinite
      · exact ⟨l, hl⟩
    obtain ⟨f, log, hy, hadd⟩ := add_filed t rfl rfl hbacktrace
    obtain rfl : ls = f.backtrace := Except.ok.inj (hls.symm.trans hy.backtrace)
    exact .inr ⟨hfinite, f, log, hy, hreads, hadd⟩

/-- What is read off two lists has a location for each position that both have. -/
theorem readOff_zip {files : List Text} {lines : List Value} {ls : List Location}
    (h : List.Forall₂ ReadOff (files.zip lines) ls) :
    ls.length = min files.length lines.length ∧
      ∀ (i : Nat) (file : Text) (line : Value), files[i]? = some file → lines[i]? = some line →
        ∃ l, ls[i]? = some l ∧ ReadOff (file, line) l := by
  have hlength : ls.length = min files.length lines.length := by rw [← h.length_eq, List.length_zip]
  refine ⟨hlength, fun i file line hfile hline => ?_⟩
  have hzip : (files.zip lines)[i]? = some (file, line) := List.getElem?_zip_eq_some.mpr ⟨hfile, hline⟩
  obtain ⟨hi, hget⟩ := List.getElem?_eq_some_iff.mp hzip
  have hi' : i < ls.length := h.length_eq ▸ hi
  have hread : ReadOff ((files.zip lines).get ⟨i, hi⟩) (ls.get ⟨i, hi'⟩) := h.get hi hi'
  refine ⟨ls[i], List.getElem?_eq_getElem hi', ?_⟩
  rwa [List.get_eq_getElem, hget] at hread

/-- The tree takes the report up: it appends one finding of the file, with a location read off for each position
that both lists have. Only an infinite line among them is refused, with nothing changed. -/
structure TakesUp (t : Tree) (r : Report) (file : Text) (files : List Text) (lines : List Value) : Prop where
  accepted_iff : (∃ ref, (t.add r).result = .ok ref) ↔ ∀ p ∈ files.zip lines, ¬p.2.IsInfinite
  refused : ∀ e, (t.add r).result = .error e → e = .infiniteLine ∧ (t.add r).state = t
  appended : ∀ ref, (t.add r).result = .ok ref → ∃ f,
    Store.Appended f t.store.files (t.add r).state.store.files ∧
    (t.add r).state.store.size = t.store.size + 1 ∧
    f.file = Path.canonical file ∧
    f.backtrace.length = min files.length lines.length ∧
    ∀ (i : Nat) (file : Text) (line : Value), files[i]? = some file → lines[i]? = some line →
      ∃ l, f.backtrace[i]? = some l ∧ ReadOff (file, line) l

theorem takesUp_inTexts {t : Tree} (h : t.store.WellFormed) (file severity message id : Text)
    (files : List Text) (lines : List Value) :
    t.TakesUp (inTexts file severity message id (files.zip lines)) file files lines := by
  rcases add_inTexts_cases t file severity message id (files.zip lines) with
    ⟨⟨p, hp, hinfinite⟩, log, hadd⟩ | ⟨hfinite, f, log, hy, hreads, hadd⟩
  · refine ⟨?_, ?_, ?_⟩ <;> rw [hadd]
    · refine ⟨fun ⟨ref, href⟩ => ?_, fun hfinite => absurd hinfinite (hfinite p hp)⟩
      cases href
    · exact fun e he => ⟨(Except.error.inj he).symm, rfl⟩
    · intro ref href
      cases href
  · refine ⟨?_, ?_, ?_⟩ <;> rw [hadd]
    · exact ⟨fun _ p hp hinfinite => hfinite ⟨p, hp, hinfinite⟩, fun _ => ⟨_, rfl⟩⟩
    · intro e he
      cases he
    · intro ref _
      obtain ⟨gs, happended, hfile⟩ := file_eq h f
      have hfiles : (Tree.file t.view f).store.files = gs := by rw [hfile]
      have hstate : Store.Appended (Store.setHidden (!t.mask.shows f.category) f) t.store.files
          (Tree.file t.view f).store.files := hfiles ▸ happended
      have hcanonical : f.file = Path.canonical file := by
        simpa [inTexts, Value.toCanonicalPath, Value.orEmpty_text] using hy.file.symm
      obtain ⟨hlength, hpositions⟩ := readOff_zip hreads
      exact ⟨_, hstate, hstate.length_findings, hcanonical, hlength, hpositions⟩

/-- Any value for a line is accepted that is not infinite. Every state of a tree takes up every report in texts,
whatever the values for its lines: with files and lines in two lists, and with pairs of a file and a line. -/
theorem lines_accepted_iff (mask : Mask) (policy : PathPolicy) (applications : Registry)
    (before : List Op) (file severity message id : Text) :
    let t := ({ view := { mask }, policy, applications } : Tree).run before
    (∀ files lines,
      t.TakesUp (.ofLists (.text file) (.text severity) (.text message) (files.map .text) lines (.text id))
        file files lines) ∧
    ∀ reported, t.TakesUp (inTexts file severity message id reported)
      file (reported.map (·.1)) (reported.map (·.2)) := by
  intro t
  have hsound : Filters.Sound t.store :=
    run_sound (t := { view := { mask }, policy, applications }) (Filters.sound_empty 0) before
  refine ⟨fun files lines => ?_, fun reported => ?_⟩
  · rw [ofLists_texts]
    exact takesUp_inTexts hsound.wellFormed file severity message id files lines
  · have hzip : (reported.map (·.1)).zip (reported.map (·.2)) = reported := by
      rw [List.zip_map', List.map_id']
    simpa only [hzip] using takesUp_inTexts hsound.wellFormed file severity message id
      (reported.map (·.1)) (reported.map (·.2))

/-- An infinite value that stands for no reported file does no harm. -/
theorem surplus_line_accepted :
    let files : List Text := ["a.c", "b.c"]
    let lines : List Value := [.int 3, .list [], .float (.infinite false)]
    let r := Report.ofLists (.text "a.c") (.text "style") (.text "unused variable") (files.map .text) lines
      (.text "unusedVariable")
    (∀ p ∈ files.zip lines, ¬p.2.IsInfinite) ∧ ∃ ref, (({} : Tree).add r).result = .ok ref := by
  intro files lines r
  have hfinite : ∀ p ∈ files.zip lines, ¬p.2.IsInfinite := by
    simp [files, lines, Value.IsInfinite]
  have htakes := (lines_accepted_iff {} {} {} [] "a.c" "style" "unused variable" "unusedVariable").1 files lines
  exact ⟨hfinite, htakes.accepted_iff.mpr hfinite⟩

/-- A line that is infinite loses the finding, though one that is no number at all is taken for zero. -/
theorem infinite_line_refused :
    let report (line : Value) :=
      Report.ofLists (.text "a.c") (.text "style") (.text "unused variable") [.text "a.c"] [line]
        (.text "unusedVariable")
    (({} : Tree).add (report (.float (.infinite false)))).result = .error .infiniteLine ∧
      (({} : Tree).add (report (.float (.infinite false)))).state.store.files = [] ∧
      (({} : Tree).add (report (.float .nan))).result = .ok ⟨"a.c", 0, 0⟩ :=
  ⟨rfl, rfl, rfl⟩

end Tree
end Findings

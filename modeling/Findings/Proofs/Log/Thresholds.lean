import Findings.Log.Threshold
import Findings.Proofs.Lists

/-!
# Thresholds that are taken and refused

All that a threshold can name is among `namedSettings`: a level, or one of two settings that are none and are
refused (`threshold_cases`). Under a threshold that is taken, a logger at or below one of the quiet loggers has
the level of these, whatever other loggers there are (`inherited_quiet`), and one apart from them that of the
threshold (`inherited_apart`).
-/

namespace Findings.Log

/-! ## Names -/

theorem nodup_settings : (namedSettings.map (·.1)).Nodup := by decide

theorem nodup_levels : (namedLevels.map (·.1)).Nodup := by decide

/-- The names that belong to other settings than the levels. -/
def otherNames : List Text := ["BASIC_FORMAT", "_STYLES"]

/-- The name, in capitals, is that of a level, of another setting, which is refused, or of none. -/
theorem threshold_cases (given : Option Text) :
    let name := capitals (given.getD "INFO")
    (∃ level, (name, level) ∈ namedLevels ∧ threshold given = .ok level) ∨
    (name ∈ otherNames ∧ ∃ e, threshold given = .error e) ∨
    (name ∉ namedLevels.map (·.1) ∧ name ∉ otherNames ∧ threshold given = .ok info) := by
  intro name
  have hthreshold : threshold given =
      Setting.toLevel (((namedSettings.find? fun e => e.1 = name).map Prod.snd).getD (.level info)) := rfl
  clear_value name
  cases hfound : (namedSettings.find? fun e => e.1 = name).map Prod.snd with
  | none =>
    have hnone : name ∉ namedLevels.map (·.1) ++ otherNames := find?_key_eq_none_iff.mp hfound
    rw [List.mem_append, not_or] at hnone
    rw [hthreshold, hfound]
    exact .inr (.inr ⟨hnone.1, hnone.2, rfl⟩)
  | some setting =>
    have hmem := (find?_key_eq_some_iff nodup_settings).mp hfound
    rw [hthreshold, hfound]
    rcases List.mem_append.mp hmem with hlevel | hother
    · obtain ⟨e, he, hname⟩ := List.mem_map.mp hlevel
      obtain ⟨rfl, rfl⟩ := Prod.mk.inj hname
      exact .inl ⟨e.2, he, rfl⟩
    · rcases List.mem_pair.mp hother with hname | hname
      · obtain ⟨rfl, rfl⟩ := Prod.mk.inj hname
        exact .inr (.inl ⟨List.mem_cons_self, _, rfl⟩)
      · obtain ⟨rfl, rfl⟩ := Prod.mk.inj hname
        exact .inr (.inl ⟨List.mem_cons_of_mem _ List.mem_cons_self, _, rfl⟩)

/-! ## Levels from above -/

section Loggers

variable (others : List Text) (root : Level)

theorem ownLevel?_quiet : ∀ name ∈ quietLoggers, ownLevel? (loggersWith others) name = some warning := by
  simp only [quietLoggers, List.forall_mem_cons, List.not_mem_nil, false_implies, implies_true, and_true]
  exact ⟨rfl, rfl, rfl⟩

/-- Only the quiet loggers have a level of their own. -/
theorem ownLevel?_cases {name : Text} {level : Level} (h : ownLevel? (loggersWith others) name = some level) :
    level = 0 ∨ level = warning ∧ name ∈ quietLoggers := by
  obtain ⟨e, he, rfl⟩ := Option.map_eq_some_iff.mp h
  obtain rfl : e.1 = name := by simpa using List.find?_some he
  rcases List.mem_append.mp (List.mem_of_find?_eq_some he) with hquiet | hother
  · obtain ⟨name, hname, rfl⟩ := List.mem_map.mp hquiet
    exact .inr ⟨rfl, hname⟩
  · obtain ⟨name, -, rfl⟩ := List.mem_map.mp hother
    exact .inl rfl

/-- Whatever stands below a quiet logger, and whichever loggers are between, the level is that of the quiet one.
The name is read from its end, and each step is one character or, behind a dot, two; so it comes to the dot of the
quiet logger unless another dot stands right behind that. -/
theorem inherited_quiet {quiet : Text} (hquiet : quiet ∈ quietLoggers) {rest : Text}
    (h : rest.getLast? ≠ some (.ofChar '.')) :
    inherited (loggersWith others) root (rest ++ .ofChar '.' :: quiet.reverse) = warning := by
  obtain ⟨d, r, hr⟩ : ∃ d r, quiet.reverse = d :: r := by
    have hne : ∀ quiet ∈ quietLoggers, quiet.reverse ≠ [] := by decide
    exact List.exists_cons_of_ne_nil (hne quiet hquiet)
  have hfirst : inherited (loggersWith others) root (.ofChar '.' :: quiet.reverse) = warning := by
    have hown : ownLevel? (loggersWith others) (d :: r).reverse = some warning := by
      rw [← hr, List.reverse_reverse]
      exact ownLevel?_quiet others quiet hquiet
    have hwarning : warning ≠ 0 := by decide
    rw [hr, inherited, if_pos rfl, hown]
    exact if_neg hwarning
  induction rest using List.twoStepInduction with
  | nil => exact hfirst
  | singleton c =>
    have hc : c ≠ .ofChar '.' := fun hc => h (congrArg some hc)
    rw [List.singleton_append, inherited, if_neg hc]
    exact hfirst
  | cons_cons c d rest ih ih' =>
    have hnext : inherited (loggersWith others) root (d :: rest ++ .ofChar '.' :: quiet.reverse) = warning :=
      ih' d (by simpa using h)
    rw [List.cons_append, List.cons_append, inherited]
    split_ifs with hc
    · cases hown : ownLevel? (loggersWith others)
        (d :: (rest ++ .ofChar '.' :: quiet.reverse)).reverse with
      | none =>
        refine ih fun hlast => h ?_
        rw [List.getLast?_cons_cons, List.getLast?_cons, hlast]
        rfl
      | some level =>
        rcases ownLevel?_cases others hown with rfl | ⟨rfl, -⟩
        · exact hnext
        · rfl
    · exact hnext

/-- A name at which no quiet logger ends in front of a dot gets the level of the root. -/
theorem inherited_apart {name : Text} (h : ∀ quiet ∈ quietLoggers, ¬quiet ++ [.ofChar '.'] <+: name.reverse) :
    inherited (loggersWith others) root name = root := by
  induction name using List.twoStepInduction with
  | nil => rfl
  | singleton c => rfl
  | cons_cons c d rest ih ih' =>
    have hback : (c :: d :: rest).reverse = (d :: rest).reverse ++ [c] := List.reverse_cons
    rw [hback] at h
    have hnext : inherited (loggersWith others) root (d :: rest) = root :=
      ih' d fun quiet hquiet hstart => h quiet hquiet (hstart.trans (List.prefix_append _ _))
    rw [inherited]
    split_ifs with hc
    · cases hown : ownLevel? (loggersWith others) (d :: rest).reverse with
      | none =>
        refine ih fun quiet hquiet hstart => h quiet hquiet (hstart.trans ?_)
        rw [List.reverse_cons, List.append_assoc]
        exact List.prefix_append _ _
      | some level =>
        rcases ownLevel?_cases others hown with rfl | ⟨rfl, hquiet⟩
        · exact hnext
        · exact absurd (hc ▸ List.prefix_refl _) (h _ hquiet)
    · exact hnext

end Loggers

/-! ## What is written -/

/-- The logger is one of the quiet ones or below one: behind its name and a dot no other dot follows. -/
def IsQuiet (logger : Text) : Prop :=
  ∃ quiet ∈ quietLoggers, logger = quiet ∨
    ∃ rest, rest.head? ≠ some (.ofChar '.') ∧ logger = quiet ++ .ofChar '.' :: rest

/-- The logger is none of the quiet ones, and its name does not start with one and a dot. -/
def IsApart (logger : Text) : Prop :=
  ∀ quiet ∈ quietLoggers, logger ≠ quiet ∧ ¬quiet ++ [.ofChar '.'] <+: logger

/-- The loggers of the tree and its services are apart. -/
theorem isApart_tree (rest : Text) : IsApart ("results_tree" ++ rest) := by
  have hfirst : ∀ quiet ∈ quietLoggers, ∃ c r, quiet = c :: r ∧ c ≠ .ofChar 'r' := by
    simp only [quietLoggers, List.forall_mem_cons, List.not_mem_nil, false_implies, implies_true, and_true]
    exact ⟨⟨_, _, rfl, by decide⟩, ⟨_, _, rfl, by decide⟩, ⟨_, _, rfl, by decide⟩⟩
  have hname : Text.ofString "results_tree" ++ rest = .ofChar 'r' :: (Text.ofString "esults_tree" ++ rest) := rfl
  intro quiet hquiet
  obtain ⟨c, r, rfl, hc⟩ := hfirst quiet hquiet
  rw [hname]
  refine ⟨fun h => hc (List.cons.inj h).1.symm, ?_⟩
  rintro ⟨behind, h⟩
  exact hc (List.cons.inj h).1

theorem levelOf_quiet (others : List Text) (root : Level) {logger : Text} (h : IsQuiet logger) :
    levelOf (loggersWith others) root logger = warning := by
  obtain ⟨quiet, hquiet, rfl | ⟨rest, hrest, rfl⟩⟩ := h
  · rw [levelOf, ownLevel?_quiet others logger hquiet]
    rfl
  · have hinherited := @inherited_quiet others root quiet hquiet rest.reverse (by simpa using hrest)
    have hreverse : (quiet ++ .ofChar '.' :: rest).reverse = rest.reverse ++ .ofChar '.' :: quiet.reverse := by
      simp
    rw [levelOf, hreverse, hinherited]
    cases hown : ownLevel? (loggersWith others) (quiet ++ .ofChar '.' :: rest) with
    | none => rfl
    | some level => rcases ownLevel?_cases others hown with rfl | ⟨rfl, -⟩ <;> rfl

theorem levelOf_apart (others : List Text) (root : Level) {logger : Text} (h : IsApart logger) :
    levelOf (loggersWith others) root logger = root := by
  have hinherited : inherited (loggersWith others) root logger.reverse = root :=
    inherited_apart others root fun quiet hquiet => by simpa using (h quiet hquiet).2
  rw [levelOf, hinherited]
  cases hown : ownLevel? (loggersWith others) logger with
  | none => rfl
  | some level =>
    rcases ownLevel?_cases others hown with rfl | ⟨-, hquiet⟩
    · rfl
    · exact absurd rfl (h logger hquiet).1

theorem isWrittenAmong_quiet (others : List Text) (root : Level) {logger : Text} (h : IsQuiet logger)
    (level : Level) : isWrittenAmong (loggersWith others) root logger level ↔ warning ≤ level := by
  have hpositive : warning ≤ level → 0 < level := fun h => Int.lt_of_lt_of_le (by decide) h
  rw [isWrittenAmong, levelOf_quiet others root h]
  simpa using hpositive

theorem isWrittenAmong_apart (others : List Text) (root : Level) {logger : Text} (h : IsApart logger)
    (level : Level) :
    isWrittenAmong (loggersWith others) root logger level ↔ 0 < level ∧ root ≤ level := by
  rw [isWrittenAmong, levelOf_apart others root h]
  simp

/-- A threshold is taken just if its name, in capitals, belongs to no setting but a level. Then it is the level of
that name, or that of information if no level has it. With it in force, and whichever loggers there are besides the
quiet ones, records of these and of what is below them are written from the level of a warning on, those of any
logger apart from them from the threshold on, if their level is more than zero. -/
theorem threshold_in_force (env : Environment) :
    let name := capitals ((env.get? "LOG_LEVEL").getD "INFO")
    ((∃ root, thresholdIn env = .ok root) ↔ name ∉ otherNames) ∧
    ∀ root, thresholdIn env = .ok root →
      (∀ level, (name, level) ∈ namedLevels → root = level) ∧
      (name ∉ namedLevels.map (·.1) → root = info) ∧
      ∀ (others : List Text) (logger : Text) (level : Level),
        (IsQuiet logger → (isWrittenAmong (loggersWith others) root logger level ↔ warning ≤ level)) ∧
        (IsApart logger →
          (isWrittenAmong (loggersWith others) root logger level ↔ 0 < level ∧ root ≤ level)) := by
  intro name
  have hwritten : ∀ root (others : List Text) (logger : Text) (level : Level),
      (IsQuiet logger → (isWrittenAmong (loggersWith others) root logger level ↔ warning ≤ level)) ∧
      (IsApart logger →
        (isWrittenAmong (loggersWith others) root logger level ↔ 0 < level ∧ root ≤ level)) :=
    fun root others _ level => ⟨fun hquiet => isWrittenAmong_quiet others root hquiet level,
      fun hapart => isWrittenAmong_apart others root hapart level⟩
  have hdisjoint : ∀ name ∈ namedLevels.map (·.1), name ∉ otherNames := by decide
  rcases threshold_cases (env.get? "LOG_LEVEL") with ⟨level, hmem, hok⟩ | ⟨hother, e, herror⟩ |
    ⟨hlevels, hothers, hok⟩
  · have hkey : name ∈ namedLevels.map (·.1) := List.mem_map_of_mem (f := Prod.fst) hmem
    refine ⟨iff_of_true ⟨level, hok⟩ (hdisjoint name hkey), fun root hroot => ?_⟩
    obtain rfl : level = root := Except.ok.inj (hok.symm.trans hroot)
    refine ⟨fun level' hmem' => ?_, fun hnone => absurd hkey hnone, hwritten level⟩
    exact congrArg Prod.snd (List.inj_on_of_nodup_map nodup_levels hmem hmem' rfl)
  · refine ⟨iff_of_false ?_ (not_not.mpr hother), fun root hroot => ?_⟩
    · rintro ⟨root, hroot⟩
      exact absurd (herror.symm.trans hroot) (by simp)
    · exact absurd (herror.symm.trans hroot) (by simp)
  · refine ⟨iff_of_true ⟨info, hok⟩ hothers, fun root hroot => ?_⟩
    obtain rfl : info = root := Except.ok.inj (hok.symm.trans hroot)
    exact ⟨fun level hmem => absurd (List.mem_map_of_mem (f := Prod.fst) hmem) hlevels, fun _ => rfl,
      hwritten info⟩

/-- An environment that asks for the level of a warning, with a small letter outside of ASCII. -/
def dotlessWarning : Environment := ⟨[("LOG_LEVEL", "warn\u0131ng")]⟩

theorem dotlessWarning_in_force :
    thresholdIn dotlessWarning = .ok warning ∧
    (∀ level, isWritten warning "results_tree.x" level ↔ warning ≤ level) ∧
    ∀ level, isWritten warning "httpx.y" level ↔ warning ≤ level := by
  obtain ⟨htaken, hforce⟩ := threshold_in_force dotlessWarning
  have hname : capitals ((dotlessWarning.get? "LOG_LEVEL").getD "INFO") = Text.ofString "WARNING" := by decide
  rw [hname] at htaken hforce
  obtain ⟨root, hroot⟩ := htaken.mpr (by decide)
  obtain ⟨hlevel, -, hwritten⟩ := hforce root hroot
  obtain rfl : root = warning := hlevel warning (by decide)
  have hquiet : IsQuiet "httpx.y" := ⟨"httpx", by decide, .inr ⟨"y", by decide, rfl⟩⟩
  refine ⟨hroot, fun level => ?_, fun level => (hwritten [] "httpx.y" level).1 hquiet⟩
  refine ((hwritten [] "results_tree.x" level).2 (isApart_tree ".x")).trans (and_iff_right_of_imp ?_)
  exact fun h => Int.lt_of_lt_of_le (by decide) h

/-- The name of the format of a line is that of no level, and is refused. -/
theorem basic_format_refused :
    capitals "basic_format" ∉ namedLevels.map (·.1) ∧
      thresholdIn ⟨[("LOG_LEVEL", "basic_format")]⟩ = .error .unknownLevel :=
  ⟨by decide, by decide⟩

end Findings.Log

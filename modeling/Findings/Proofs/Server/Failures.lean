import Findings.Proofs.Server.Answers
import Findings.Proofs.Server.Surrogates

/-!
# Requests that fail

A request is checked before anything is carried out, so a request that is refused changes nothing. What is
carried out is answered with success, unless the answer cannot be sent. Without surrogates in the body this
comes about in one way: the path settings are changed while the checked directory has a surrogate, which the
answer would repeat (`failing_operation`). Then the settings are changed although the request fails
(`failed_request_changes_settings`), and that is all that a request that fails can change
(`failing_requests_iff`).
-/

namespace Findings

namespace Tree

theorem step_checkDirectory {t : Tree} (h : t.policy.checkDirectory.isEncodable) {op : Op}
    (hop : ∀ directory, op = .setCheckDirectory directory → directory.isEncodable) :
    (t.step op).1.policy.checkDirectory.isEncodable := by
  cases op with
  | add r =>
    rcases add_cases t r with ⟨e, log, hadd⟩ | ⟨f, log, -, hadd⟩
    all_goals
      simp only [step, hadd]
      exact h
  | setCheckDirectory directory =>
    exact Path.all_canonical (by decide) (by decide) (hop directory rfl)
  | _ => exact h

/-- The checked directory can be encoded as long as all that are set can. -/
theorem run_checkDirectory {t : Tree} (h : t.policy.checkDirectory.isEncodable) {ops : List Op}
    (hops : ∀ directory, .setCheckDirectory directory ∈ ops → directory.isEncodable) :
    (t.run ops).policy.checkDirectory.isEncodable := by
  induction ops generalizing t with
  | nil => exact h
  | cons op ops ih =>
    refine ih (step_checkDirectory h ?_) fun directory hmem => hops directory (List.mem_cons_of_mem op hmem)
    rintro directory rfl
    exact hops directory List.mem_cons_self

end Tree

namespace Server

variable {s : Server} {r : Request}

/-! ## What can be sent -/

theorem isSendable_maskValue (m : Mask) : isSendable (maskValue m) := by
  have hlabels : ∀ c ∈ Category.all, c.label.isEncodable := by decide
  rw [maskValue, isSendable, areSendableFields_iff, Mask.entries, List.map_map, List.forall_mem_map]
  exact fun c hc => ⟨hlabels c hc, rfl⟩

theorem isSendable_policyValue (p : PathPolicy) :
    isSendable (policyValue p) ↔ p.checkDirectory.isEncodable := by
  have hkeys : (Text.ofString "check_directory").isEncodable ∧
      (Text.ofString "show_full_path").isEncodable ∧ (Text.ofString "save_full_path").isEncodable ∧
      (Text.ofString "save_all_errors").isEncodable := by decide
  simp [policyValue, isSendable, areSendableFields, hkeys]

/-- A report of texts without surrogates is answered with a reference. -/
theorem isSendable_responseTo_add {report : Tree.Report} (htexts : report.OfTexts)
    (hencodable : report.Encodable) :
    ∃ ref : Ref, s.responseTo (.add report) = .ok (.object ref.fields) ∧
      isSendable (.object ref.fields) := by
  obtain ⟨f, log, hy, hadd⟩ := Tree.add_ofTexts s.tree htexts
  refine ⟨s.tree.store.nextRef f.file, ?_, ?_⟩
  · simp only [responseTo, hadd, Outcome.ok]
  · exact (isSendable_fields _).mpr (hy.encodable hencodable).file

/-! ## Failing -/

theorem sent_status_ok {v : Value} (h : isSendable v) : (Response.ok v).sent.status = 200 :=
  (sent_status (.json v)).mpr h

/-- An operation that is carried out and fails is a change of the path settings, while the checked directory
cannot be encoded. -/
theorem failing_operation (h : r.NoSurrogates) {op : Tree.Op} (hop : r.operation? = some op)
    (hfail : 400 ≤ (s.step r).2.response.status) :
    ¬s.tree.policy.checkDirectory.isEncodable ∧ ∃ full save all, op = .updateSettings full save all := by
  have hsucceeds : (s.responseTo op).sent.status ≠ 200 := by
    rw [step_operation hop] at hfail
    intro hstatus
    rw [hstatus] at hfail
    omega
  cases op with
  | add report =>
    obtain ⟨htexts, hencodable⟩ := h.report hop
    obtain ⟨ref, hresponse, hsendable⟩ := isSendable_responseTo_add (s := s) htexts hencodable
    rw [hresponse] at hsucceeds
    exact absurd (sent_status_ok hsendable) hsucceeds
  | showCategory code shown => exact absurd (sent_status_ok (isSendable_maskValue _)) hsucceeds
  | setCheckDirectory directory =>
    have hdirectory : (Path.canonical directory).isEncodable :=
      Path.all_canonical (by decide) (by decide) (h.directory hop)
    exact absurd (sent_status_ok ((isSendable_policyValue _).mpr hdirectory)) hsucceeds
  | updateSettings full save all =>
    refine ⟨fun hdirectory => hsucceeds ?_, full, save, all, rfl⟩
    exact sent_status_ok ((isSendable_policyValue _).mpr hdirectory)
  | _ => exact absurd rfl hsucceeds

/-- Setting the path settings keeps the server just when it sets them to what they are. -/
theorem after_updateSettings_eq_iff (full save all : Bool) :
    s.after (.updateSettings full save all) = s ↔
      full = s.tree.policy.showFullPath ∧ save = s.tree.policy.saveFullPath ∧
        all = s.tree.policy.saveAllErrors := by
  obtain ⟨⟨view, policy, applications⟩, exportFormat, sink⟩ := s
  obtain ⟨directory, full', save', all'⟩ := policy
  simp [after, Tree.step, Tree.updateSettings, Outcome.ok]

/-- Exactly when a request that fails changes something. What is only asked for never does. A request without
surrogates that fails does just when it asks for path settings other than those in force while the checked
directory has a surrogate. So it never does if neither the directory in the settings nor any earlier request
has one. -/
theorem failing_requests_iff (settings : Settings) (applications : Registry) (sink : Sink)
    (requests : List Request) :
    let s := (start settings applications sink).run requests
    (∀ r : Request, r.method = .get → (s.step r).1 = s) ∧
    (∀ r : Request, r.NoSurrogates → 400 ≤ (s.step r).2.response.status →
      ((s.step r).1 ≠ s ↔ ¬s.tree.policy.checkDirectory.isEncodable ∧
        ∃ full save all, r.operation? = some (.updateSettings full save all) ∧
          ¬(full = s.tree.policy.showFullPath ∧ save = s.tree.policy.saveFullPath ∧
            all = s.tree.policy.saveAllErrors))) ∧
    (settings.checkDirectory.isEncodable → (∀ r ∈ requests, r.NoSurrogates) →
      ∀ r : Request, r.NoSurrogates → 400 ≤ (s.step r).2.response.status → (s.step r).1 = s) := by
  intro s
  refine ⟨fun r hget => ?_, fun r hclean hfail => ?_, fun hdirectory hrequests r hclean hfail => ?_⟩
  · rw [step_fst, Request.operation?_of_get hget]
    rfl
  · rw [step_fst]
    cases hop : r.operation? with
    | none => simp
    | some op =>
      obtain ⟨hdirectory, full, save, all, rfl⟩ := failing_operation hclean hop hfail
      rw [Option.elim_some, ne_eq, after_updateSettings_eq_iff]
      constructor
      · exact fun hchanged => ⟨hdirectory, full, save, all, rfl, hchanged⟩
      · rintro ⟨-, full', save', all', hsame, hchanged⟩
        obtain ⟨rfl, rfl, rfl⟩ := Tree.Op.updateSettings.inj (Option.some.inj hsame)
        exact hchanged
  · rw [step_fst]
    cases hop : r.operation? with
    | none => rfl
    | some op =>
      obtain ⟨hsurrogate, -⟩ := failing_operation hclean hop hfail
      refine absurd ?_ hsurrogate
      rw [show s = _ from run_operations _ requests]
      refine Tree.run_checkDirectory hdirectory fun directory hmem => ?_
      obtain ⟨earlier, hmem, hearlier⟩ := List.mem_filterMap.mp hmem
      exact (hrequests earlier hmem).directory hearlier

/-! ## A surrogate in the checked directory -/

/-- A request to set the checked directory to a lone surrogate. -/
def settingSurrogate : Request where
  method := .put
  address := .ofText "/api/settings/check-directory"
  body := Utf8.encode "\x7b\"path\":\"\\ud800\"\x7d"

/-- A request to show and save full paths, and to save shown findings only. -/
def settingPaths : Request where
  method := .put
  address := .ofText "/api/settings"
  body := Utf8.encode
    "\x7b\"show_full_path\":true,\"save_full_path\":true,\"save_all_errors\":false\x7d"

/-- A request without surrogates fails, yet the path settings are changed by it. -/
theorem failed_request_changes_settings :
    let s := (start {} {} {}).run [settingSurrogate]
    settingPaths.NoSurrogates ∧ (s.step settingPaths).2.response.status = 500 ∧
      s.tree.policy.showFullPath = false ∧ (s.step settingPaths).1.tree.policy.showFullPath = true := by
  decide +kernel

theorem operation?_settingPaths :
    settingPaths.operation? = some (.updateSettings true true false) := by
  have hroute : settingPaths.route? = some .settings := rfl
  have hbody : readBody settingPaths.body = .ok (.object [("show_full_path", .bool true),
      ("save_full_path", .bool true), ("save_all_errors", .bool false)]) := by cbv
  have hread : settingPaths.read? readSettings = some ⟨true, true, false⟩ :=
    Request.read?_eq_some.mpr ⟨_, hbody, rfl⟩
  calc settingPaths.operation? = settingPaths.operationAt .settings := by
        rw [Request.operation?, hroute, Option.bind_some]
    _ = (settingPaths.read? readSettings).map fun p =>
          .updateSettings p.showFullPath p.saveFullPath p.saveAllErrors := rfl
    _ = some (.updateSettings true true false) := by rw [hread, Option.map_some]

/-- A request to hide a category that does not exist. -/
def hidingUnknown : Request where
  method := .put
  address := .ofText "/api/results/visibility/none"
  body := Utf8.encode "\x7b\"show\":false\x7d"

/-- The failing change of settings is such a request. After the settings were changed without the surrogate,
a label that no category has is refused and changes nothing, nor does asking for the listing. -/
theorem settingPaths_failing :
    let s := (start {} {} {}).run [settingSurrogate]
    let s' := (start {} {} {}).run [settingPaths]
    (400 ≤ (s.step settingPaths).2.response.status ∧ (s.step settingPaths).1 ≠ s) ∧
      ((s'.step hidingUnknown).2.response.status = 400 ∧ (s'.step hidingUnknown).1 = s') ∧
      (s'.step listing).1 = s' := by
  obtain ⟨-, hfails, -⟩ := failing_requests_iff {} {} {} [settingSurrogate]
  obtain ⟨hget, -, hclean⟩ := failing_requests_iff {} {} {} [settingPaths]
  have hpaths : settingPaths.NoSurrogates := by decide +kernel
  have hunknown : hidingUnknown.NoSurrogates := by decide +kernel
  have hstatus : 400 ≤ (((start {} {} {}).run [settingSurrogate]).step settingPaths).2.response.status := by
    decide +kernel
  have hrefused : (((start {} {} {}).run [settingPaths]).step hidingUnknown).2.response.status = 400 := by
    decide +kernel
  have hfail : 400 ≤ (((start {} {} {}).run [settingPaths]).step hidingUnknown).2.response.status := by
    rw [hrefused]
  have hdirectory :
      ¬((start {} {} {}).run [settingSurrogate]).tree.policy.checkDirectory.isEncodable := by
    decide +kernel
  have hshort : ¬(true = ((start {} {} {}).run [settingSurrogate]).tree.policy.showFullPath ∧
      true = ((start {} {} {}).run [settingSurrogate]).tree.policy.saveFullPath ∧
      false = ((start {} {} {}).run [settingSurrogate]).tree.policy.saveAllErrors) := by
    decide +kernel
  have hsettings : ∀ r ∈ [settingPaths], r.NoSurrogates := List.forall_mem_singleton.mpr hpaths
  refine ⟨⟨hstatus, ?_⟩, ⟨hrefused, ?_⟩, hget listing rfl⟩
  · exact (hfails settingPaths hpaths hstatus).mpr
      ⟨hdirectory, true, true, false, operation?_settingPaths, hshort⟩
  · exact hclean rfl hsettings hidingUnknown hunknown hfail

end Server
end Findings

import Mathlib
import Findings.Proofs.Labels
import Findings.Proofs.Tree.Visibility
import Findings.Server.Basic

/-!
# The operation that a request asks for

Which operation on the tree a request asks for can be told from the request alone (`Request.operation?`): by
its route, also if the client is sent there from another path, its method and its body. A request that asks
for none leaves the server as it is, any other does to the tree what its operation does (`step_fst`). So
requests do to the tree what a run of their operations does, and the format and the sink of the server stay
(`run_operations`).
-/

namespace Findings.Server

/-- The route at which a path ends from where the client may still be sent on `n` times. -/
def Route.reached : Nat → Text → Option Route
  | n, path =>
    match Route.ofPath? path with
    | some route => some route
    | none => match n, Route.redirection? path with
      | n + 1, some path => reached n (sentPath path)
      | _, _ => none

namespace Request

/-- What the body is read as, if it can be read. -/
def read? {α : Type} (r : Request) (read : Value → Validation.Checked α) : Option α :=
  match readBody r.body with
  | .error _ => none
  | .ok v => (read v).toOption

/-- The route at which a request is carried out. -/
def route? (r : Request) : Option Route := Route.reached redirectionLimit r.address.path

/-- The operation on the tree that a request asks for at a route. -/
def operationAt (r : Request) (route : Route) : Option Tree.Op :=
  match route, r.method with
  | .results, .post => (r.read? readReport).map .add
  | .results, .delete => some .clear
  | .category label, .put =>
    (Category.ofLabel? label).bind fun c => (r.read? readShow).map (.showCategory (.real c))
  | .settings, .put =>
    (r.read? readSettings).map fun p => .updateSettings p.showFullPath p.saveFullPath p.saveAllErrors
  | .checkDirectory, .put => (r.read? readDirectory).map .setCheckDirectory
  | _, _ => none

/-- The operation on the tree that a request asks for, if it asks for one. -/
def operation? (r : Request) : Option Tree.Op := r.route?.bind r.operationAt

theorem route?_of_ofPath? {r : Request} {route : Route} (h : Route.ofPath? r.address.path = some route) :
    r.route? = some route := by
  rw [route?, Route.reached.eq_def]
  simp only [h]

variable {α : Type} {r : Request} {read : Value → Validation.Checked α}

theorem read?_eq_some {a : α} : r.read? read = some a ↔ ∃ v, readBody r.body = .ok v ∧ read v = .ok a := by
  unfold read?
  cases readBody r.body with
  | error e => simp
  | ok v => cases hv : read v <;> simp [hv, Except.toOption]

/-- Findings are added by what is posted to the results. -/
theorem operation?_eq_add {report : Tree.Report} :
    r.operation? = some (.add report) ↔
      r.route? = some .results ∧ r.method = .post ∧ r.read? readReport = some report := by
  rw [operation?, Option.bind_eq_some_iff]
  constructor
  · rintro ⟨route, hroute, hop⟩
    unfold operationAt at hop
    split at hop <;> simp_all [Option.bind_eq_some_iff]
  · rintro ⟨hroute, hmethod, hread⟩
    exact ⟨.results, hroute, by simp [operationAt, hmethod, hread]⟩

theorem read?_of_setCheckDirectory {directory : Text}
    (h : r.operation? = some (.setCheckDirectory directory)) : r.read? readDirectory = some directory := by
  rw [operation?, Option.bind_eq_some_iff] at h
  obtain ⟨route, -, hop⟩ := h
  unfold operationAt at hop
  split at hop <;> simp_all [Option.bind_eq_some_iff]

/-- Several categories at once are never shown or hidden. -/
theorem regular_of_operation? {op : Tree.Op} (h : r.operation? = some op) : op.Regular := by
  rw [operation?, Option.bind_eq_some_iff] at h
  obtain ⟨route, -, hop⟩ := h
  cases op with
  | showCategories entries =>
    unfold operationAt at hop
    split at hop <;> simp_all [Option.bind_eq_some_iff]
  | _ => trivial

/-- A request to hide a category. -/
structure Hides (r : Request) (c : Category) : Prop where
  route : r.route? = some (.category c.label)
  method : r.method = .put
  body : r.read? readShow = some false

theorem Hides.operation?_eq {c : Category} (h : r.Hides c) :
    r.operation? = some (.showCategory (.real c) false) := by
  rw [operation?, h.route, Option.bind_some]
  simp only [operationAt, h.method, Category.ofLabel?_label, h.body, Option.bind_some, Option.map_some]

/-- What is only asked for carries nothing out. -/
theorem operation?_of_get (h : r.method = .get) : r.operation? = none := by
  rw [operation?, Option.bind_eq_none_iff]
  intro route _
  cases route <;> simp [operationAt, h]

end Request

/-- The request that hides a category. -/
def concealing (c : Category) : Request where
  method := .put
  address := .ofText ("/api/results/visibility/" ++ c.label)
  body := Utf8.encode "\x7b\"show\":false\x7d"

theorem hides_concealing (c : Category) : (concealing c).Hides c where
  route := by cases c <;> rfl
  method := rfl
  body := by
    have hbody : readBody (concealing c).body = .ok (.object [("show", .bool false)]) := by cbv
    exact Request.read?_eq_some.mpr ⟨_, hbody, rfl⟩

variable {s : Server} {r : Request}

/-! ## Carrying out an operation -/

/-- The server after an operation on its tree. -/
def after (s : Server) (op : Tree.Op) : Server := { s with tree := (s.tree.step op).1 }

/-- The response to an operation that a request can ask for. -/
def responseTo (s : Server) (op : Tree.Op) : Response :=
  match op with
  | .add report =>
    match (s.tree.add report).result with
    | .ok ref => .ok (.object ref.fields)
    | .error _ => .internalError
  | .showCategory .. => .ok (maskValue (s.tree.step op).1.mask)
  | .updateSettings .. | .setCheckDirectory _ => .ok (policyValue (s.tree.step op).1.policy)
  | _ => .ok (.object [(Text.ofString "status", .text "cleared")])

/-- The server after an operation on its tree, and the reply to it. -/
def carriedOut (s : Server) (op : Tree.Op) : Server × Reply :=
  (s.after op, { response := s.responseTo op, log := (s.tree.step op).2.log })

/-- The server stays if there is no operation; else the operation is carried out and replied to. -/
def Carries (s : Server) : Option Tree.Op → Server × Reply → Prop
  | none, o => o.1 = s
  | some op, o => o = s.carriedOut op

/-- A body that cannot be read is answered without carrying anything out; one that can is acted on. -/
theorem withBody_eq {α : Type} (s : Server) (r : Request) (read : Value → Validation.Checked α)
    (act : α → Server × Reply) :
    (r.read? read = none ∧ ∃ response, s.withBody r.body read act = s.answer response) ∨
      ∃ a, r.read? read = some a ∧ s.withBody r.body read act = act a := by
  unfold withBody Request.read?
  cases readBody r.body with
  | error fault => cases fault <;> exact .inl ⟨rfl, _, rfl⟩
  | ok v =>
    cases hv : read v with
    | error is =>
      refine .inl ⟨?_, .invalid is, ?_⟩ <;> simp [hv, Except.toOption]
    | ok a =>
      refine .inr ⟨a, ?_, ?_⟩ <;> simp [hv, Except.toOption]

/-- What is read is carried out as an operation. -/
theorem withBody_carries {α : Type} {read : Value → Validation.Checked α} {act : α → Server × Reply}
    {op : α → Tree.Op} (h : ∀ a, act a = s.carriedOut (op a)) :
    s.Carries ((r.read? read).map op) (s.withBody r.body read act) := by
  rcases withBody_eq s r read act with ⟨hnone, response, heq⟩ | ⟨a, hsome, heq⟩
  · rw [heq, hnone]
    rfl
  · rw [heq, hsome, h]
    rfl

/-- Nothing is done with what is read. -/
theorem withBody_carries_none {α : Type} {read : Value → Validation.Checked α} {act : α → Server × Reply}
    (h : ∀ a, (act a).1 = s) : s.Carries none (s.withBody r.body read act) := by
  rcases withBody_eq s r read act with ⟨-, response, heq⟩ | ⟨a, -, heq⟩
  · rw [heq]
    rfl
  · rw [heq]
    exact h a

/-! ## Routes -/

theorem sendReport_fst (s : Server) (name : Text) : (s.sendReport name).1 = s := by
  unfold sendReport
  split <;> rfl

theorem exportReport_fst (s : Server) (a : Address) : (s.exportReport a).1 = s := by
  unfold exportReport
  split
  · exact sendReport_fst s _
  · split
    · exact sendReport_fst s _
    · rfl

theorem list_fst (s : Server) (a : Address) : (s.list a).1 = s := by
  unfold list
  split
  · rfl
  · split <;> rfl

theorem category_carries (label : Text) (body : List UInt8) (address : Address) :
    s.Carries (Request.operationAt ⟨.put, address, body⟩ (.category label))
      (s.withBody body readShow (s.showCategory label)) := by
  cases hlabel : Category.ofLabel? label with
  | none =>
    have hsame : ∀ shown, (s.showCategory label shown).1 = s := fun shown => by
      simp only [showCategory, hlabel, answer]
    simp only [Request.operationAt, hlabel, Option.bind_none]
    exact withBody_carries_none (r := ⟨.put, address, body⟩) hsame
  | some c =>
    have hshown : ∀ shown, s.showCategory label shown = s.carriedOut (.showCategory (.real c) shown) :=
      fun shown => by
        simp only [showCategory, hlabel]
        rfl
    simp only [Request.operationAt, hlabel, Option.bind_some]
    exact withBody_carries (r := ⟨.put, address, body⟩) hshown

theorem atRoute_carries (s : Server) (r : Request) (route : Route) :
    s.Carries (r.operationAt route) (s.atRoute r route) := by
  obtain ⟨method, address, body⟩ := r
  cases route with
  | health => cases method <;> rfl
  | results =>
    cases method with
    | get => exact list_fst s address
    | post => exact withBody_carries (r := ⟨.post, address, body⟩) fun _ => rfl
    | delete => rfl
    | _ => rfl
  | visibility => cases method <;> rfl
  | category label =>
    cases method with
    | put => exact category_carries label body address
    | _ => rfl
  | exported =>
    cases method with
    | get => exact exportReport_fst s address
    | _ => rfl
  | applications => cases method <;> rfl
  | opening =>
    cases method with
    | post => exact withBody_carries_none (r := ⟨.post, address, body⟩) fun _ => rfl
    | _ => rfl
  | settings =>
    cases method with
    | put => exact withBody_carries (r := ⟨.put, address, body⟩) fun _ => rfl
    | _ => rfl
  | checkDirectory =>
    cases method with
    | put => exact withBody_carries (r := ⟨.put, address, body⟩) fun _ => rfl
    | _ => rfl

/-- A redirection keeps the query, the method and the body, and nothing else matters at a route. -/
theorem atRoute_redirected (s : Server) (r : Request) (path : Text) (route : Route) :
    s.atRoute { r with address := r.address.redirected path } route = s.atRoute r route := by
  obtain ⟨method, address, body⟩ := r
  cases route <;> cases method <;> rfl

theorem reach_eq (s : Server) (n : Nat) (r : Request) :
    s.reach n r = match Route.reached n r.address.path with
      | some route => s.atRoute r route
      | none => s.answer (.refusal 404 "Not Found") := by
  induction n generalizing r with
  | zero =>
    rw [reach.eq_def, Route.reached.eq_def]
    cases hroute : Route.ofPath? r.address.path <;> simp only [hroute]
  | succ n ih =>
    rw [reach.eq_def, Route.reached.eq_def]
    cases hroute : Route.ofPath? r.address.path with
    | some route => simp only [hroute]
    | none =>
      cases hsent : Route.redirection? r.address.path with
      | none => simp only [hroute, hsent]
      | some path =>
        simp only [hroute, hsent, ih]
        cases hreached : Route.reached n (sentPath path) with
        | none => simp only [Address.redirected, hreached]
        | some route =>
          simp only [Address.redirected, hreached]
          exact atRoute_redirected s r path route

/-- The reply is that at the route of the request. -/
theorem step_reply {route : Route} (h : r.route? = some route) :
    (s.step r).2 = { (s.atRoute r route).2 with response := (s.atRoute r route).2.response.sent } := by
  rw [step, reach_eq, show Route.reached redirectionLimit r.address.path = some route from h]

theorem reach_carries (s : Server) (r : Request) :
    s.Carries r.operation? (s.reach redirectionLimit r) := by
  rw [reach_eq, Request.operation?, Request.route?]
  cases Route.reached redirectionLimit r.address.path with
  | none => rfl
  | some route => exact atRoute_carries s r route

/-- The reply to a request that asks for an operation. -/
theorem step_operation {op : Tree.Op} (h : r.operation? = some op) :
    s.step r =
      (s.after op, { response := (s.responseTo op).sent, log := (s.tree.step op).2.log }) := by
  have hreach := reach_carries s r
  rw [h, Carries] at hreach
  rw [step, hreach]
  rfl

/-- A request carries out the operation that it asks for, and nothing else. -/
theorem step_fst (s : Server) (r : Request) : (s.step r).1 = r.operation?.elim s s.after := by
  cases hop : r.operation? with
  | none =>
    have hreach := reach_carries s r
    rw [hop, Carries] at hreach
    exact hreach
  | some op => rw [step_operation hop, Option.elim_some]

/-! ## Runs -/

/-- Requests do to the tree what a run of the operations does that they ask for; all else stays. -/
theorem run_operations (s : Server) (rs : List Request) :
    s.run rs = { s with tree := s.tree.run (rs.filterMap Request.operation?) } := by
  induction rs generalizing s with
  | nil => rfl
  | cons r rs ih =>
    rw [run, ih, step_fst]
    cases hop : r.operation? with
    | none =>
      rw [List.filterMap_cons_none hop]
      rfl
    | some op =>
      rw [List.filterMap_cons_some hop]
      rfl

end Findings.Server

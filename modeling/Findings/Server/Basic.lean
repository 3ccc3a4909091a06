import Findings.Server.Address
import Findings.Server.Body
import Findings.Server.Response
import Findings.Server.Route
import Findings.Settings
import Findings.Tree.Listing

/-!
# The server

One tree of findings is kept, and requests to it are answered one after another. A request is first
checked as a whole and only then carried out.
-/

namespace Findings

structure Server where
  tree : Tree
  /-- The name of the format that reports have where none is asked for. -/
  exportFormat : Text := "xml"
  /-- Where reports are written before they are sent. -/
  sink : Sink := {}

namespace Server

def start (settings : Settings) (applications : Registry) (sink : Sink) : Server where
  tree := settings.tree applications
  exportFormat := settings.exportFormat
  sink := sink

structure Request where
  method : Method
  address : Address
  body : List UInt8 := []
deriving DecidableEq, Repr

/-- What a request brings about besides the state: the response, the calls of applications, the events. -/
structure Reply where
  response : Response
  openings : List (Application × Target) := []
  log : List Log.Event := []

/-! ## Values of responses -/

def version : Text := "0.3.0"

def healthValue : Value :=
  .object [(Text.ofString "status", .text "healthy"), (Text.ofString "version", .text version)]

def maskValue (m : Mask) : Value := .object (m.entries.map fun e => (e.1.label, .bool e.2))

def policyValue (p : PathPolicy) : Value :=
  .object [(Text.ofString "check_directory", .text p.checkDirectory),
    (Text.ofString "show_full_path", .bool p.showFullPath),
    (Text.ofString "save_full_path", .bool p.saveFullPath),
    (Text.ofString "save_all_errors", .bool p.saveAllErrors)]

def listingValue (rows : List Tree.FileRow) : Value :=
  .object [(Text.ofString "count", .int (rows.flatMap fun r => r.findings).length),
    (Text.ofString "files", .list (rows.map Tree.FileRow.value))]

def unknownCategory (label : Text) : Text :=
  "Unknown category '" ++ label ++ "'. Available: " ++ Text.join ", " (Category.all.map Category.label)

/-! ## Requests -/

/-- The server unchanged, and a response. -/
def answer (s : Server) (r : Response) : Server × Reply := (s, { response := r })

/-- The server with another tree, and a response. -/
def become (s : Server) (tree : Tree) (response : Response) (log : List Log.Event) : Server × Reply :=
  ({ s with tree }, { response, log })

/-- Carries out a request whose body `read` can read. -/
def withBody {α : Type} (s : Server) (body : List UInt8) (read : Value → Validation.Checked α)
    (act : α → Server × Reply) : Server × Reply :=
  match readBody body with
  | .error (.invalid i) => s.answer (.invalid [i])
  | .error .unreadable => s.answer (.refusal 400 "There was an error parsing the body")
  | .ok v => match read v with
    | .error is => s.answer (.invalid is)
    | .ok a => act a

def addReport (s : Server) (r : Tree.Report) : Server × Reply :=
  let o := s.tree.add r
  s.become o.state (match o.result with
    | .ok ref => .ok (.object ref.fields)
    | .error _ => .internalError) o.log

def clear (s : Server) : Server × Reply :=
  let o := s.tree.clear
  s.become o.state (.ok (.object [(Text.ofString "status", .text "cleared")])) o.log

def showCategory (s : Server) (label : Text) (shown : Bool) : Server × Reply :=
  match Category.ofLabel? label with
  | none => s.answer (.refusal 400 (unknownCategory label))
  | some c =>
    let o := s.tree.showCategory (.real c) shown
    s.become o.state (.ok (maskValue o.state.mask)) o.log

def updateSettings (s : Server) (p : PathSettings) : Server × Reply :=
  let o := s.tree.updateSettings p.showFullPath p.saveFullPath p.saveAllErrors
  s.become o.state (.ok (policyValue o.state.policy)) o.log

def setCheckDirectory (s : Server) (directory : Text) : Server × Reply :=
  let tree := s.tree.setCheckDirectory directory
  s.become tree (.ok (policyValue tree.policy)) []

def openFinding (s : Server) (r : OpenRequest) : Server × Reply :=
  let o := s.tree.openFinding r.ref (r.application.map .name)
  let response := match o.result with
    | .ok t => .ok (.object [(Text.ofString "file", .text t.file), (Text.ofString "line", .int t.line)])
    | .error (.noFinding path index) => .refusal 404 (Error.noFinding path index).message.quoted
    | .error (.noApplicationAt position n) => .refusal 404 (Error.noApplicationAt position n).message
    | .error (.unknownApplication name names) =>
      .refusal 404 (Error.unknownApplication name names).message
    | .error (.applicationFailed (.notFound reason)) => .refusal 404 reason
    | .error _ => .internalError
  (s, { response, openings := o.calls, log := o.log })

/-- Writes a report in the named format to the sink and answers with it. -/
def sendReport (s : Server) (name : Text) : Server × Reply :=
  match Format.parse (.text name) with
  | .error e => s.answer (.refusal 400 e.message)
  | .ok format =>
    let saving := s.tree.save s.sink (.text format.name)
    let response := match saving.result with
      | .ok t => ⟨200, .report format t⟩
      | .error (.writeFailed f reason) => .refusal 500 (Error.writeFailed f reason).message
      | .error _ => .internalError
    (s, { response, log := saving.log })

def queryPlace (name : Text) : List Text := [Text.ofString "query", name]

def exportReport (s : Server) (a : Address) : Server × Reply :=
  match a.value? "format" with
  | none => s.sendReport s.exportFormat
  | some name => match Format.ofName? name with
    | some format => s.sendReport format.name
    | none => s.answer (.invalid [⟨.choiceUnknown, queryPlace "format", .text name⟩])

def list (s : Server) (a : Address) : Server × Reply :=
  match a.value? "include_hidden" with
  | none => s.answer (.ok (listingValue (s.tree.rows false)))
  | some word =>
    match Validation.checkAt (queryPlace "include_hidden") Validation.asBool (.text word) with
    | .error is => s.answer (.invalid is)
    | .ok includeHidden => s.answer (.ok (listingValue (s.tree.rows includeHidden)))

/-- Carries out a request at a route. -/
def atRoute (s : Server) (r : Request) (route : Route) : Server × Reply :=
  match route, r.method with
  | .health, .get => s.answer (.ok healthValue)
  | .results, .get => s.list r.address
  | .results, .post => s.withBody r.body readReport s.addReport
  | .results, .delete => s.clear
  | .visibility, .get => s.answer (.ok (maskValue s.tree.mask))
  | .category label, .put => s.withBody r.body readShow (s.showCategory label)
  | .exported, .get => s.exportReport r.address
  | .applications, .get =>
    s.answer (.ok (.list (s.tree.applications.names.map .text)))
  | .opening, .post => s.withBody r.body readOpen s.openFinding
  | .settings, .get => s.answer (.ok (policyValue s.tree.policy))
  | .settings, .put => s.withBody r.body readSettings s.updateSettings
  | .checkDirectory, .put => s.withBody r.body readDirectory s.setCheckDirectory
  | _, _ => s.answer (.refusal 405 "Method Not Allowed")

/-- How often a client lets itself be sent to another path. -/
def redirectionLimit : Nat := 20

/-- Carries out a request from which the client may still be sent on `n` times. -/
def reach (s : Server) : Nat → Request → Server × Reply
  | n, r =>
    match Route.ofPath? r.address.path with
    | some route => s.atRoute r route
    | none => match n, Route.redirection? r.address.path with
      | n + 1, some path => s.reach n { r with address := r.address.redirected path }
      | _, _ => s.answer (.refusal 404 "Not Found")

/-- The server after a request, and its reply. -/
def step (s : Server) (r : Request) : Server × Reply :=
  let (s, reply) := s.reach redirectionLimit r
  (s, { reply with response := reply.response.sent })

/-- The server after requests. -/
def run (s : Server) : List Request → Server
  | [] => s
  | r :: rs => run (s.step r).1 rs

/-- The replies to requests. -/
def replies (s : Server) : List Request → List Reply
  | [] => []
  | r :: rs => (s.step r).2 :: replies (s.step r).1 rs

end Server
end Findings

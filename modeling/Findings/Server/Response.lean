import Findings.Json.Writer
import Findings.Report.Format
import Findings.Validation

/-!
# Responses

A response is sent in UTF-8. One that cannot be, because it holds a surrogate, a number that is not finite
or values nested too deep, becomes an internal error instead; what the request has changed stays changed.
-/

namespace Findings.Server

inductive Content where
  | json (v : Value)
  /-- What is wrong with a request; the values that were given are part of it. -/
  | issues (is : List Validation.Issue)
  | report (format : Format) (t : Text)
  | plain (t : Text)
deriving Repr

structure Response where
  status : Nat
  content : Content
deriving Repr

mutual

/-- A value that JSON in UTF-8 can hold. -/
def isSendable : Value → Bool
  | .float (.finite ..) => true
  | .float _ => false
  | .text t => t.isEncodable
  | .list items => areSendable items
  | .object fields => areSendableFields fields
  | _ => true

def areSendable : List Value → Bool
  | [] => true
  | v :: vs => isSendable v && areSendable vs

def areSendableFields : List (Text × Value) → Bool
  | [] => true
  | (k, v) :: fs => k.isEncodable && isSendable v && areSendableFields fs

end

/-- The deepest nesting of lists and objects in a value that is given back. -/
def answerDepth : Nat := 957

def Content.isSendable : Content → Bool
  | json v => Server.isSendable v
  | issues is => is.all fun i => i.given.depth ≤ answerDepth && Server.isSendable i.given
  | report _ t => t.isEncodable
  | plain t => t.isEncodable

/-- The media type of a report. -/
def reportType : Format → Text
  | .text => "text/plain"
  | .xml => "application/xml"
  | .json => "application/json"

def Content.mediaType : Content → Text
  | json _ | issues _ => "application/json"
  | report format _ => reportType format
  | plain _ => "text/plain"

namespace Response

def ok (v : Value) : Response := ⟨200, .json v⟩

/-- A response that tells why a request is refused. -/
def refusal (status : Nat) (detail : Text) : Response :=
  ⟨status, .json (.object [(Text.ofString "detail", .text detail)])⟩

def invalid (is : List Validation.Issue) : Response := ⟨422, .issues is⟩

def internalError : Response := ⟨500, .plain "Internal Server Error"⟩

/-- The response that is sent. -/
def sent (r : Response) : Response := if r.content.isSendable then r else internalError

end Response
end Findings.Server

import Findings.Text.Basic

/-!
# Canonical paths

Findings are grouped by the canonical spelling of their file. Backslashes count as slashes; empty and
`.` components vanish, and a `..` takes the component before it away. At the root there is nothing to
take away; a path without root keeps the `..` components it starts with. Exactly two slashes at the
start are a root of their own; any other number is the one-slash root. Nothing is looked up.
-/

namespace Findings.Path

def slash : CodePoint := .ofChar '/'

def backslash : CodePoint := .ofChar '\\'

/-- `p` with slashes for backslashes. -/
def fold (p : Text) : Text := p.map fun c => if c = backslash then slash else c

/-- The root that `p` starts with: nothing, one slash or two. -/
def root (p : Text) : Text :=
  match (p.takeWhile (· = slash)).length with
  | 0 => []
  | 2 => [slash, slash]
  | _ => [slash]

/-- The components so far, last first, with one more component. -/
def push (rooted : Bool) (stack : List Text) (part : Text) : List Text :=
  if part = [] || part = "." then stack
  else if part = ".." then
    match stack with
    | [] => if rooted then [] else [part]
    | top :: below => if top = ".." then part :: stack else below
  else part :: stack

/-- The components that stay. -/
def resolve (rooted : Bool) (parts : List Text) : List Text :=
  (parts.foldl (push rooted) []).reverse

/-- The one spelling under which a reported path is grouped. -/
def canonical (p : Text) : Text :=
  if p = [] then []
  else
    let q := fold p
    let start := root q
    match start ++ Text.join [slash] (resolve (start ≠ []) (Text.split slash q)) with
    | [] => "."
    | out => out

end Findings.Path

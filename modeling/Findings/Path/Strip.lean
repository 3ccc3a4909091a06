import Findings.Path.Absolute

/-!
# Paths below the checked directory

Paths are shown and saved without the checked directory in front, unless full paths are asked for. Only
an absolute directory that is a strict prefix of the path, component by component, is removed. The two
are compared as spelled; separators are folded only for a directory spelled with a backslash.
-/

namespace Findings

/-- How paths are shown and saved, and which findings are saved. -/
structure PathPolicy where
  checkDirectory : Text := []
  showFullPath : Bool := false
  saveFullPath : Bool := false
  saveAllErrors : Bool := true
deriving DecidableEq, Repr

namespace Path

/-- `directory` as a prefix of the paths below it. -/
def asPrefix (directory : Text) : Text :=
  if directory.endsWithChar '/' then directory else directory ++ [slash]

/-- `path` without `directory` in front; `path` itself where there is nothing to remove. -/
def strip (path directory : Text) : Text :=
  if path = [] || directory = [] || !isAbsolute directory then path
  else
    let spelled : Text → Text := if directory.contains backslash then fold else id
    match (asPrefix (spelled directory)).isPrefixOf? (spelled path) with
    | none => path
    | some rest =>
      match rest.dropWhile (· = slash) with
      | [] => path
      | below => below

/-- How `path` is shown. -/
def toDisplay (policy : PathPolicy) (path : Text) : Text :=
  if policy.showFullPath then path else strip path policy.checkDirectory

/-- How `path` is written into reports. -/
def toPersisted (policy : PathPolicy) (path : Text) : Text :=
  if policy.saveFullPath then path else strip path policy.checkDirectory

end Path
end Findings

import Findings.Path.Canonical

/-!
# Absolute paths

A path is absolute when it starts with a slash, or when, read with backslashes as the separator, it has
both a volume and a root: a drive letter, a colon and a separator; a machine and a share name; or an
extended path, which starts with `\\?\`.
-/

namespace Findings.Path

/-- `p` with backslashes for slashes. -/
def unfold (p : Text) : Text := p.map fun c => if c = slash then backslash else c

def isAsciiLetter (c : CodePoint) : Bool :=
  (0x41 ≤ c.val && c.val ≤ 0x5A) || (0x61 ≤ c.val && c.val ≤ 0x7A)

/-- The rest of an extended path after its mark; of a network one, as a path of its own. -/
def extended? (p : Text) : Option Text :=
  if p.startsWith "\\\\?\\" then
    let rest : Text := p.drop 4
    some (if rest.startsWith "UNC\\" then backslash :: rest.drop 3 else rest)
  else none

/-- Two separators, then the names of a machine and a share, the second possibly empty. -/
def isNetworkShare (p : Text) : Bool :=
  match p with
  | a :: b :: rest =>
    a = backslash && b = backslash && rest.head? ≠ some backslash &&
    match rest.dropWhile (· ≠ backslash) with
    | [] => false
    | _ :: share => share.head? ≠ some backslash
  | _ => false

/-- A drive letter and a colon at the start. -/
def hasDrive (p : Text) : Bool :=
  match p with
  | a :: b :: _ => isAsciiLetter a && b = .ofChar ':'
  | _ => false

/-- Both a volume and a root, for a path with backslashes as separator. -/
def hasVolumeAndRoot (p : Text) : Bool :=
  let (isExtended, p) := match extended? p with
    | some rest => (true, rest)
    | none => (false, p)
  if isNetworkShare p then true
  else if hasDrive p then (p.drop 2).head? = some backslash
  else isExtended && p.head? = some backslash

def isAbsolute (p : Text) : Bool := p.head? = some slash || hasVolumeAndRoot (unfold p)

end Findings.Path

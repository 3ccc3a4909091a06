import Findings.Outcome
import Findings.Store.Visibility

/-!
# A store with a filter

A store and the mask of the filter over it. Setting several categories at once sets them one after
another and recomputes all flags at the end; an entry that names no category ends it before that, with the
entries before it set and no flag changed.
-/

namespace Findings

structure Filtered where
  store : Store := {}
  mask : Mask := {}
deriving Repr

namespace Filtered

/-- Shows or hides one category. -/
def setMask (s : Filtered) (code : CategoryCode) (shown : Bool) : Outcome Filtered Unit :=
  match code with
  | .sentinel => .error s (.invalidCategory (.category .sentinel))
  | .real c =>
    .ok { store := s.store.showCategory c shown, mask := s.mask.set c shown } ()
      [.categoryChanged c shown (s.store.pathsOf c).length]

/-- Shows or hides several categories. -/
def setMasks (s : Filtered) (entries : List (CategoryCode × Bool)) : Outcome Filtered Unit :=
  match s.mask.setAll entries with
  | (m, .ok ()) => .ok { store := s.store.recompute m, mask := m } ()
  | (m, .error e) => .error { s with mask := m } e

/-- Adds a finding as it is; its flag is the caller's. -/
def add (s : Filtered) (n : Submission) : Outcome Filtered Ref :=
  let (store, result) := s.store.add n
  ⟨{ s with store }, result, []⟩

/-- Brings a finding and its file in line with the mask. -/
def apply (s : Filtered) (r : Ref) : Filtered := { s with store := s.store.applyMask s.mask r }

def recompute (s : Filtered) : Filtered := { s with store := s.store.recompute s.mask }

def clear (s : Filtered) : Filtered := { s with store := s.store.clear }

end Filtered
end Findings

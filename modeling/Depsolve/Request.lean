import Depsolve.Job
import Depsolve.Selector
/-!
# Requests

What a caller asks for, in terms of selectors. A request becomes a job of a
universe when its selection is made.
-/
namespace Depsolve

inductive Request where
  | install (sel : Selector)
  /-- Install if that is possible. -/
  | installOptional (sel : Selector)
  /-- Install whatever provides a capability; providers are looked up when the job is carried out. -/
  | installDependency (d : Dependency)
  | erase (sel : Selector)
  | upgrade (sel : Selector)
  | upgradeAll
  /-- Move to the best available build, whichever direction that is. -/
  | distroSync (sel : Selector)
  | distroSyncAll
  | downgrade (sel : Selector)
  | reasonChange (sel : Selector) (reason : Reason)
  /-- The selected packages may not be erased. -/
  | guard (sel : Selector)
deriving DecidableEq

namespace Request

def selected (u : Universe) (kind : JobKind) (sel : Selector) (demands : Demands)
    (reason : Option Reason := none) (optional : Bool := false) : Job where
  kind := kind
  spec := sel.text
  target := .packages (sel.resolve u)
  reason := reason
  demands := demands
  optional := optional

def everything (kind : JobKind) (demands : Demands) : Job where
  kind := kind
  spec := "*"
  target := .all
  demands := demands

/-- The job of a request. Protection takes no demands. -/
def job (u : Universe) (demands : Demands) : Request → Job
  | .install sel => selected u .install sel demands
  | .installOptional sel => selected u .install sel demands none true
  | .installDependency d => { kind := .install, spec := d.text, target := .dependency d, demands }
  | .erase sel => selected u .erase sel demands
  | .upgrade sel => selected u .upgrade sel demands
  | .upgradeAll => everything .upgradeAll demands
  | .distroSync sel => selected u .distroSync sel demands
  | .distroSyncAll => everything .distroSyncAll demands
  | .downgrade sel => selected u .downgrade sel demands
  | .reasonChange sel reason => selected u .reasonChange sel demands (some reason)
  | .guard sel => selected u .guard sel {}

end Request

end Depsolve

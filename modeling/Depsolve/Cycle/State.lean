/-!
# States of a resolution cycle
-/
namespace Depsolve

/-- The stages of a cycle, in the order in which they are visited, and failure. -/
inductive CycleState where
  | init
  | loadConfig
  | downloadMetadata
  | loadSack
  | sackReady
  | buildTransaction
  | resolveTransaction
  | downloadPackages
  | testTransaction
  | transaction
  /-- Left only by starting over. -/
  | failed
deriving DecidableEq

namespace CycleState

def all : List CycleState :=
  [.init, .loadConfig, .downloadMetadata, .loadSack, .sackReady, .buildTransaction,
    .resolveTransaction, .downloadPackages, .testTransaction, .transaction, .failed]

/-- The next stage, if there is one. -/
def next? : CycleState → Option CycleState
  | .init => some .loadConfig
  | .loadConfig => some .downloadMetadata
  | .downloadMetadata => some .loadSack
  | .loadSack => some .sackReady
  | .sackReady => some .buildTransaction
  | .buildTransaction => some .resolveTransaction
  | .resolveTransaction => some .downloadPackages
  | .downloadPackages => some .testTransaction
  | .testTransaction => some .transaction
  | .transaction => none
  | .failed => none

def isTerminal (s : CycleState) : Bool := s.next?.isNone

def text : CycleState → String
  | .init => "INIT"
  | .loadConfig => "LOAD_CONFIG"
  | .downloadMetadata => "DOWNLOAD_METADATA"
  | .loadSack => "LOAD_SACK"
  | .sackReady => "SACK_READY"
  | .buildTransaction => "BUILD_TRANSACTION"
  | .resolveTransaction => "RESOLVE_TRANSACTION"
  | .downloadPackages => "DOWNLOAD_PACKAGES"
  | .testTransaction => "TEST_TRANSACTION"
  | .transaction => "TRANSACTION"
  | .failed => "FAILED"

end CycleState

end Depsolve

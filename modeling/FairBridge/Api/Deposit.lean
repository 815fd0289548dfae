import FairBridge.Model.Requests

/-!
The API of the deposits. An intent gets a deposit address of its own, derived from
the next index.
-/

namespace FairBridge
open Store Async

def maxAwaitingPerIp : Nat := 100

def deriveDepositAddress (cfg : Config) (index : Nat) : Except JsError String :=
  match cfg.fairBridgeXpub with
  | none => .error (.error "FAIR_BRIDGE_XPUB is not configured")
  | some xpub => cfg.deriveChild xpub index

/-- The update returns the index after this one. -/
def getNextIndex : Promise Nat := do
  let updated ← call .incNextIndex
  return updated - 1

def allocateNextDepositAddress (cfg : Config) : Promise (Nat × String) := do
  let index ← getNextIndex
  let address ← Promise.of (deriveDepositAddress cfg index)
  call (.addAddress address)
  return (index, address)

def createIntent (cfg : Config) (baseAddress : Address) (clientIp : Option String) :
    Promise Unit := do
  let (index, address) ← allocateNextDepositAddress cfg
  let _ ← call (.deposit (.create
    { baseAddress, fairAddress := address, hdIndex := index, clientIp }))
  call (.respondIntent ⟨address, baseAddress, index⟩)

def outstanding (clientIp : String) (d : DepositDoc) : Bool :=
  d.clientIp == some clientIp && d.status == .awaiting

/-- `POST /intent`. An address with too many open intents is turned away. -/
def postIntent (cfg : Config) (baseAddress : Address) (clientIp : Option String) :
    Promise Unit :=
  match clientIp.filter fun ip => ip != "" with
  | some ip => do
      let rows ← call (.deposit (.find (outstanding ip) none))
      if rows.length ≥ maxAwaitingPerIp then return
      else createIntent cfg baseAddress clientIp
  | none => createIntent cfg baseAddress clientIp

end FairBridge

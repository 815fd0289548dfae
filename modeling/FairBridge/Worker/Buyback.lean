import FairBridge.Signer.Buy

/-!
The buy-back worker. A cycle swaps the admin's USDC and burns what the swap brought in
three shares. Every hash goes on the cycle before its receipt is awaited, and a later run
resumes the cycle that is open.
-/

namespace FairBridge
open Store Async

def resolveDestinations (cfg : Config) : Except JsError (BurnLabel → String) :=
  let burn := cfg.fairBurnAddress.getD cfg.canonicalBurnAddress
  match cfg.fairTreasuryAddress, cfg.fairMasternodeRewardAddress with
  | some treasury, some masternode => .ok fun
      | .burn => burn
      | .treasury => treasury
      | .masternode => masternode
  | _, _ => .error (.error
      "buyback: FAIR_TREASURY_ADDRESS and FAIR_MASTERNODE_REWARD_ADDRESS must be set when BUYBACK_ENABLED=true")

/-- The burn share absorbs what the divisions leave over. -/
def splitByBps (wfairTotal : Int) (burnBps treasuryBps masternodeBps : Nat) :
    Except JsError (BurnLabel → Int) :=
  let treasury := bigIntDiv (wfairTotal * treasuryBps) bpsDenom
  let masternode := bigIntDiv (wfairTotal * masternodeBps) bpsDenom
  let burn := wfairTotal - treasury - masternode
  if burn < 0 then
    .error (.error s!"splitByBps produced negative burn share (burnBps={burnBps}, treasuryBps={treasuryBps}, masternodeBps={masternodeBps})")
  else .ok fun
    | .burn => burn
    | .treasury => treasury
    | .masternode => masternode

def validateDestination (label : BurnLabel) (address : String) : Promise Unit := do
  let isvalid ← tryCatch (call (.validateAddress address)) fun _ => pure false
  if isvalid then return
  else throw (.error
    s!"buyback: {label} FAIR address {address} failed validateaddress — refusing to run cycle")

def validateDestinations (destinations : BurnLabel → String) : Promise Unit := do
  validateDestination .burn (destinations .burn)
  validateDestination .treasury (destinations .treasury)
  validateDestination .masternode (destinations .masternode)

def claimOrLoadInFlightCycle (thresholdMicroUsdc currentUsdcBalance : Int) :
    Promise (Option BuybackCycleDoc) := do
  match ← call (.buybackCycle
      (.findOne BuybackCycleDoc.isOpen (some BuybackCycleDoc.createdAt))) with
  | some cycle => return some cycle
  | none =>
      if currentUsdcBalance < thresholdMicroUsdc then return none
      else do
        let now ← call .dateNow
        let cycle ← call (.buybackCycle
          (.create { triggeredAt := now, usdcAmount := currentUsdcBalance }))
        return some cycle

def ensureUsdcApproval (cfg : Config) (admin : Address) (amount : Int) : Promise Unit := do
  let allowance ← call (.usdcAllowance admin)
  if amount ≤ allowance then return
  else do
    Promise.of (requireWallet cfg)
    landSetup admin (.approve amount) fun hash => s!"buyback USDC approve reverted ({hash})"

def buybackMinoutBufferBps : Int := 200

def broadcastSwap (cfg : Config) (admin : Address) (cycleId : ObjectId) (usdcAmount : Int) :
    Promise Hash := do
  let expectedWfair ← call (.quoteWfairOut usdcAmount)
  let minOut := bigIntDiv (expectedWfair * (bpsDenom - buybackMinoutBufferBps)) bpsDenom
  Promise.of (requireWallet cfg)
  call (.sendWallet admin (.exactInputSingle usdcAmount minOut) (.cycleSwap cycleId))

def broadcastBridgeBurn (cfg : Config) (admin : Address) (cycleId : ObjectId)
    (label : BurnLabel) (amountWei : Int) (fairDestination : String) : Promise Hash := do
  Promise.of (requireWallet cfg)
  call (.sendWallet admin (.bridgeBurn amountWei (fairAddressToBytes fairDestination))
    (.cycleBurn cycleId label))

def markFailed (cfg : Config) (cycleId : ObjectId) (message : String) : Promise Unit := do
  BuybackCycle.updateById cycleId { status := some .failed, errorMessage := some message }
  alert cfg "buyback cycle failed"

/-- Wait for a transaction that fails its cycle if it reverts. -/
def awaitSuccess (cfg : Config) (cycleId : ObjectId) (what : String) (txHash : Hash) :
    Promise Unit := do
  let receipt ← call (.waitForTransactionReceipt txHash)
  if receipt.success then return
  else do
    markFailed cfg cycleId s!"{what} reverted ({txHash})"
    throw (.error s!"buyback {what} reverted: {txHash}")

/-- The cycle as it reads after the swap. -/
def reloadCycle (cycleId : ObjectId) (vanished : String) : Promise BuybackCycleDoc := do
  match ← BuybackCycle.findById cycleId with
  | some updated => return updated
  | none => throw (.error s!"buyback: cycle {cycleId} vanished {vanished}")

/-- An amount on file is trusted, else the balance is read and put there. -/
def acquiredOnFile (cycle : BuybackCycleDoc) (admin : Address) : Promise Int :=
  match cycle.wfairAcquiredWei with
  | some wfairAcquired => return wfairAcquired
  | none => do
      let wfairAcquired ← call (.wfairBalance admin)
      BuybackCycle.updateById cycle.id { wfairAcquiredWei := some wfairAcquired }
      return wfairAcquired

/-- The swap of a cycle that has its hash on file. -/
def reconcileCycleSwap (cfg : Config) (cycle : BuybackCycleDoc) (admin : Address)
    (txHash : Hash) : Promise (Int × BuybackCycleDoc) := do
  awaitSuccess cfg cycle.id "swap" txHash
  let wfairAcquired ← acquiredOnFile cycle admin
  let updated ← reloadCycle cycle.id "during swap reconcile"
  return (wfairAcquired, updated)

def executeCycleSwap (cfg : Config) (cycle : BuybackCycleDoc) (admin : Address) :
    Promise (Int × BuybackCycleDoc) := do
  BuybackCycle.updateById cycle.id { status := some .swapping }
  ensureUsdcApproval cfg admin cycle.usdcAmount
  let wfairBefore ← call (.wfairBalance admin)
  let txHash ← broadcastSwap cfg admin cycle.id cycle.usdcAmount
  BuybackCycle.updateById cycle.id { swapTxHash := some txHash }
  awaitSuccess cfg cycle.id "swap" txHash
  let wfairAfter ← call (.wfairBalance admin)
  let wfairAcquired := wfairAfter - wfairBefore
  if wfairAcquired ≤ 0 then
    markFailed cfg cycle.id
      s!"swap settled but admin WFAIR balance did not increase (before={wfairBefore} after={wfairAfter})"
    throw (.error "buyback swap yielded no WFAIR")
  else do
    BuybackCycle.updateById cycle.id { wfairAcquiredWei := some wfairAcquired }
    let updated ← reloadCycle cycle.id "after swap"
    return (wfairAcquired, updated)

def runSwapStep (cfg : Config) (cycle : BuybackCycleDoc) (admin : Address) :
    Promise (Int × BuybackCycleDoc) :=
  match cycle.swapTxHash with
  | some txHash => reconcileCycleSwap cfg cycle admin txHash
  | none => executeCycleSwap cfg cycle admin

namespace BurnLabel

/-- The status of a cycle while this burn is in flight. -/
def status : BurnLabel → BuybackCycleStatus
  | .burn => .burning
  | .treasury => .treasurySending
  | .masternode => .masternodeSending

/-- The update that records what is about to be burned. -/
def record : BurnLabel → Int → BuybackCycleSet
  | .burn, n => { status := some .burning, burnAmountWei := some n }
  | .treasury, n => { status := some .treasurySending, treasuryAmountWei := some n }
  | .masternode, n => { status := some .masternodeSending, masternodeAmountWei := some n }

def file : BurnLabel → Hash → BuybackCycleSet
  | .burn, h => { burnTxHash := some h }
  | .treasury, h => { treasuryTxHash := some h }
  | .masternode, h => { masternodeTxHash := some h }

end BurnLabel

def runBurnStep (cfg : Config) (admin : Address) (cycle : BuybackCycleDoc) (label : BurnLabel)
    (destination : String) (amount : Int) : Promise Unit :=
  match cycle.txHash label with
  | some existingHash => awaitSuccess cfg cycle.id s!"{label} bridgeBurn" existingHash
  | none => do
      BuybackCycle.updateById cycle.id (label.record amount)
      let txHash ← broadcastBridgeBurn cfg admin cycle.id label amount destination
      BuybackCycle.updateById cycle.id (label.file txHash)
      awaitSuccess cfg cycle.id s!"{label} bridgeBurn" txHash

/-- The burn steps in order, each on the cycle as it reads after the one before. -/
def runBurnSteps (cfg : Config) (admin : Address) (destinations : BurnLabel → String)
    (shares : BurnLabel → Int) : BuybackCycleDoc → List BurnLabel → Promise BuybackCycleDoc
  | cycle, [] => return cycle
  | cycle, label :: labels => do
      runBurnStep cfg admin cycle label (destinations label) (shares label)
      let liveCycle ← reloadCycle cycle.id "mid-pipeline"
      runBurnSteps cfg admin destinations shares liveCycle labels

def runCycle (cfg : Config) (admin : Address) (destinations : BurnLabel → String)
    (cycle : BuybackCycleDoc) : Promise (Option BuybackCycleDoc) := do
  let (wfairAcquired, updated) ← runSwapStep cfg cycle admin
  let shares ← Promise.of (splitByBps wfairAcquired cfg.buybackBurnBps cfg.buybackTreasuryBps
    cfg.buybackMasternodeBps)
  let liveCycle ← runBurnSteps cfg admin destinations shares updated
    [.burn, .treasury, .masternode]
  BuybackCycle.updateById cycle.id { status := some .complete }
  tryCatch (call (.auditLog (.buybackCycle cycle.id admin cycle.usdcAmount wfairAcquired shares
      liveCycle.swapTxHash liveCycle.txHash)))
    fun _ => alert cfg "buyback audit log write failed"
  BuybackCycle.findById cycle.id

/-- What a failed run does before it passes its error on. -/
def reportCycleError {α : Type} (cfg : Config) (cycleId : ObjectId) (err : JsError) :
    Promise α := do
  match ← BuybackCycle.findById cycleId with
  | some refreshed =>
      if refreshed.isOpen then
        alert cfg "buyback cycle threw non-revert error — will retry next tick"
        throw err
      else throw err
  | none => throw err

def usdcUnit : Int := 1000000

def runOneCycle (cfg : Config) : Promise (Option BuybackCycleDoc) :=
  if cfg.buybackEnabled = false then return none
  else do
    Promise.of (requireWallet cfg)
    let admin := cfg.bridgeEoaAddress
    let destinations ← Promise.of (resolveDestinations cfg)
    validateDestinations destinations
    let threshold ← Promise.of cfg.buybackThresholdUsdc.toBigInt
    let currentUsdc ← call (.usdcBalance admin)
    match ← claimOrLoadInFlightCycle (threshold * usdcUnit) currentUsdc with
    | none => return none
    | some cycle =>
        tryCatch (runCycle cfg admin destinations cycle) fun err =>
          reportCycleError cfg cycle.id err

end FairBridge

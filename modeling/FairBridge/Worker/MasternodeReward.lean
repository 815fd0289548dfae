import FairBridge.Model.Requests

/-!
The masternode reward worker. A cycle shares what the reward address received among the
eligible masternodes, one payout row each. The transaction id of a payout goes on its row
before the row's status changes, and a row that has one is never paid again.
-/

namespace FairBridge
open Store Async

def isEligible (entry : MasternodeListEntry) : Bool := entry.status == "ENABLED"

def outpointKey (entry : MasternodeListEntry) : String := s!"{entry.txhash}-{entry.outidx}"

/-- The cycle and the index of the row are kept for the record. -/
def broadcastPayout (cycleId : ObjectId) (index : Nat) (address : String) (amountSats : Int) :
    Promise Txid :=
  call (.sendToAddress address (satsToFair amountSats) (some (cycleId, index)))

/-- What each masternode gets once the fees are set aside; nothing if they take the whole
pool. -/
def computePerMasternodeSats (poolSats : Int) (masternodeCount : Nat)
    (payoutFeeFair : JsNumber) : Except JsError Int :=
  if masternodeCount = 0 then return 0
  else do
    let feeBudgetSats := (← payoutFeeFair.toSats) * masternodeCount
    if poolSats ≤ feeBudgetSats then return 0
    else return bigIntDiv (poolSats - feeBudgetSats) masternodeCount

namespace PayoutDoc

/-- Broadcast, with its transaction on file. -/
def isPaid (p : PayoutDoc) : Bool :=
  p.txid.isSome && (p.status == .broadcast || p.status == .confirmed)

def isFinal (p : PayoutDoc) : Bool :=
  p.status == .broadcast || p.status == .confirmed || p.status == .failed

end PayoutDoc

/-- The outpoints paid in an earlier attempt. -/
def alreadyBroadcastOutpoints (cycle : RewardCycleDoc) : List String :=
  (cycle.payouts.filter PayoutDoc.isPaid).map PayoutDoc.masternodeOutpoint

/-- Neither COMPLETE nor FAILED nor skipped. -/
def RewardCycleDoc.isResumable (d : RewardCycleDoc) : Bool :=
  d.status == .pending || d.status == .payingOut

def claimResumableCycle : Promise (Option RewardCycleDoc) :=
  call (.rewardCycle (.findOneAndUpdate RewardCycleDoc.isResumable
    (some RewardCycleDoc.createdAt) { status := some .payingOut }))

/-- Triggered within the interval before `now`. -/
def recentCycle (now intervalMs : Nat) (d : RewardCycleDoc) : Bool :=
  now ≤ d.triggeredAt + intervalMs

def hasRecentCycle (now intervalMs : Nat) : Promise Bool := do
  let recent ← call (.rewardCycle (.findOne (recentCycle now intervalMs) none))
  return recent.isSome

def readPoolBalanceSats (cfg : Config) : Promise Int :=
  match cfg.fairMasternodeRewardAddress with
  | none => throw (.error "FAIR_MASTERNODE_REWARD_ADDRESS is not set; cannot size pool balance")
  | some address => call (.getReceivedByAddress address)

/-- The two reads are awaited together. -/
def readPool (cfg : Config) : Promise (Int × List MasternodeListEntry) := do
  if ← call .firstServed then
    let poolSats ← readPoolBalanceSats cfg
    let mnList ← call .getMasternodeList
    return (poolSats, mnList)
  else
    let mnList ← call .getMasternodeList
    let poolSats ← readPoolBalanceSats cfg
    return (poolSats, mnList)

def buildPayouts (masternodes : List MasternodeListEntry) (perMasternodeSats : Int) :
    List PayoutDoc :=
  masternodes.map fun mn =>
    { masternodeOutpoint := outpointKey mn, payoutAddress := mn.addr,
      amountSats := perMasternodeSats }

def persistPayoutTxid (cycleId : ObjectId) (index : Nat) (txid : Txid) : Promise Unit :=
  MasternodeRewardCycle.updateById cycleId { payout := some { index, txid := some txid } }

def markPayoutBroadcast (cycleId : ObjectId) (index : Nat) (txid : Txid) : Promise Unit :=
  MasternodeRewardCycle.updateById cycleId
    { payout := some { index, status := some .broadcast, txid := some txid } }

def markPayoutFailed (cycleId : ObjectId) (index : Nat) (errorMessage : String) : Promise Unit :=
  MasternodeRewardCycle.updateById cycleId
    { payout := some { index, status := some .failed, errorMessage := some errorMessage } }

/-- A row that has a transaction id: the node is asked for the transaction. -/
def reconcilePayout (cfg : Config) (cycleId : ObjectId) (index : Nat) (payout : PayoutDoc)
    (existingTxid : Txid) : Promise Bool :=
  if payout.status = .broadcast ∨ payout.status = .confirmed then return false
  else do
    if ← fairTxExists existingTxid then
      markPayoutBroadcast cycleId index existingTxid
      return false
    else
      markPayoutFailed cycleId index s!"payout txid {existingTxid} on file but not found on node"
      alert cfg "masternode reward payout txid missing from node"
      return true

def payFresh (cfg : Config) (cycleId : ObjectId) (index : Nat) (payout : PayoutDoc) :
    Promise Bool :=
  tryCatch (do
    let txid ← broadcastPayout cycleId index payout.payoutAddress payout.amountSats
    persistPayoutTxid cycleId index txid
    markPayoutBroadcast cycleId index txid
    return false)
  fun err => do
    markPayoutFailed cycleId index err.message
    alert cfg "masternode reward payout failed"
    return true

/-- One row of a cycle; whether it failed. -/
def payoutStep (cfg : Config) (cycleId : ObjectId) (skipOutpoints : List String) (index : Nat)
    (payout : PayoutDoc) : Promise Bool :=
  match payout.txid with
  | some existingTxid => reconcilePayout cfg cycleId index payout existingTxid
  | none =>
      if skipOutpoints.contains payout.masternodeOutpoint then return false
      else payFresh cfg cycleId index payout

/-- The rows from `index` on; whether any has failed by then. -/
def payoutSteps (cfg : Config) (cycleId : ObjectId) (skipOutpoints : List String) :
    Nat → Bool → List PayoutDoc → Promise Bool
  | _, anyFailed, [] => return anyFailed
  | index, anyFailed, payout :: payouts => do
      let failed ← payoutStep cfg cycleId skipOutpoints index payout
      payoutSteps cfg cycleId skipOutpoints (index + 1) (anyFailed || failed) payouts

def finalStatus (anyFailed : Bool) : RewardCycleSet :=
  if anyFailed then
    { status := some .failed
      errorMessage := some (some "one or more payouts failed; see payouts[].errorMessage") }
  else { status := some .complete, errorMessage := some none }

/-- A cycle ends once every row has an outcome. -/
def finaliseCycle (cycleId : ObjectId) (anyFailed : Bool) : Promise Unit := do
  match ← MasternodeRewardCycle.findById cycleId with
  | none => return
  | some fresh =>
      if fresh.payouts.all PayoutDoc.isFinal then
        call (.rewardCycle (.updateOne (fun d => d.id == cycleId && d.status == .payingOut)
          (finalStatus anyFailed)))
        call (.auditLog (.masternodeRewardCycle cycleId
          (if anyFailed then .failed else .complete) fresh.poolBalanceFair fresh.activeMasternodes))
      else return

def executeCycle (cfg : Config) (cycle : RewardCycleDoc) : Promise Unit := do
  let anyFailed ← payoutSteps cfg cycle.id (alreadyBroadcastOutpoints cycle) 0 false cycle.payouts
  finaliseCycle cycle.id anyFailed

def recordSkip (status : RewardCycleStatus) (poolBalanceSats : Int) (activeMasternodes : Nat)
    (perMasternodeSats : Int) : Promise Unit := do
  let now ← call .dateNow
  let cycle ← call (.rewardCycle (.create
    { triggeredAt := now, poolBalanceFair := poolBalanceSats, activeMasternodes,
      perMasternodeFair := perMasternodeSats, status }))
  call (.auditLog (.masternodeRewardCycle cycle.id status poolBalanceSats activeMasternodes))

/-- The cycle is created and then read back before it is executed. -/
def startCycle (cfg : Config) (poolSats perMasternodeSats : Int)
    (eligible : List MasternodeListEntry) : Promise Unit := do
  let now ← call .dateNow
  let cycle ← call (.rewardCycle (.create
    { triggeredAt := now, poolBalanceFair := poolSats, activeMasternodes := eligible.length,
      perMasternodeFair := perMasternodeSats, payouts := buildPayouts eligible perMasternodeSats,
      status := .payingOut }))
  match ← MasternodeRewardCycle.findById cycle.id with
  | none => return
  | some lean => executeCycle cfg lean

/-- A pool that is worth it is shared, else the skip is recorded. -/
def sizeCycle (cfg : Config) (poolSats : Int) (mnList : List MasternodeListEntry) :
    Promise Unit := do
  let eligible := mnList.filter isEligible
  let minBalanceSats ← Promise.of cfg.masternodeRewardsMinBalanceFair.toSats
  if poolSats < minBalanceSats then
    recordSkip .skippedBelowThreshold poolSats eligible.length 0
  else if eligible.length = 0 then recordSkip .skippedNoMasternodes poolSats 0 0
  else
    let perMasternodeSats ← Promise.of (computePerMasternodeSats poolSats eligible.length
      cfg.masternodeRewardsPayoutFeeFair)
    if perMasternodeSats ≤ 0 then
      recordSkip .skippedBelowThreshold poolSats eligible.length perMasternodeSats
    else startCycle cfg poolSats perMasternodeSats eligible

/-- A cycle in flight is resumed before a new one is considered. -/
def runMasternodeRewardTick (cfg : Config) : Promise Unit :=
  if cfg.masternodeRewardsEnabled = false then return
  else do
    match ← claimResumableCycle with
    | some resumable => executeCycle cfg resumable
    | none =>
        let now ← call .dateNow
        if ← hasRecentCycle now cfg.masternodeRewardsIntervalMs then return
        else do
          let (poolSats, mnList) ← readPool cfg
          sizeCycle cfg poolSats mnList

end FairBridge

import FairBridge.Model.Requests

/-!
The release signer. `sendtoaddress` is its only step that cannot be repeated;
a txid on the withdrawal is meant to turn every later run into a lookup of
that transaction on the node.
-/

namespace FairBridge
open Store Async

def releasable (d : WithdrawalDoc) : Bool :=
  (d.status == .confirmed || d.status == .signing) && d.fairTxid == none

def claimRelease (withdrawalId : ObjectId) : Promise (Option WithdrawalDoc) :=
  call (.withdrawal (.findOneAndUpdate
    (fun d => d.id == withdrawalId && releasable d) none { status := some .signing }))

theorem effect_claimRelease (row : Option ObjectId) (id : ObjectId) (w : World) :
    effect row (.withdrawal (.findOneAndUpdate (fun d => d.id == id && releasable d) none
      { status := some .signing })) w =
    match (w.withdrawals.get id).filter releasable with
    | none => some (.ok none, w)
    | some d => some (.ok (some { d with status := .signing }),
        w.setWithdrawal id { status := some .signing }) := by
  have h := Collection.update_byId (ε := JsError) w.withdrawals refusals.duplicate id releasable
    { status := some .signing } fun _ => rfl
  refine (congrArg (fun r => some (r.1, { w with withdrawals := r.2 })) h).trans ?_
  cases (w.withdrawals.get id).filter releasable with
  | none => rfl
  | some d => rfl

def sendToAddress (address : String) (amountFair : ℚ) : Promise Txid :=
  call (.sendToAddress address amountFair none)

def signNodeWallet (cfg : Config) (job : ReleaseJob) (withdrawal : WithdrawalDoc) :
    Promise Txid := do
  match withdrawal.fairTxid with
  | some txid =>
      if ← fairTxExists txid then
        let fairBroadcastAt ← match withdrawal.fairBroadcastAt with
          | some t => pure t
          | none => call .dateNow
        Withdrawal.updateById withdrawal.id
          { status := some .broadcast, fairBroadcastAt := some fairBroadcastAt }
        return txid
      else
        alert cfg "release txid on file but not found on node"
        throw (.error
          s!"release {withdrawal.id} has txid {txid} on file but node RPC reports no such tx")
  | none =>
      let txid ← sendToAddress job.destinationFairAddress (satsToFair job.amountSats)
      let fairBroadcastAt ← call .dateNow
      Withdrawal.updateById withdrawal.id
        { fairTxid := some txid, fairBroadcastAt := some fairBroadcastAt }
      Withdrawal.updateById withdrawal.id { status := some .broadcast }
      return txid

/-- Mark the order that emitted the burn as delivered. -/
def linkReleaseToBuyOrder (baseBurnTxHash : Hash) (fairReleaseTxid : Txid) :
    Promise Unit := do
  let _ ← call (.buyOrder (.findOneAndUpdate
    (fun o => o.burnTxHash == some baseBurnTxHash &&
      (o.status == .burning || o.status == .delivering)) none
    { status := some .delivered, releaseFairTxId := some fairReleaseTxid }))

/-- Only a run that found no txid asks the node about the destination. -/
def rejectInvalidAddress (job : ReleaseJob) (initial : WithdrawalDoc) : Promise Unit := do
  if initial.fairTxid.isNone then
    if ← call (.validateAddress job.destinationFairAddress) then return
    else
      Withdrawal.updateById initial.id { status := some .failed }
      throw (.nonRetryableError s!"invalid faircoin address: {job.destinationFairAddress}")
  else return

def claimReleaseOrReread (withdrawalId : ObjectId) (initial : WithdrawalDoc) :
    Promise (Option WithdrawalDoc) :=
  if initial.fairTxid.isNone then do
    match ← claimRelease withdrawalId with
    | some claimed => return some claimed
    | none => Withdrawal.findById withdrawalId
  else return some initial

def releaseClaimed (cfg : Config) (job : ReleaseJob) (withdrawal : WithdrawalDoc) :
    Promise Unit := do
  let txid ← signNodeWallet cfg job withdrawal
  call (.auditLog (.signRelease withdrawal.id job.destinationFairAddress job.amountSats
    txid cfg.fairHotWalletMode))
  tryCatch (linkReleaseToBuyOrder job.baseBurnTxHash txid) fun _ => pure ()

def signRelease (cfg : Config) (job : ReleaseJob) : Promise Unit := do
  match ← Withdrawal.findById job.withdrawalId with
  | none => return
  | some initial =>
      if initial.status = .final ∨ initial.status = .broadcast then return
      else if initial.status = .failed then
        throw (.nonRetryableError s!"withdrawal {job.withdrawalId} is FAILED")
      else if cfg.fairHotWalletMode ≠ .nodeWallet then
        throw (.nonRetryableError
          s!"FAIR_HOT_WALLET_MODE={cfg.fairHotWalletMode} not implemented (only node_wallet supported)")
      else
        rejectInvalidAddress job initial
        match ← claimReleaseOrReread job.withdrawalId initial with
        | none => return
        | some withdrawal =>
            if withdrawal.status = .signing then releaseClaimed cfg job withdrawal
            else return

end FairBridge

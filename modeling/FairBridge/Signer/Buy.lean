import FairBridge.Signer.Base

/-!
The buy orchestrator. Two claims gate the swap of the payment and the burn of what
it brought; the hash of each goes on the order before its receipt is awaited, and a
later run that finds one on file only waits for it.
-/

namespace FairBridge
open Store Async

/-- Of the payment key only the address is read. -/
structure BuyContext where
  order : BuyOrderDoc
  paymentKey : Address

def loadContext (cfg : Config) (buyOrderId : ObjectId) : Promise (Option BuyContext) := do
  match ← BuyOrder.findById buyOrderId with
  | none => return none
  | some order =>
      match order.paymentHdIndex with
      | none => throw (.nonRetryableError
          s!"buy order {buyOrderId} has no paymentHdIndex (cannot resolve key)")
      | some index => do
          let paymentKey ← Promise.of (cfg.deriveBuyPaymentKey index)
          if order.paymentAddress.all fun a => a == paymentKey then
            return some ⟨order, paymentKey⟩
          else throw (.nonRetryableError s!"buy order {buyOrderId} payment address mismatch")

/-- 0.0003 ETH. -/
def paymentGasTopup : Int := 300000000000000

def requireFunder (cfg : Config) : Except JsError Unit :=
  match requireWallet cfg with
  | .ok _ => .ok ()
  | .error _ => .error (.nonRetryableError
      "buy: payment address has insufficient gas and BRIDGE_EOA_PRIVATE_KEY is not configured to fund it")

/-- A transaction that has to land before what comes next. -/
def landSetup (sender : Address) (setup : WalletCall) (reverted : Hash → String) :
    Promise Unit := do
  let txHash ← call (.sendWallet sender setup .setup)
  let receipt ← call (.waitForTransactionReceipt txHash)
  if receipt.success then return else throw (.error (reverted txHash))

def ensurePaymentGasBudget (cfg : Config) (address : Address) : Promise Unit := do
  let currentBalance ← call (.ethBalance address)
  if paymentGasTopup ≤ currentBalance then return
  else do
    Promise.of (requireFunder cfg)
    landSetup cfg.bridgeEoaAddress (.transfer address (paymentGasTopup - currentBalance))
      fun txHash => s!"gas top-up reverted ({txHash})"

def ensureUsdcAllowance (ctx : BuyContext) (amount : Int) : Promise Unit := do
  let allowance ← call (.usdcAllowance ctx.paymentKey)
  if amount ≤ allowance then return
  else
    landSetup ctx.paymentKey (.approve amount) fun txHash => s!"USDC approve reverted ({txHash})"

/-- What `claimSwapping` asks of the row. -/
def swapClaimable (o : BuyOrderDoc) : Bool :=
  (o.status == .paymentDetected || o.status == .swapping) && o.swapTxHash == none

/-- What `claimBurning` asks of the row. -/
def burnClaimable (o : BuyOrderDoc) : Bool :=
  (o.status == .swapping || o.status == .burning) && o.burnTxHash == none &&
    o.swapTxHash != none

def claimSwapping (buyOrderId : ObjectId) : Promise (Option BuyOrderDoc) :=
  call (.buyOrder (.findOneAndUpdate (fun o => o.id == buyOrderId && swapClaimable o) none
    { status := some .swapping }))

def claimBurning (buyOrderId : ObjectId) : Promise (Option BuyOrderDoc) :=
  call (.buyOrder (.findOneAndUpdate (fun o => o.id == buyOrderId && burnClaimable o) none
    { status := some .burning }))

/-- The additional leeway at execution time, in basis points. -/
def slippageBufferFromQuoteBps : Int := 100

def amountOutMinimum (expectedWfair : Int) : Int :=
  bigIntDiv (expectedWfair * (bpsDenom - slippageBufferFromQuoteBps)) bpsDenom

/-- A reverted transaction fails its order. -/
def failOrder {α : Type} (orderId : ObjectId) (what : String) (txHash : Hash) : Promise α := do
  BuyOrder.updateById orderId
    { status := some .failed, errorMessage := some s!"{what} reverted ({txHash})" }
  throw (.error s!"{what} reverted: {txHash}")

/-- Wait for the swap and read what it brought. -/
def reconcileSwap (ctx : BuyContext) (txHash : Hash) : Promise Int := do
  let receipt ← call (.waitForTransactionReceipt txHash)
  if receipt.success then call (.wfairBalance ctx.paymentKey)
  else failOrder ctx.order.id "Uniswap swap" txHash

def executeSwap (cfg : Config) (ctx : BuyContext) : Promise Int := do
  let usdcBalance ← call (.usdcBalance ctx.paymentKey)
  if usdcBalance = 0 then
    throw (.nonRetryableError
      s!"buy order {ctx.order.id} has no USDC at payment address {ctx.paymentKey}")
  else do
    ensurePaymentGasBudget cfg ctx.paymentKey
    ensureUsdcAllowance ctx usdcBalance
    let expectedWfair ← call (.quoteWfairOut usdcBalance)
    let txHash ← call (.sendWallet ctx.paymentKey
      (.exactInputSingle usdcBalance (amountOutMinimum expectedWfair)) (.orderSwap ctx.order.id))
    BuyOrder.updateById ctx.order.id { swapTxHash := some txHash }
    let wfairOut ← reconcileSwap ctx txHash
    BuyOrder.updateById ctx.order.id { swapWfairOut := some wfairOut }
    return wfairOut

/-- Wait for the burn and hand the order to the release pipeline. -/
def reconcileBurn (ctx : BuyContext) (txHash : Hash) : Promise Unit := do
  let receipt ← call (.waitForTransactionReceipt txHash)
  if receipt.success then BuyOrder.updateById ctx.order.id { status := some .delivering }
  else failOrder ctx.order.id "bridgeBurn" txHash

def executeBurn (ctx : BuyContext) (wfairAmount : Int) : Promise Unit := do
  let txHash ← call (.sendWallet ctx.paymentKey
    (.bridgeBurn wfairAmount (fairAddressToBytes ctx.order.fairDestinationAddress))
    (.orderBurn ctx.order.id))
  BuyOrder.updateById ctx.order.id { burnTxHash := some txHash }
  reconcileBurn ctx txHash

/-- The order a run goes on with: the one it has if that carries the hash, else the
row as claimed, else the row as it reads once the claim has failed. -/
def claimUnlessFiled (filed : Bool) (claim : Promise (Option BuyOrderDoc))
    (order : BuyOrderDoc) (buyOrderId : ObjectId) : Promise (Option BuyOrderDoc) :=
  if filed then return some order
  else do
    match ← claim with
    | some claimed => return some claimed
    | none => BuyOrder.findById buyOrderId

/-- What the swap brought, or `none` if the run is not to go on. -/
def swapStep (cfg : Config) (ctx : BuyContext) : Promise (Option Int) :=
  match ctx.order.swapTxHash with
  | some txHash => do return some (← reconcileSwap ctx txHash)
  | none =>
      if ctx.order.status = .swapping then do return some (← executeSwap cfg ctx)
      else return none

/-- Whether the burn is on its way. -/
def burnStep (ctx : BuyContext) (wfairOut : Int) : Promise Bool :=
  match ctx.order.burnTxHash with
  | some txHash => do
      reconcileBurn ctx txHash
      return true
  | none =>
      if ctx.order.status = .burning then do
        executeBurn ctx wfairOut
        return true
      else return false

/-- What comes after the swap; `swapped` is the order as the swap had it. -/
def burnAfterSwap (cfg : Config) (ctx : BuyContext) (swapped : BuyOrderDoc)
    (buyOrderId : ObjectId) (wfairOut : Int) : Promise Unit := do
  let order := (← BuyOrder.findById buyOrderId).getD swapped
  match ← claimUnlessFiled order.burnTxHash.isSome (claimBurning buyOrderId) order
      buyOrderId with
  | none => return
  | some order =>
      if ← burnStep { ctx with order := order } wfairOut then
        tryCatch (call (.auditLog (.buyOrchestrator buyOrderId ctx.paymentKey
            ctx.order.fairDestinationAddress order.swapTxHash order.burnTxHash)))
          fun _ => alert cfg "buy audit log write failed"
      else return

def swapThenBurn (cfg : Config) (ctx : BuyContext) (buyOrderId : ObjectId) : Promise Unit := do
  match ← claimUnlessFiled ctx.order.swapTxHash.isSome (claimSwapping buyOrderId) ctx.order
      buyOrderId with
  | none => return
  | some order =>
      match ← swapStep cfg { ctx with order := order } with
      | none => return
      | some wfairOut => burnAfterSwap cfg ctx order buyOrderId wfairOut

def processBuy (cfg : Config) (buyOrderId : ObjectId) : Promise Unit := do
  match ← loadContext cfg buyOrderId with
  | none => return
  | some ctx =>
      if ctx.order.status = .delivered ∨ ctx.order.status = .delivering then return
      else if ctx.order.status = .failed ∨ ctx.order.status = .expired then
        throw (.nonRetryableError s!"buy order {buyOrderId} status={ctx.order.status}")
      else swapThenBurn cfg ctx buyOrderId

end FairBridge

import FairBridge.Model.Requests

/-!
The watcher of the FairCoin chain. Every vout that pays a deposit address
becomes a deposit of its own: CONFIRMED and enqueued for minting if it passes
the caps, FAILED if not.
-/

namespace FairBridge
open Store Async

def fairBackfillBlocks : Nat := 100

def orphanDepositAgeMs : Nat := 5 * 60 * 1000

/-- An intent that no vout has been matched to. -/
def DepositDoc.isOpen (d : DepositDoc) : Bool :=
  d.status == .awaiting || d.status == .detected

def readWfairTotalSupply : Promise Int := call .totalSupply

def inFlightDeposit (d : DepositDoc) : Bool :=
  d.status == .detected || d.status == .confirmed || d.status == .minting

def sumInFlightWei : Promise Int := do
  let rows ← call (.deposit (.find inFlightDeposit none))
  return (rows.map DepositDoc.amountWei).sum

def recentDeposit (now : Nat) (baseAddress : Address) (d : DepositDoc) : Bool :=
  d.baseAddress == baseAddress && now ≤ d.createdAt + dayMs &&
    (d.status == .confirmed || d.status == .minting || d.status == .minted)

def sumDailyDepositSatsForAddress (baseAddress : Address) : Promise Int := do
  let now ← call .dateNow
  let rows ← call (.deposit (.find (recentDeposit now baseAddress) none))
  return (rows.map DepositDoc.amountSats).sum

/-- `pending` is the open intent at the address, if there still is one, `origin`
that intent or else the earliest deposit at the address. -/
structure MatchedDeposit where
  pending : Option DepositDoc
  origin : Option DepositDoc
  fairAddress : String
  amountSats : Int

/-- A vout in its block, at the time of the scan. -/
structure ScannedVout where
  txid : Txid
  vout : TxVout
  height : Nat
  tip : Nat

namespace ScannedVout

/-- Where the vout stands in the chain. -/
def key (v : ScannedVout) : Nat × Txid × Nat := (v.height, v.txid, v.vout.n)

def confirmations (v : ScannedVout) : Int := v.tip - v.height + 1

/-- What an intent becomes. -/
def set (v : ScannedVout) (status : DepositStatus) (amountSats amountWei : Int) : DepositSet where
  status := some status
  fairTxid := some v.txid
  fairVout := some v.vout.n
  fairBlockHeight := some v.height
  fairConfirmations := some v.confirmations
  amountSats := some amountSats
  amountWei := some amountWei

/-- What is created where there is no intent. -/
def row (v : ScannedVout) (status : DepositStatus) (baseAddress : Address) (hdIndex : Int)
    (fairAddress : String) (amountSats amountWei : Int) : DepositDoc where
  baseAddress := baseAddress
  fairAddress := fairAddress
  hdIndex := hdIndex
  status := status
  fairTxid := some v.txid
  fairVout := some v.vout.n
  fairBlockHeight := some v.height
  fairConfirmations := v.confirmations
  amountSats := amountSats
  amountWei := amountWei

end ScannedVout

def matchVout (v : ScannedVout) : Promise (Option MatchedDeposit) :=
  match voutAddress v.vout with
  | none => return none
  | some address => do
      if ← call (.knownDepositAddress address v.key) then
        let amountSats := fairValueToSats v.vout.value
        match ← call (.deposit (.findOne (fun d => d.fairAddress == address && d.isOpen) none)) with
        | some pending => return some ⟨some pending, some pending, address, amountSats⟩
        | none =>
            let origin ← call (.deposit (.findOne (fun d => d.fairAddress == address)
              (some DepositDoc.createdAt)))
            return some ⟨none, origin, address, amountSats⟩
      else return none

/-- A record of a vout that is not minted for. -/
def persistTerminalDeposit (v : ScannedVout) (m : MatchedDeposit) (origin : DepositDoc) :
    Promise Unit :=
  let amountWei := m.amountSats * satsToWei
  match m.pending with
  | some pending =>
      Deposit.updateById pending.id (v.set .failed m.amountSats amountWei)
  | none => do
      let _ ← call (.deposit (.create (v.row .failed origin.baseAddress origin.hdIndex
        m.fairAddress m.amountSats amountWei)))

def refuseDeposit (cfg : Config) (v : ScannedVout) (m : MatchedDeposit) (origin : DepositDoc)
    (reason : String) : Promise Unit := do
  persistTerminalDeposit v m origin
  alert cfg reason

/-- The two reads of the cap check are sent together; either is served first. -/
def readSupplyAndInFlight : Promise (Int × Int) := do
  if ← call .firstServed then
    let supply ← readWfairTotalSupply
    let inFlight ← sumInFlightWei
    return (supply, inFlight)
  else
    let inFlight ← sumInFlightWei
    let supply ← readWfairTotalSupply
    return (supply, inFlight)

/-- The confirmed row, if no other watcher was faster. -/
def confirmDeposit (v : ScannedVout) (m : MatchedDeposit) (origin : DepositDoc)
    (postFeeWei : Int) : Promise (Option ObjectId) :=
  match m.pending with
  | some pending => do
      match ← call (.deposit (.findOneAndUpdate (fun d => d.id == pending.id && d.isOpen) none
        (v.set .confirmed m.amountSats postFeeWei))) with
      | some updated => return some updated.id
      | none => return none
  | none =>
      tryCatch (do
        let created ← call (.deposit (.create (v.row .confirmed origin.baseAddress
          origin.hdIndex m.fairAddress m.amountSats postFeeWei)))
        return some created.id) fun err =>
          if err.includes "E11000" then pure none else throw err

def ScannedVout.job (v : ScannedVout) (depositId : ObjectId) (origin : DepositDoc)
    (postFeeWei : Int) : MintJob where
  depositId := depositId
  baseAddress := origin.baseAddress
  amountWei := postFeeWei
  fairTxid := v.txid
  fairVout := v.vout.n

/-- A vout within its address's daily cap, and the cap on everything minted. -/
def creditDeposit (cfg : Config) (v : ScannedVout) (m : MatchedDeposit) (origin : DepositDoc)
    (postFeeWei maxTvlWei : Int) : Promise Unit := do
  let (supply, inFlight) ← readSupplyAndInFlight
  if supply + inFlight + postFeeWei > maxTvlWei then
    refuseDeposit cfg v m origin "tvl cap exceeded — deposit failed, manual refund"
  else
    match ← confirmDeposit v m origin postFeeWei with
    | none => return
    | some confirmedId => call (.addMintJob (v.job confirmedId origin postFeeWei))

/-- A vout that has no row yet. -/
def processMatch (cfg : Config) (v : ScannedVout) (m : MatchedDeposit) : Promise Unit := do
  let amountWei := m.amountSats * satsToWei
  let postFeeWei ← Promise.of (applyFee amountWei cfg.bridgeFeeBps)
  let minSats ← Promise.of cfg.minDepositFair.toSats
  let perAddressCapSats ← Promise.of cfg.perAddressDailyCapFair.toSats
  let maxTvl ← Promise.of cfg.maxTvlFair.toBigInt
  match m.origin with
  | none =>
      let _ ← call (.deposit (.create (v.row .failed ⟨0⟩ (-1) m.fairAddress m.amountSats
        amountWei)))
      alert cfg "unsolicited deposit to bridge address"
  | some origin =>
      if m.amountSats < minSats then
        refuseDeposit cfg v m origin "deposit below minimum — dust, no mint"
      else
        let dailySoFar ← sumDailyDepositSatsForAddress origin.baseAddress
        if dailySoFar + m.amountSats > perAddressCapSats then
          refuseDeposit cfg v m origin "deposit exceeds per-address daily cap"
        else creditDeposit cfg v m origin postFeeWei (maxTvl * satsPerFair * satsToWei)

def processVout (cfg : Config) (v : ScannedVout) : Promise Unit := do
  match ← matchVout v with
  | none => return
  | some m =>
      match ← call (.deposit (.findOne
        (fun d => d.fairTxid == some v.txid && d.fairVout == some v.vout.n) none)) with
      | some _ => return
      | none => processMatch cfg v m

def processVouts (cfg : Config) (height tip : Nat) : List (Txid × TxVout) → Promise Unit
  | [] => pure ()
  | (txid, vout) :: vouts => do
      processVout cfg ⟨txid, vout, height, tip⟩
      processVouts cfg height tip vouts

def processBlock (cfg : Config) (height tip : Nat) : Promise Unit := do
  let block ← call (.getBlockAtHeight height)
  processVouts cfg height tip block.vouts

def orphanDeposit (now : Nat) (d : DepositDoc) : Bool :=
  d.status == .confirmed && d.createdAt + orphanDepositAgeMs < now &&
    d.fairTxid.isSome && d.fairVout.isSome

/-- The job of a row that has its vout. An empty txid counts as none. -/
def DepositDoc.job (d : DepositDoc) : Option MintJob := do
  let fairTxid ← d.fairTxid
  let fairVout ← d.fairVout
  if fairTxid = "" then none
  else return ⟨d.id, d.baseAddress, d.amountWei, fairTxid, fairVout⟩

def enqueueMints : List DepositDoc → Promise Unit
  | [] => pure ()
  | orphan :: orphans => do
      match orphan.job with
      | none => enqueueMints orphans
      | some job =>
          call (.addMintJob job)
          enqueueMints orphans

def reconcileOrphanDeposits : Promise Unit := do
  let now ← call .dateNow
  enqueueMints (← call (.deposit (.find (orphanDeposit now) (some 50))))

/-- The set itself is the process's; it is filled from the rows once. -/
def getKnownDepositAddressSet : Promise Unit := do
  if ← call .isAddressCacheLoaded then return
  else
    let rows ← call (.deposit (.find (fun _ => true) none))
    call (.cacheAddresses ((rows.map DepositDoc.fairAddress).filter fun a => a != ""))

/-- The node knows no block below its first. -/
def processHeight (cfg : Config) (height : Int) (tip : Nat) : Promise Unit :=
  if 0 ≤ height then processBlock cfg height.toNat tip
  else throw (.error "RPC -8: Block height out of range")

/-- Scan at most `n` blocks from `height` up to `safeTip`, and move the cursor after
each of them. -/
def scanHeights (cfg : Config) (tip : Nat) (safeTip : JsNumber) : Nat → Int → Promise Unit
  | 0, _ => pure ()
  | n + 1, height =>
      if safeTip.atLeast height then do
        if ← call (.signalAborted []) then return
        else
          processHeight cfg height tip
          call (.cursorSet .faircoin height)
          scanHeights cfg tip safeTip n (height + 1)
      else pure ()

/-- One round of the watcher's loop; its errors are logged. -/
def fairWatcherTick (cfg : Config) (heights : Nat) : Promise Unit :=
  tryCatch (do
    reconcileOrphanDeposits
    let tip ← call .getTipHeight
    let last ← call (.cursorUpsert .faircoin (tip - fairBackfillBlocks : Nat))
    let safeTip := cfg.fairConfirmations.subFrom tip
    if safeTip.above last then scanHeights cfg tip safeTip heights (last + 1)
    else pure ()) fun _ => pure ()

def fairWatcherLoop (cfg : Config) (heights : Nat) : Nat → Promise Unit
  | 0 => pure ()
  | rounds + 1 => do
      if ← call (.signalAborted []) then return
      else
        fairWatcherTick cfg heights
        fairWatcherLoop cfg heights rounds

/-- The watcher, observed for at most so many rounds of at most so many blocks. -/
def startFairWatcher (cfg : Config) (rounds heights : Nat) : Promise Unit := do
  getKnownDepositAddressSet
  fairWatcherLoop cfg heights rounds

end FairBridge

import FairBridge.Store.Query
import FairBridge.Store.JobQueue
import FairBridge.Model.Config

/-!
The documents of the service's collections, with the fields its modelled
functions read or write, and the jobs of its queues. Amounts are stored as
decimal text of a bigint and kept here as that bigint.
-/

namespace FairBridge
open Store

abbrev ObjectId := Nat

/-- The text of a FairCoin transaction id. -/
abbrev Txid := String

inductive DepositStatus where
  | awaiting
  | detected
  | confirmed
  | minting
  | minted
  | failed
  deriving DecidableEq, Repr

structure DepositDoc where
  id : ObjectId := 0
  baseAddress : Address
  fairAddress : String
  hdIndex : Int
  status : DepositStatus := .awaiting
  fairTxid : Option Txid := none
  fairVout : Option Nat := none
  fairBlockHeight : Option Nat := none
  fairConfirmations : Int := 0
  amountSats : Int := 0
  amountWei : Int := 0
  baseMintTxHash : Option Hash := none
  baseMintBlockNumber : Option Nat := none
  safeTxHash : Option Hash := none
  clientIp : Option String := none
  createdAt : Nat := 0
  deriving DecidableEq, Repr

/-- The `$set` operators on a deposit; `none` leaves the field alone. -/
structure DepositSet where
  status : Option DepositStatus := none
  fairTxid : Option Txid := none
  fairVout : Option Nat := none
  fairBlockHeight : Option Nat := none
  fairConfirmations : Option Int := none
  amountSats : Option Int := none
  amountWei : Option Int := none
  baseMintTxHash : Option Hash := none
  baseMintBlockNumber : Option Nat := none
  safeTxHash : Option Hash := none
  deriving DecidableEq, Repr

def DepositSet.apply (u : DepositSet) (d : DepositDoc) : DepositDoc :=
  { d with
    status := u.status.getD d.status
    fairTxid := u.fairTxid.or d.fairTxid
    fairVout := u.fairVout.or d.fairVout
    fairBlockHeight := u.fairBlockHeight.or d.fairBlockHeight
    fairConfirmations := u.fairConfirmations.getD d.fairConfirmations
    amountSats := u.amountSats.getD d.amountSats
    amountWei := u.amountWei.getD d.amountWei
    baseMintTxHash := u.baseMintTxHash.or d.baseMintTxHash
    baseMintBlockNumber := u.baseMintBlockNumber.or d.baseMintBlockNumber
    safeTxHash := u.safeTxHash.or d.safeTxHash }

/-- The unique index is on the pair. It is sparse, but a pair of explicit nulls
is present and so indexed like any other. A required text may not be empty. -/
def depositSchema : Schema DepositDoc DepositSet (Option Txid × Option Nat) where
  id := DepositDoc.id
  assign i now d := { d with id := i, createdAt := now }
  set := DepositSet.apply
  key d := some (d.fairTxid, d.fairVout)
  valid d := d.fairAddress != ""
  id_assign _ _ _ := rfl
  id_set _ _ := rfl

inductive WithdrawalStatus where
  | detected
  | confirmed
  | signing
  | broadcast
  | final
  | failed
  deriving DecidableEq, Repr

structure WithdrawalDoc where
  id : ObjectId := 0
  baseBurnTxHash : Hash
  baseBlockNumber : Nat
  logIndex : Nat
  fromBaseAddress : Address
  destinationFairAddress : String
  amountWei : Int
  amountSats : Int
  status : WithdrawalStatus := .detected
  fairTxid : Option Txid := none
  fairBroadcastAt : Option Nat := none
  createdAt : Nat := 0
  deriving DecidableEq, Repr

structure WithdrawalSet where
  status : Option WithdrawalStatus := none
  fairTxid : Option Txid := none
  fairBroadcastAt : Option Nat := none
  deriving DecidableEq, Repr

def WithdrawalSet.apply (u : WithdrawalSet) (d : WithdrawalDoc) : WithdrawalDoc :=
  { d with
    status := u.status.getD d.status
    fairTxid := u.fairTxid.or d.fairTxid
    fairBroadcastAt := u.fairBroadcastAt.or d.fairBroadcastAt }

/-- The burn a row records. -/
def WithdrawalDoc.key (d : WithdrawalDoc) : Hash × Nat := (d.baseBurnTxHash, d.logIndex)

def withdrawalSchema : Schema WithdrawalDoc WithdrawalSet (Hash × Nat) where
  id := WithdrawalDoc.id
  assign i now d := { d with id := i, createdAt := now }
  set := WithdrawalSet.apply
  key d := some d.key
  valid d := d.destinationFairAddress != ""
  id_assign _ _ _ := rfl
  id_set _ _ := rfl

inductive BuyOrderStatus where
  | awaitingPayment
  | paymentDetected
  | swapping
  | burning
  | delivering
  | delivered
  | failed
  | expired
  deriving DecidableEq, Repr

instance : ToString BuyOrderStatus where
  toString
    | .awaitingPayment => "AWAITING_PAYMENT"
    | .paymentDetected => "PAYMENT_DETECTED"
    | .swapping => "SWAPPING"
    | .burning => "BURNING"
    | .delivering => "DELIVERING"
    | .delivered => "DELIVERED"
    | .failed => "FAILED"
    | .expired => "EXPIRED"

inductive PaymentCurrency where
  | usdcBase
  | ethBase
  | ethMainnet
  | btc
  | card
  deriving DecidableEq, Repr

structure BuyOrderDoc where
  id : ObjectId := 0
  fairAmountSats : Int := 0
  fairDestinationAddress : String := ""
  paymentCurrency : PaymentCurrency := .usdcBase
  paymentAddress : Option Address := none
  paymentAmount : Int := 0
  paymentHdIndex : Option Nat := none
  paymentExpiresAt : Nat := 0
  status : BuyOrderStatus := .awaitingPayment
  paymentDetectedTxHash : Option String := none
  swapTxHash : Option Hash := none
  swapWfairOut : Option Int := none
  burnTxHash : Option Hash := none
  releaseFairTxId : Option Txid := none
  errorMessage : Option String := none
  createdAt : Nat := 0
  deriving DecidableEq, Repr

structure BuyOrderSet where
  status : Option BuyOrderStatus := none
  paymentDetectedTxHash : Option String := none
  swapTxHash : Option Hash := none
  swapWfairOut : Option Int := none
  burnTxHash : Option Hash := none
  releaseFairTxId : Option Txid := none
  errorMessage : Option String := none
  deriving DecidableEq, Repr

def BuyOrderSet.apply (u : BuyOrderSet) (d : BuyOrderDoc) : BuyOrderDoc :=
  { d with
    status := u.status.getD d.status
    paymentDetectedTxHash := u.paymentDetectedTxHash.or d.paymentDetectedTxHash
    swapTxHash := u.swapTxHash.or d.swapTxHash
    swapWfairOut := u.swapWfairOut.or d.swapWfairOut
    burnTxHash := u.burnTxHash.or d.burnTxHash
    releaseFairTxId := u.releaseFairTxId.or d.releaseFairTxId
    errorMessage := u.errorMessage.or d.errorMessage }

def buyOrderSchema : Schema BuyOrderDoc BuyOrderSet Unit where
  id := BuyOrderDoc.id
  assign i now d := { d with id := i, createdAt := now }
  set := BuyOrderSet.apply
  key _ := none
  valid _ := true
  id_assign _ _ _ := rfl
  id_set _ _ := rfl

inductive BuybackCycleStatus where
  | pending
  | swapping
  | burning
  | treasurySending
  | masternodeSending
  | complete
  | failed
  deriving DecidableEq, Repr

/-- The three destinations of a cycle. -/
inductive BurnLabel where
  | burn
  | treasury
  | masternode
  deriving DecidableEq, Repr

structure BuybackCycleDoc where
  id : ObjectId := 0
  triggeredAt : Nat := 0
  usdcAmount : Int
  swapTxHash : Option Hash := none
  wfairAcquiredWei : Option Int := none
  burnTxHash : Option Hash := none
  treasuryTxHash : Option Hash := none
  masternodeTxHash : Option Hash := none
  burnAmountWei : Option Int := none
  treasuryAmountWei : Option Int := none
  masternodeAmountWei : Option Int := none
  status : BuybackCycleStatus := .pending
  errorMessage : Option String := none
  createdAt : Nat := 0
  deriving DecidableEq, Repr

structure BuybackCycleSet where
  swapTxHash : Option Hash := none
  wfairAcquiredWei : Option Int := none
  burnTxHash : Option Hash := none
  treasuryTxHash : Option Hash := none
  masternodeTxHash : Option Hash := none
  burnAmountWei : Option Int := none
  treasuryAmountWei : Option Int := none
  masternodeAmountWei : Option Int := none
  status : Option BuybackCycleStatus := none
  errorMessage : Option String := none
  deriving DecidableEq, Repr

def BuybackCycleSet.apply (u : BuybackCycleSet) (d : BuybackCycleDoc) : BuybackCycleDoc :=
  { d with
    swapTxHash := u.swapTxHash.or d.swapTxHash
    wfairAcquiredWei := u.wfairAcquiredWei.or d.wfairAcquiredWei
    burnTxHash := u.burnTxHash.or d.burnTxHash
    treasuryTxHash := u.treasuryTxHash.or d.treasuryTxHash
    masternodeTxHash := u.masternodeTxHash.or d.masternodeTxHash
    burnAmountWei := u.burnAmountWei.or d.burnAmountWei
    treasuryAmountWei := u.treasuryAmountWei.or d.treasuryAmountWei
    masternodeAmountWei := u.masternodeAmountWei.or d.masternodeAmountWei
    status := u.status.getD d.status
    errorMessage := u.errorMessage.or d.errorMessage }

instance : ToString BurnLabel where
  toString
    | .burn => "burn"
    | .treasury => "treasury"
    | .masternode => "masternode"

namespace BuybackCycleDoc

def txHash (d : BuybackCycleDoc) : BurnLabel → Option Hash
  | .burn => d.burnTxHash
  | .treasury => d.treasuryTxHash
  | .masternode => d.masternodeTxHash

def amountWei (d : BuybackCycleDoc) : BurnLabel → Option Int
  | .burn => d.burnAmountWei
  | .treasury => d.treasuryAmountWei
  | .masternode => d.masternodeAmountWei

/-- Neither COMPLETE nor FAILED. -/
def isOpen (d : BuybackCycleDoc) : Bool := d.status != .complete && d.status != .failed

end BuybackCycleDoc

def buybackCycleSchema : Schema BuybackCycleDoc BuybackCycleSet Unit where
  id := BuybackCycleDoc.id
  assign i now d := { d with id := i, createdAt := now }
  set := BuybackCycleSet.apply
  key _ := none
  valid _ := true
  id_assign _ _ _ := rfl
  id_set _ _ := rfl

inductive RewardCycleStatus where
  | pending
  | payingOut
  | complete
  | failed
  | skippedNoMasternodes
  | skippedBelowThreshold
  | skippedDisabled
  deriving DecidableEq, Repr

inductive PayoutStatus where
  | pending
  | broadcast
  | confirmed
  | failed
  deriving DecidableEq, Repr

structure PayoutDoc where
  masternodeOutpoint : String
  payoutAddress : String
  amountSats : Int
  status : PayoutStatus := .pending
  txid : Option Txid := none
  errorMessage : Option String := none
  deriving DecidableEq, Repr

structure RewardCycleDoc where
  id : ObjectId := 0
  triggeredAt : Nat
  poolBalanceFair : Int
  activeMasternodes : Nat := 0
  perMasternodeFair : Int := 0
  payouts : List PayoutDoc := []
  status : RewardCycleStatus := .pending
  errorMessage : Option String := none
  createdAt : Nat := 0
  deriving DecidableEq, Repr

/-- `$set` on the dotted paths below `payouts.<index>`. -/
structure PayoutSet where
  index : Nat
  status : Option PayoutStatus := none
  txid : Option Txid := none
  errorMessage : Option String := none
  deriving DecidableEq, Repr

structure RewardCycleSet where
  status : Option RewardCycleStatus := none
  -- the outer option is the presence of the operator, the inner one its value
  errorMessage : Option (Option String) := none
  payout : Option PayoutSet := none
  deriving DecidableEq, Repr

def PayoutSet.apply (u : PayoutSet) (p : PayoutDoc) : PayoutDoc :=
  { p with
    status := u.status.getD p.status
    txid := u.txid.or p.txid
    errorMessage := u.errorMessage.or p.errorMessage }

def RewardCycleSet.apply (u : RewardCycleSet) (d : RewardCycleDoc) : RewardCycleDoc :=
  { d with
    status := u.status.getD d.status
    errorMessage := u.errorMessage.getD d.errorMessage
    payouts := match u.payout with
      | none => d.payouts
      | some p => d.payouts.modify p.index p.apply }

def rewardCycleSchema : Schema RewardCycleDoc RewardCycleSet Unit where
  id := RewardCycleDoc.id
  assign i now d := { d with id := i, createdAt := now }
  set := RewardCycleSet.apply
  key _ := none
  -- the other required paths of a payout are never empty
  valid d := d.payouts.all fun p => p.payoutAddress != ""
  id_assign _ _ _ := rfl
  id_set _ _ := rfl

inductive EventCursorId where
  | base
  | faircoin
  deriving DecidableEq, Repr

inductive AuditLogEntry where
  | signMint (depositId : ObjectId) (mode : MintAuthMode) (txHash : Hash)
      (baseAddress : Address) (amountWei : Int) (fairTxid : Txid) (fairVout : Nat)
  | signRelease (withdrawalId : ObjectId) (destinationFairAddress : String)
      (amountSats : Int) (txid : Txid) (mode : FairHotWalletMode)
  | buyOrchestrator (buyOrderId : ObjectId) (paymentAddress : Address)
      (fairDestinationAddress : String) (swapTxHash burnTxHash : Option Hash)
  | buybackCycle (cycleId : ObjectId) (admin : Address) (usdcAmount wfairAcquiredWei : Int)
      (amountWei : BurnLabel → Int) (swapTxHash : Option Hash)
      (txHash : BurnLabel → Option Hash)
  | masternodeRewardCycle (cycleId : ObjectId) (status : RewardCycleStatus)
      (poolBalanceSats : Int) (activeMasternodes : Nat)

structure MintJob where
  depositId : ObjectId
  baseAddress : Address
  amountWei : Int
  fairTxid : Txid
  fairVout : Nat
  deriving DecidableEq, Repr

structure ReleaseJob where
  withdrawalId : ObjectId
  destinationFairAddress : String
  amountSats : Int
  baseBurnTxHash : Hash
  logIndex : Nat
  deriving DecidableEq, Repr

/-- The burn a job releases. -/
def ReleaseJob.key (job : ReleaseJob) : Hash × Nat := (job.baseBurnTxHash, job.logIndex)

/-- A mint job is named after its vout: `mint:<txid>:<vout>`. -/
abbrev MintQueue := JobQueue (Txid × Nat) MintJob

/-- A release job is named after its burn: `release:<txHash>:<logIndex>`. -/
abbrev ReleaseQueue := JobQueue (Hash × Nat) ReleaseJob

/-- A buy job is named after its order, `buy:<id>`, and carries nothing else. -/
abbrev BuyQueue := JobQueue ObjectId Unit

/-- A job of one of the queues, by its name. -/
inductive JobRef where
  | mint (vout : Txid × Nat)
  | release (burn : Hash × Nat)
  | buy (order : ObjectId)
  deriving DecidableEq, Repr

end FairBridge

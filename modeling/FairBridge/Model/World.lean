import FairBridge.Model.Documents
import FairBridge.Model.Text
import FairBridge.Async.System

/-!
What the service talks to: its stores, its queues, the Base chain with the
WFAIR contract, the Safe transaction service and the FairCoin node. Block 0 of
either chain is its genesis block; block `n + 1` is entry `n` of the list.
-/

namespace FairBridge
open Store

/-- The arguments `decodeEventLog` finds in a `BridgeBurn` log. -/
structure DecodedBurn where
  source : Address
  amount : Nat
  faircoinAddress : List UInt8
  deriving DecidableEq, Repr

/-- A log as `getLogs` reports it; `burn` is what its topics and data decode to,
if they decode at all. -/
structure Log where
  transactionHash : Option Hash
  logIndex : Option Nat
  blockNumber : Option Nat
  burn : Option DecodedBurn
  deriving DecidableEq, Repr

/-- The arguments of `mintForDeposit`. -/
structure MintCall where
  recipient : Address
  amount : Int
  faircoinTxid : String
  vout : Nat
  deriving DecidableEq, Repr

/-- The arguments fit `uint256` and `uint32`, so that they can be encoded. -/
def MintCall.encodable (c : MintCall) : Bool :=
  0 ≤ c.amount && c.amount < 2 ^ 256 && c.vout < 2 ^ 32

/-- `deposit` is the row whose signer broadcast it, kept for the record. -/
structure MintTx where
  hash : Hash
  call : MintCall
  deposit : Option ObjectId
  deriving DecidableEq, Repr

/-- The transactions the service's own wallets send besides mints: to the USDC token,
the swap router and the WFAIR token, and payments of gas. -/
inductive WalletCall where
  | approve (amount : Int)
  | exactInputSingle (amountIn amountOutMinimum : Int)
  | bridgeBurn (amount : Int) (faircoinAddress : List UInt8)
  | transfer (recipient : Address) (value : Int)
  deriving DecidableEq, Repr

/-- The amounts fit `uint256`, so that they can be encoded. -/
def WalletCall.encodable : WalletCall → Bool
  | .approve n | .bridgeBurn n _ | .transfer _ n => 0 ≤ n && n < 2 ^ 256
  | .exactInputSingle n m => 0 ≤ n && n < 2 ^ 256 && 0 ≤ m && m < 2 ^ 256

/-- What a wallet's transaction is for: the swap or a burn of an order or of a cycle,
or what has to go before. -/
inductive Purpose where
  | orderSwap (order : ObjectId)
  | orderBurn (order : ObjectId)
  | cycleSwap (cycle : ObjectId)
  | cycleBurn (cycle : ObjectId) (label : BurnLabel)
  | setup
  deriving DecidableEq, Repr

/-- `purpose` is kept for the record. -/
structure WalletTx where
  hash : Hash
  sender : Address
  call : WalletCall
  purpose : Purpose
  deriving DecidableEq, Repr

/-- What the tokens and the pool say of an address or an amount. -/
structure TokenState where
  usdc : Address → Int := fun _ => 0
  wfair : Address → Int := fun _ => 0
  allowance : Address → Int := fun _ => 0
  eth : Address → Int := fun _ => 0
  quote : Int → Option Int := fun _ => none

structure Receipt where
  success : Bool
  blockNumber : Nat
  deriving DecidableEq, Repr

/-- `txs` are the mint transactions that reached the chain, in order, and
`hashOf n` is the hash the `n`-th of them gets. `calls` records every call of
`writeContract` for a mint, with or without effect. `walletTxs` are the other
transactions of the service, and `walletHashOf n` is the hash of the `n`-th of them. -/
structure BaseChain where
  blocks : List (List Log) := []
  totalSupply : Int := 0
  txs : List MintTx := []
  calls : List MintCall := []
  walletTxs : List WalletTx := []
  tokens : TokenState := {}
  receipts : Hash → Option Receipt := fun _ => none
  hashOf : Nat → Hash := fun n => ⟨n⟩
  walletHashOf : Nat → Hash := fun n => ⟨n⟩

/-- `hashFor` is the hash of the Safe transaction that wraps a mint call. -/
structure SafeService where
  proposals : List (Hash × MintCall) := []
  calls : List (Hash × MintCall) := []
  hashFor : Nat → MintCall → Hash := fun n _ => ⟨n⟩

structure TxVout where
  value : ℚ
  n : Nat
  addresses : Option (List String) := none
  address : Option String := none
  deriving DecidableEq

/-- The address a vout pays: the first of the listed ones. Empty text counts as
no address. -/
def voutAddress (vout : TxVout) : Option String :=
  let address := match vout.addresses with
    | some (a :: _) => some a
    | _ => vout.address
  address.filter fun a => a != ""

structure BlockTx where
  txid : Txid
  vout : List TxVout
  deriving DecidableEq

/-- No output stands twice in a block. -/
structure Block where
  tx : List BlockTx
  distinct : (tx.flatMap fun tx => tx.vout.map fun vout => (tx.txid, vout.n)).Nodup := by decide
  deriving DecidableEq

/-- The vouts of a block in order, each with the id of its transaction. -/
def Block.vouts (b : Block) : List (Txid × TxVout) :=
  b.tx.flatMap fun tx => tx.vout.map fun vout => (tx.txid, vout)

theorem Block.vouts_distinct (b : Block) : (b.vouts.map fun x => (x.1, x.2.n)).Nodup := by
  have h : (b.vouts.map fun x => (x.1, x.2.n)) =
      b.tx.flatMap fun tx => tx.vout.map fun vout => (tx.txid, vout.n) := by
    rw [vouts, List.map_flatMap]
    refine List.flatMap_congr fun tx _ => ?_
    rw [List.map_map]
    rfl
  rw [h]
  exact b.distinct

structure MasternodeListEntry where
  txhash : String
  outidx : Nat
  status : String
  addr : String
  deriving DecidableEq, Repr

/-- `withdrawal` is the row whose signer sent it, and `payout` the reward cycle and the index of
the row it pays, both kept for the record. -/
structure Send where
  txid : Txid
  address : String
  sats : Int
  withdrawal : Option ObjectId
  payout : Option (ObjectId × Nat)
  deriving DecidableEq, Repr

/-- The node and its wallet. `owned` are the addresses whose keys the bridge
holds, `received` counts what the reward address ever received and `confirmed`
the part of it that is deep enough to be reported. `calls` records every call
of `sendtoaddress`, with or without effect. -/
structure FairNode where
  blocks : List Block := []
  isvalid : String → Bool := fun _ => true
  owned : String → Bool := fun _ => true
  custodySats : Int := 0
  sends : List Send := []
  calls : List (String × ℚ) := []
  txidOf : Nat → Txid := fun n => toString n
  known : Txid → Bool := fun _ => true
  received : Int := 0
  confirmed : Int := 0
  masternodes : List MasternodeListEntry := []

/-- What a successful `POST /intent` answers. -/
structure DepositIntent where
  fairAddress : String
  baseAddress : Address
  hdIndex : Nat
  deriving DecidableEq, Repr

structure World where
  now : Nat := 0
  /-- The next index of the deposit addresses. -/
  nextIndex : Nat := 0
  /-- The answers of `POST /intent`, in order. -/
  intents : List DepositIntent := []
  deposits : Collection depositSchema := .empty
  withdrawals : Collection withdrawalSchema := .empty
  buyOrders : Collection buyOrderSchema := .empty
  buybackCycles : Collection buybackCycleSchema := .empty
  rewardCycles : Collection rewardCycleSchema := .empty
  cursor : EventCursorId → Option Int := fun _ => none
  audit : List AuditLogEntry := []
  mintQueue : MintQueue := []
  releaseQueue : ReleaseQueue := []
  buyQueue : BuyQueue := []
  base : BaseChain := {}
  safe : SafeService := {}
  fair : FairNode := {}
  /-- Addresses the process knows as deposit addresses, and whether it has read
  them all. -/
  addressCache : List String := []
  addressCacheLoaded : Bool := false
  /-- What the watcher last found when it looked up the vout with that height, txid
  and index; kept for the record. -/
  lookups : Nat × Txid × Nat → Option Bool := fun _ => none
  aborted : Bool := false
  /-- Which of two requests awaited together is served first. -/
  firstServed : Bool := true
  /-- The mints mined since the supply was read, if the two reads of a cap check
  are under way and the supply was read first; kept for the record. -/
  minedSinceRead : Option (List Hash) := none

/-- The requests the service awaits. -/
inductive Op : Type → Type 1 where
  | deposit {β : Type} (q : Query DepositDoc DepositSet β) : Op β
  | withdrawal {β : Type} (q : Query WithdrawalDoc WithdrawalSet β) : Op β
  | buyOrder {β : Type} (q : Query BuyOrderDoc BuyOrderSet β) : Op β
  | buybackCycle {β : Type} (q : Query BuybackCycleDoc BuybackCycleSet β) : Op β
  | rewardCycle {β : Type} (q : Query RewardCycleDoc RewardCycleSet β) : Op β
  | cursorUpsert (id : EventCursorId) (setOnInsert : Int) : Op Int
  | cursorSet (id : EventCursorId) (lastProcessedBlock : Int) : Op Unit
  | auditLog (entry : AuditLogEntry) : Op Unit
  | addMintJob (job : MintJob) : Op Unit
  | addReleaseJob (job : ReleaseJob) : Op Unit
  | addBuyJob (buyOrderId : ObjectId) : Op Unit
  | takeJob (job : JobRef) : Op Unit
  | finishJob (job : JobRef) (raised : Option JsError) : Op Unit
  | buyOrderUpdateMany (filter : BuyOrderDoc → Bool) (u : BuyOrderSet) : Op Unit
  | getBlockNumber : Op Nat
  | getLogs (fromBlock toBlock : Int) : Op (List Log)
  | totalSupply : Op Int
  | writeContract (call : MintCall) : Op Hash
  | usdcBalance (owner : Address) : Op Int
  | wfairBalance (owner : Address) : Op Int
  | usdcAllowance (owner : Address) : Op Int
  | ethBalance (address : Address) : Op Int
  | quoteWfairOut (usdcIn : Int) : Op Int
  | sendWallet (sender : Address) (call : WalletCall) (purpose : Purpose) : Op Hash
  | waitForTransactionReceipt (hash : Hash) : Op Receipt
  | safeInit : Op Unit
  | safeCreateTransaction (call : MintCall) : Op Unit
  | safeTransactionHash (call : MintCall) : Op Hash
  | safeSignTransaction (hash : Hash) : Op Unit
  | safeGetTransaction (hash : Hash) : Op Unit
  | safeProposeTransaction (hash : Hash) (call : MintCall) : Op Unit
  | getTipHeight : Op Nat
  | getBlockAtHeight (height : Nat) : Op Block
  | validateAddress (address : String) : Op Bool
  | sendToAddress (address : String) (amountFair : ℚ) (payout : Option (ObjectId × Nat)) : Op Txid
  | getRawTransaction (txid : Txid) : Op Unit
  | getReceivedByAddress (address : String) : Op Int
  | getMasternodeList : Op (List MasternodeListEntry)
  | knownDepositAddress (address : String) (vout : Nat × Txid × Nat) : Op Bool
  | incNextIndex : Op Nat
  | addAddress (address : String) : Op Unit
  | respondIntent (intent : DepositIntent) : Op Unit
  | isAddressCacheLoaded : Op Bool
  | cacheAddresses (addresses : List String) : Op Unit
  | webhook (message : String) : Op Unit
  | dateNow : Op Nat
  | signalAborted (pending : List Log) : Op Bool
  | firstServed : Op Bool

/-- What an `async` function returns. -/
abbrev Promise := Async.Program Op JsError

abbrev Outcome := Async.Outcome JsError

/-- Reads of the process's own state. They are not awaited: they cannot raise,
and no run ends at one. -/
def Op.synchronous {β : Type} : Op β → Bool
  | .knownDepositAddress _ _ | .addAddress _ | .respondIntent _ | .isAddressCacheLoaded
  | .cacheAddresses _ | .dateNow | .signalAborted _ | .firstServed => true
  | _ => false

def refusals : Refusals JsError where
  duplicate := .error "E11000 duplicate key error collection"
  invalid := .error "ValidationError: Path is required."

namespace BaseChain

def tip (c : BaseChain) : Nat := c.blocks.length

def blockLogs (c : BaseChain) : Nat → List Log
  | 0 => []
  | n + 1 => c.blocks.getD n []

/-- The logs of the blocks from `fromBlock` to `toBlock` that exist. -/
def getLogs (c : BaseChain) (fromBlock toBlock : Int) : List Log :=
  (List.range (c.tip + 1)).flatMap fun (n : Nat) =>
    if fromBlock ≤ n ∧ n ≤ toBlock then c.blockLogs n else []

end BaseChain

namespace FairNode

def blockAt (f : FairNode) : Nat → Option Block
  | 0 => some { tx := [] }
  | n + 1 => f.blocks[n]?

end FairNode

/-- The sats an 8-decimal amount stands for. -/
def fairValueToSats (value : ℚ) : Int := roundHalfUp (value * 100000000)

namespace FairNode

def vouts (f : FairNode) : List (Txid × TxVout) := f.blocks.flatMap Block.vouts

/-- The sats a vout pays to an address of the bridge. -/
def creditSats (f : FairNode) (vout : TxVout) : Int :=
  match voutAddress vout with
  | some a => if f.owned a then fairValueToSats vout.value else 0
  | none => 0

def credits (f : FairNode) (b : Block) : Int :=
  (b.vouts.map fun v => f.creditSats v.2).sum

end FairNode

/-- What an answered request returns and leaves behind; `none` while it cannot
be answered yet. `row` is the row whose signer makes the request, if one does. -/
def effect {β : Type} (row : Option ObjectId) :
    Op β → World → Option (Except JsError β × World)
  | .deposit q, w =>
      let r := q.run refusals w.now w.deposits
      some (r.1, { w with deposits := r.2 })
  | .withdrawal q, w =>
      let r := q.run refusals w.now w.withdrawals
      some (r.1, { w with withdrawals := r.2 })
  | .buyOrder q, w =>
      let r := q.run refusals w.now w.buyOrders
      some (r.1, { w with buyOrders := r.2 })
  | .buybackCycle q, w =>
      let r := q.run refusals w.now w.buybackCycles
      some (r.1, { w with buybackCycles := r.2 })
  | .rewardCycle q, w =>
      let r := q.run refusals w.now w.rewardCycles
      some (r.1, { w with rewardCycles := r.2 })
  | .cursorUpsert id v, w =>
      match w.cursor id with
      | some last => some (.ok last, w)
      | none => some (.ok v, { w with cursor := Function.update w.cursor id (some v) })
  | .cursorSet id v, w =>
      some (.ok (), { w with cursor := Function.update w.cursor id (some v) })
  | .auditLog entry, w => some (.ok (), { w with audit := w.audit ++ [entry] })
  | .addMintJob job, w =>
      some (.ok (), { w with
        mintQueue := w.mintQueue.add (job.fairTxid, job.fairVout) job })
  | .addReleaseJob job, w =>
      some (.ok (), { w with
        releaseQueue := w.releaseQueue.add job.key job })
  | .addBuyJob buyOrderId, w =>
      some (.ok (), { w with buyQueue := w.buyQueue.add buyOrderId () })
  | .takeJob job, w => some (.ok (), match job with
      | .mint vout => { w with mintQueue := w.mintQueue.take vout }
      | .release burn => { w with releaseQueue := w.releaseQueue.take burn }
      | .buy order => { w with buyQueue := w.buyQueue.take order })
  | .finishJob job raised, w =>
      let unrecoverable := raised.any JsError.nonRetryable
      some (.ok (), match job with
        | .mint vout =>
            { w with mintQueue := w.mintQueue.finish vout raised.isSome unrecoverable }
        | .release burn =>
            { w with releaseQueue := w.releaseQueue.finish burn raised.isSome unrecoverable }
        | .buy order =>
            { w with buyQueue := w.buyQueue.finish order raised.isSome unrecoverable })
  | .buyOrderUpdateMany filter u, w =>
      some (.ok (), { w with buyOrders := w.buyOrders.modifyAll filter u })
  | .getBlockNumber, w => some (.ok w.base.tip, w)
  | .getLogs fromBlock toBlock, w => some (.ok (w.base.getLogs fromBlock toBlock), w)
  | .totalSupply, w =>
      some (.ok w.base.totalSupply, { w with minedSinceRead := some [] })
  | .writeContract call, w =>
      let hash := w.base.hashOf w.base.txs.length
      if call.encodable = false then
        some (.error (.error "Number is not in safe integer range"), w)
      else if w.base.txs.any fun tx => tx.hash == hash then none
      else some (.ok hash, { w with
        base := { w.base with txs := w.base.txs ++ [⟨hash, call, row⟩] } })
  | .usdcBalance owner, w => some (.ok (w.base.tokens.usdc owner), w)
  | .wfairBalance owner, w => some (.ok (w.base.tokens.wfair owner), w)
  | .usdcAllowance owner, w => some (.ok (w.base.tokens.allowance owner), w)
  | .ethBalance address, w => some (.ok (w.base.tokens.eth address), w)
  | .quoteWfairOut usdcIn, w =>
      match w.base.tokens.quote usdcIn with
      | some wfairOut => some (.ok wfairOut, w)
      | none => some (.error (.error "execution reverted"), w)
  | .sendWallet sender call purpose, w =>
      let hash := w.base.walletHashOf w.base.walletTxs.length
      if call.encodable = false then
        some (.error (.error "Number is not in safe integer range"), w)
      else if w.base.walletTxs.any fun tx => tx.hash == hash then none
      else some (.ok hash, { w with base := { w.base with
        walletTxs := w.base.walletTxs ++ [⟨hash, sender, call, purpose⟩] } })
  | .waitForTransactionReceipt hash, w =>
      (w.base.receipts hash).map fun r => (.ok r, w)
  | .safeInit, w => some (.ok (), w)
  | .safeCreateTransaction _, w => some (.ok (), w)
  | .safeTransactionHash call, w =>
      some (.ok (w.safe.hashFor w.safe.proposals.length call), w)
  | .safeSignTransaction _, w => some (.ok (), w)
  | .safeGetTransaction hash, w =>
      if w.safe.proposals.any fun p => p.1 == hash then some (.ok (), w)
      else some (.error (.error "Not Found"), w)
  | .safeProposeTransaction hash call, w =>
      some (.ok (), { w with
        safe := { w.safe with proposals := w.safe.proposals ++ [(hash, call)] } })
  | .getTipHeight, w => some (.ok w.fair.blocks.length, w)
  | .getBlockAtHeight height, w =>
      match w.fair.blockAt height with
      | some b => some (.ok b, w)
      | none => some (.error (.error "RPC -8: Block height out of range"), w)
  | .validateAddress address, w => some (.ok (w.fair.isvalid address), w)
  | .sendToAddress address amountFair payout, w =>
      let sats := fairValueToSats amountFair
      if sats ≤ 0 then some (.error (.error "RPC -3: Invalid amount"), w)
      else if w.fair.isvalid address = false then
        some (.error (.error "RPC -5: Invalid address"), w)
      else if w.fair.custodySats < sats then
        some (.error (.error "RPC -6: Insufficient funds"), w)
      else
        let txid := w.fair.txidOf w.fair.sends.length
        some (.ok txid, { w with fair := { w.fair with
          sends := w.fair.sends ++ [⟨txid, address, sats, row, payout⟩]
          custodySats := w.fair.custodySats - sats } })
  | .getRawTransaction txid, w =>
      if w.fair.known txid then some (.ok (), w)
      else some (.error (.error "RPC -5: No such mempool or blockchain transaction"), w)
  | .getReceivedByAddress _, w => some (.ok w.fair.confirmed, w)
  | .getMasternodeList, w => some (.ok w.fair.masternodes, w)
  | .knownDepositAddress address vout, w =>
      let isKnown := w.addressCache.contains address
      some (.ok isKnown, { w with lookups := Function.update w.lookups vout (some isKnown) })
  | .incNextIndex, w => some (.ok (w.nextIndex + 1), { w with nextIndex := w.nextIndex + 1 })
  | .addAddress address, w =>
      some (.ok (), { w with addressCache := address :: w.addressCache })
  | .respondIntent intent, w => some (.ok (), { w with intents := w.intents ++ [intent] })
  | .isAddressCacheLoaded, w => some (.ok w.addressCacheLoaded, w)
  | .cacheAddresses addresses, w =>
      some (.ok (), { w with
        addressCache := addresses ++ w.addressCache, addressCacheLoaded := true })
  | .webhook _, w => some (.ok (), w)
  | .dateNow, w => some (.ok w.now, w)
  | .signalAborted _, w => some (.ok w.aborted, w)
  | .firstServed, w => some (.ok w.firstServed, { w with minedSinceRead := none })

/-- The calls that the outside world counts even when they raise. -/
def recordCall {β : Type} : Op β → World → World
  | .writeContract call, w =>
      { w with base := { w.base with calls := w.base.calls ++ [call] } }
  | .safeProposeTransaction hash call, w =>
      { w with safe := { w.safe with calls := w.safe.calls ++ [(hash, call)] } }
  | .sendToAddress address amountFair _, w =>
      { w with fair := { w.fair with calls := w.fair.calls ++ [(address, amountFair)] } }
  | _, w => w

def answer {β : Type} (row : Option ObjectId) (op : Op β) (out : Outcome) (w : World) :
    Option (Except JsError β × World) :=
  out.resolve (effect row op) (recordCall op w)

end FairBridge

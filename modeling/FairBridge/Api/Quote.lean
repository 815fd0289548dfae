import FairBridge.Api.Buy
import FairBridge.Async.System
import FairBridge.Model.Documents
import FairBridge.Worker.BuyWatcher

/-!
The API of the buy orders. A quote checks what is asked for, prices it at the pool, takes
the next payment address and files the order; any number of requests may be under way. Its
store keeps with each order what only this API reads.
-/

namespace FairBridge.BuyQuote
open Store Async

structure FeeBreakdown where
  uniswapBps : JsNumber := .finite 0
  bridgeBps : JsNumber := .finite 0
  slippageBufferBps : JsNumber := .finite 0
  deriving DecidableEq

/-- An order with the fields that are kept for the API. -/
structure QuoteOrder extends BuyOrderDoc where
  cardPaymentUrl : Option String := none
  feeBreakdown : FeeBreakdown := {}
  userIdentifier : Option String := none
  clientIp : Option String := none
  deriving DecidableEq

/-- The index on the payment address is sparse, but an explicit null is present and so
indexed like any other. A required text may not be empty. -/
def quoteOrderSchema : Schema QuoteOrder BuyOrderSet (Option Address) where
  id d := d.id
  assign i now d := { d with id := i, createdAt := now }
  set u d := { d with toBuyOrderDoc := u.apply d.toBuyOrderDoc }
  key d := some d.paymentAddress
  valid d := d.fairDestinationAddress != ""
  id_assign _ _ _ := rfl
  id_set _ _ := rfl

/-- The configuration that only the quotes read. -/
structure QuotePolicy where
  buyMinFair : JsNumber := .finite 1
  buyMaxFair : JsNumber := .finite 1000
  buyQuoteTtlSeconds : JsNumber := .finite 900
  usdcBaseAddress : Address
  wfairContractAddress : Address
  wfairUsdcPoolAddress : Address
  moonpayApiKey : Option String := none
  transakApiKey : Option String := none

structure PoolMeta where
  token0 : Address
  token1 : Address
  fee : Nat
  wfair : Address
  usdc : Address
  deriving DecidableEq, Repr

structure BuyQuoteError where
  message : String
  status : Nat
  code : String
  deriving DecidableEq, Repr

/-- What a handler raises. -/
inductive ApiError where
  | error (e : JsError)
  | buyQuoteError (e : BuyQuoteError)
  deriving DecidableEq, Repr

structure PaymentQuote where
  paymentAmount : Int
  paymentDecimals : Nat
  symbol : String
  networkLabel : String
  deriving DecidableEq, Repr

structure SerializedQuote where
  id : ObjectId
  fairAmountSats : Int
  fairDestinationAddress : String
  paymentCurrency : PaymentCurrency
  paymentAddress : Option Address
  paymentAmount : Int
  paymentAmountFormatted : String
  paymentDecimals : Nat
  paymentSymbol : String
  paymentNetworkLabel : String
  cardPaymentUrl : Option String
  paymentExpiresAt : Nat
  estimatedDeliveryTime : String
  feeBreakdown : FeeBreakdown
  deriving DecidableEq

/-- An answer: its status and what it says, with the field that says more of it. -/
inductive QuoteAnswer where
  | created (quote : SerializedQuote)
  | refused (status : Nat) (error : String) (detail : Option (String × String))
  | outOfBounds (code : String) (bound : JsNumber)
  deriving DecidableEq

/-- The requests that the handler awaits. -/
inductive QuoteOp : Type → Type 1 where
  | countDocuments (filter : QuoteOrder → Bool) : QuoteOp Nat
  | create (doc : QuoteOrder) : QuoteOp QuoteOrder
  | incNextIndex : QuoteOp Nat
  | validateAddress (address : String) : QuoteOp Bool
  | poolMeta : QuoteOp (Option PoolMeta)
  | readPool : QuoteOp (Address × Address × Nat)
  | cachePoolMeta (pool : PoolMeta) : QuoteOp Unit
  | quoteExactOutputSingle (tokenIn tokenOut : Address) (amount : Int) (fee : Nat) : QuoteOp Int
  | dateNow : QuoteOp Nat
  | respond (answer : QuoteAnswer) : QuoteOp Unit

abbrev QuotePromise := Async.Program QuoteOp ApiError

def call {β : Type} (op : QuoteOp β) : QuotePromise β := Program.request op

def QuotePromise.of {α : Type} (x : Except JsError α) : QuotePromise α :=
  Program.ofExcept (x.mapError .error)

/-- Accesses to the process's own state, and the answer itself. -/
def QuoteOp.synchronous {β : Type} : QuoteOp β → Bool
  | .poolMeta | .cachePoolMeta _ | .dateNow | .respond _ => true
  | _ => false

section Validate

/-- A request body, of which an amount given as a number is already text. -/
structure QuoteBody where
  fairAmount : String
  paymentCurrency : PaymentCurrency
  fairDestinationAddress : String
  userIdentifier : Option String := none
  deriving DecidableEq, Repr

/-- `s.length` counts UTF-16 code units. -/
def jsLength (s : String) : Nat := (s.toList.map fun c => if c.toNat < 0x10000 then 1 else 2).sum

/-- `[a-km-zA-HJ-NP-Z1-9]` -/
def isAddressChar (c : Char) : Bool :=
  ('a' ≤ c && c ≤ 'k') || ('m' ≤ c && c ≤ 'z') || ('A' ≤ c && c ≤ 'H') ||
    ('J' ≤ c && c ≤ 'N') || ('P' ≤ c && c ≤ 'Z') || ('1' ≤ c && c ≤ '9')

/-- `/^[FTM][a-km-zA-HJ-NP-Z1-9]+$/` -/
def fairAddressRegex : Regex Char :=
  .seq (.cls fun c => c == 'F' || c == 'T' || c == 'M') (.many isAddressChar)

def quoteBody (body : QuoteBody) : Bool :=
  fairAmountRegex.test body.fairAmount.toList &&
    (20 ≤ jsLength body.fairDestinationAddress && jsLength body.fairDestinationAddress ≤ 64) &&
    fairAddressRegex.test body.fairDestinationAddress.toList &&
    body.userIdentifier.all fun id => 1 ≤ jsLength id && jsLength id ≤ 128

end Validate

section Pool

/-- The pool has the two tokens in either order. -/
def matchPool (policy : QuotePolicy) (token0 token1 : Address) (fee : Nat) :
    Except JsError PoolMeta :=
  let usdc := if token0 = policy.usdcBaseAddress then some token0
    else if token1 = policy.usdcBaseAddress then some token1 else none
  let wfair := if token0 = policy.wfairContractAddress then some token0
    else if token1 = policy.wfairContractAddress then some token1 else none
  match usdc, wfair with
  | some usdc, some wfair => .ok { token0, token1, fee, usdc, wfair }
  | _, _ => .error (.error
      s!"pool {policy.wfairUsdcPoolAddress} does not match configured WFAIR + USDC addresses (token0={token0}, token1={token1})")

def getPoolMeta (policy : QuotePolicy) : QuotePromise PoolMeta := do
  match ← call .poolMeta with
  | some pool => return pool
  | none => do
      let (token0, token1, fee) ← call .readPool
      let pool ← QuotePromise.of (matchPool policy token0 token1 fee)
      call (.cachePoolMeta pool)
      return pool

def quoteUsdcInForExactWfairOut (policy : QuotePolicy) (wfairOut : Int) : QuotePromise Int := do
  let pool ← getPoolMeta policy
  call (.quoteExactOutputSingle pool.usdc pool.wfair wfairOut pool.fee)

end Pool

section Payment

def raise {α : Type} (message : String) (status : Nat) (code : String) : QuotePromise α :=
  throw (.buyQuoteError ⟨message, status, code⟩)

def buildPaymentQuote (cfg : Config) (policy : QuotePolicy) (paymentCurrency : PaymentCurrency)
    (wfairWei : Int) : QuotePromise PaymentQuote :=
  match paymentCurrency with
  | .usdcBase => do
      let usdcRaw ← quoteUsdcInForExactWfairOut policy wfairWei
      let paymentAmount ← QuotePromise.of (quoteUsdcPayment cfg (fun _ => .ok usdcRaw) wfairWei)
      return ⟨paymentAmount, 6, "USDC", "Base"⟩
  | .ethBase => raise "ETH_BASE payments are temporarily disabled — use USDC_BASE" 503
      "currency_unavailable"
  | .ethMainnet => raise "ETH_MAINNET payments are not yet supported" 503 "currency_unavailable"
  | .btc => raise "BTC payments are not yet supported" 503 "currency_unavailable"
  | .card => raise "Card payments are coming soon" 503 "card_not_configured"

/-- The root is resolved before an index is taken. A key that cannot be read raises as well:
`root` is what the HD wallet library makes of the configured one. -/
def getBuyPaymentRoot (cfg : Config) (root : Except JsError Unit) : Except JsError Unit :=
  if cfg.buyHdConfigured then root
  else .error (.error
    "BUY_PAYMENT_HD_XPRV or BUY_PAYMENT_HD_MNEMONIC must be configured to allocate buy-side payment addresses")

structure DerivedBuyPaymentKey where
  index : Nat
  address : Address
  deriving DecidableEq, Repr

/-- The update returns the index after this one. -/
def allocateNextBuyPaymentAddress (cfg : Config) (root : Except JsError Unit) :
    QuotePromise DerivedBuyPaymentKey := do
  QuotePromise.of (getBuyPaymentRoot cfg root)
  let updated ← call .incNextIndex
  let index := updated - 1
  let address ← QuotePromise.of (cfg.deriveBuyPaymentKey index)
  return ⟨index, address⟩

end Payment

def maxAwaitingPerIp : Nat := 20

def outstanding (clientIp : String) (d : QuoteOrder) : Bool :=
  d.clientIp == some clientIp && d.status == .awaitingPayment

/-- Whether the client has too many orders that await their payment. -/
def tooManyOutstanding (clientIp : Option String) : QuotePromise Bool :=
  match clientIp.filter fun ip => ip != "" with
  | some ip => do return maxAwaitingPerIp ≤ (← call (.countDocuments (outstanding ip)))
  | none => return false

/-- `new Date(now + ttl * 1000)`: a date that is out of range cannot be stored. -/
def expiryDate (now : Nat) : JsNumber → Except JsError Nat
  | .finite ttl =>
      let ms : ℚ := now + ttl * 1000
      if |ms| ≤ 8640000000000000 then .ok ms.floor.toNat
      else .error (.error "Cast to date failed for value \"Invalid Date\"")
  | .infinity _ => .error (.error "Cast to date failed for value \"Invalid Date\"")

def serializeQuote (d : QuoteOrder) (quote : PaymentQuote) : Except JsError SerializedQuote := do
  let paymentAmountFormatted ← formatPaymentAmount (toString d.paymentAmount) quote.paymentDecimals
  return {
    id := d.id
    fairAmountSats := d.fairAmountSats
    fairDestinationAddress := d.fairDestinationAddress
    paymentCurrency := d.paymentCurrency
    paymentAddress := d.paymentAddress
    paymentAmount := d.paymentAmount
    paymentAmountFormatted
    paymentDecimals := quote.paymentDecimals
    paymentSymbol := quote.symbol
    paymentNetworkLabel := quote.networkLabel
    cardPaymentUrl := d.cardPaymentUrl
    paymentExpiresAt := d.paymentExpiresAt
    estimatedDeliveryTime := "60-180 seconds after payment confirms"
    feeBreakdown := d.feeBreakdown }

/-- The order as it is filed. -/
def quotedOrder (cfg : Config) (body : QuoteBody) (clientIp : Option String) (fairSats : Int)
    (quote : PaymentQuote) (key : DerivedBuyPaymentKey) (expiresAt : Nat) : QuoteOrder where
  fairAmountSats := fairSats
  fairDestinationAddress := body.fairDestinationAddress
  paymentCurrency := body.paymentCurrency
  paymentAddress := some key.address
  paymentAmount := quote.paymentAmount
  paymentHdIndex := some key.index
  paymentExpiresAt := expiresAt
  feeBreakdown :=
    { bridgeBps := cfg.buyBridgeFeeBps, slippageBufferBps := cfg.buySlippageBufferBps }
  userIdentifier := body.userIdentifier
  clientIp := clientIp

def createOrder (cfg : Config) (policy : QuotePolicy) (body : QuoteBody)
    (clientIp : Option String) (fairSats : Int) (quote : PaymentQuote)
    (key : DerivedBuyPaymentKey) : QuotePromise Unit := do
  let now ← call .dateNow
  let expiresAt ← QuotePromise.of (expiryDate now policy.buyQuoteTtlSeconds)
  let created ← call (.create (quotedOrder cfg body clientIp fairSats quote key expiresAt))
  let serialized ← QuotePromise.of (serializeQuote created quote)
  call (.respond (.created serialized))

def isCardSupported (policy : QuotePolicy) : Bool :=
  policy.moonpayApiKey.isSome || policy.transakApiKey.isSome

/-- The answer to a request that cannot be priced. -/
def respondUnpriced : ApiError → QuotePromise Unit
  | .buyQuoteError e => call (.respond (.refused e.status e.code (some ("message", e.message))))
  | .error _ => call (.respond (.refused 502 "pool_quote_failed"
      (some ("message", "Pool quote unavailable; try again shortly."))))

/-- A priced request gets its address and is filed. -/
def allocateAndCreate (cfg : Config) (policy : QuotePolicy) (root : Except JsError Unit)
    (body : QuoteBody) (clientIp : Option String) (fairSats : Int) (quote : PaymentQuote) :
    QuotePromise Unit :=
  if body.paymentCurrency = .card then
    call (.respond (.refused 503 "card_not_configured" (some ("message",
      if isCardSupported policy then "Card provider integration pending"
      else "Card payments are coming soon"))))
  else do
    match ← tryCatch (do return some (← allocateNextBuyPaymentAddress cfg root)) (fun _ => do
        call (.respond (.refused 503 "address_allocation_failed"
          (some ("message", "Bridge HD not configured for buy flow"))))
        return none) with
    | none => return
    | some key => createOrder cfg policy body clientIp fairSats quote key

def priceAndFile (cfg : Config) (policy : QuotePolicy) (root : Except JsError Unit)
    (body : QuoteBody) (clientIp : Option String) (fairSats : Int) : QuotePromise Unit := do
  let isvalid ← tryCatch (call (.validateAddress body.fairDestinationAddress)) fun _ => pure false
  if isvalid = false then
    call (.respond (.refused 400 "invalid_request" (some ("code", "invalid_fair_destination"))))
  else do
    match ← tryCatch
        (do return some (← buildPaymentQuote cfg policy body.paymentCurrency
          (fairSatsToWfairWei fairSats)))
        (fun err => do
          respondUnpriced err
          return none) with
    | none => return
    | some quote => allocateAndCreate cfg policy root body clientIp fairSats quote

def quoteHandler (cfg : Config) (policy : QuotePolicy) (root : Except JsError Unit)
    (body : QuoteBody) (clientIp : Option String) : QuotePromise Unit := do
  if ← tooManyOutstanding clientIp then
    call (.respond (.refused 429 "rate_limited" (some ("reason", "too_many_outstanding_quotes"))))
  else do
    let fairSats ← QuotePromise.of (fairAmountToSats body.fairAmount)
    let minSats ← QuotePromise.of policy.buyMinFair.toSats
    let maxSats ← QuotePromise.of policy.buyMaxFair.toSats
    if fairSats < minSats then call (.respond (.outOfBounds "below_minimum" policy.buyMinFair))
    else if maxSats < fairSats then
      call (.respond (.outOfBounds "above_maximum" policy.buyMaxFair))
    else priceAndFile cfg policy root body clientIp fairSats

/-- `POST /quote`. What the handler raises is answered as an internal error. -/
def postQuote (cfg : Config) (policy : QuotePolicy) (root : Except JsError Unit)
    (body : QuoteBody) (clientIp : Option String) : QuotePromise Unit :=
  if quoteBody body then
    tryCatch (quoteHandler cfg policy root body clientIp) fun _ =>
      call (.respond (.refused 500 "internal" none))
  else call (.respond (.refused 400 "invalid_request" none))

section World

/-- What the handler reads and writes. `nextIndex` is the counter of the payment addresses,
`quoteOut` what the pool asks for an exact amount of WFAIR, and `poolMeta` what the process
remembers of the pool. -/
structure QuoteWorld where
  now : Nat := 0
  orders : Collection quoteOrderSchema := .empty
  nextIndex : Nat := 0
  isvalid : String → Bool := fun _ => true
  pool : Address × Address × Nat
  quoteOut : Int → Option Int := fun _ => none
  poolMeta : Option PoolMeta := none
  answers : List QuoteAnswer := []

def quoteRefusals : Refusals ApiError := ⟨.error refusals.duplicate, .error refusals.invalid⟩

def QuoteOp.effect {β : Type} : QuoteOp β → QuoteWorld → Except ApiError β × QuoteWorld
  | .countDocuments filter, w => (.ok (w.orders.docs.filter filter).length, w)
  | .create doc, w =>
      let r := (Query.create doc : Query QuoteOrder BuyOrderSet QuoteOrder).run quoteRefusals w.now
        w.orders
      (r.1, { w with orders := r.2 })
  | .incNextIndex, w => (.ok (w.nextIndex + 1), { w with nextIndex := w.nextIndex + 1 })
  | .validateAddress address, w => (.ok (w.isvalid address), w)
  | .poolMeta, w => (.ok w.poolMeta, w)
  | .readPool, w => (.ok w.pool, w)
  | .cachePoolMeta pool, w => (.ok (), { w with poolMeta := some pool })
  | .quoteExactOutputSingle _ _ amount _, w =>
      match w.quoteOut amount with
      | some usdcIn => (.ok usdcIn, w)
      | none => (.error (.error (.error "execution reverted")), w)
  | .dateNow, w => (.ok w.now, w)
  | .respond answer, w => (.ok (), { w with answers := w.answers ++ [answer] })

/-- What happens around the API: time passes, the price moves, the rest of the service
works on the orders, and the process starts anew. -/
inductive QuoteEvent where
  | wait (ms : Nat)
  | market (quoteOut : Int → Option Int)
  | work (filter : QuoteOrder → Bool) (u : BuyOrderSet)
  | restart

def QuoteEvent.occur : QuoteEvent → QuoteWorld → Option QuoteWorld
  | .wait ms, w => some { w with now := w.now + ms }
  | .market quoteOut, w => some { w with quoteOut := quoteOut }
  | .work filter u, w =>
      -- no order comes to await its payment again
      if u.status = some .awaitingPayment then none
      else some { w with orders := w.orders.modifyAll filter u }
  | .restart, w => some { w with poolMeta := none }

structure QuoteRequest where
  body : QuoteBody
  clientIp : Option String

/-- Any number of requests at once. Whatever they await may raise, with or without effect,
and the process may die there. -/
def quoteApi (ι : Type) (cfg : Config) (policy : QuotePolicy) (root : Except JsError Unit) :
    System QuoteOp ApiError QuoteWorld ι QuoteRequest QuoteEvent where
  program r := postQuote cfg policy root r.body r.clientIp
  ready _ _ _ := true
  answer _ op out w := out.resolve (fun w => some (op.effect w)) w
  env e w := e.occur w
  may _ op out _ := !op.synchronous || out.isDone
  mayKill _ op _ := !op.synchronous

end World

end FairBridge.BuyQuote

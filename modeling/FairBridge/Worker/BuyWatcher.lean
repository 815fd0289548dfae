import FairBridge.Model.Requests

/-!
The watcher of the payment addresses. Every tick first expires the orders whose quote has
run out, and then looks at the balances of those that are still open; an order whose
address holds what it asks for is claimed and its job is added.
-/

namespace FairBridge
open Store Async

def maxOrdersPerTick : Nat := 50

def readUsdcBalance (address : Address) : Promise Int := call (.usdcBalance address)

def staleOrder (now : Nat) (o : BuyOrderDoc) : Bool :=
  o.status == .awaitingPayment && o.paymentExpiresAt < now

def expireStaleOrders : Promise Unit := do
  let now ← call .dateNow
  call (.buyOrderUpdateMany (staleOrder now) { status := some .expired })

def awaitingOrder (now : Nat) (o : BuyOrderDoc) : Bool :=
  o.status == .awaitingPayment && o.paymentCurrency == .usdcBase && o.paymentAddress.isSome &&
    now ≤ o.paymentExpiresAt

/-- What the claim of a payment asks of the row. -/
def payable (o : BuyOrderDoc) : Bool := o.status == .awaitingPayment

def detected (balance : Int) : BuyOrderSet where
  status := some .paymentDetected
  paymentDetectedTxHash := some s!"balance:{balance}"

/-- A balance that cannot be read is left to the next tick. -/
def detectOrders : List BuyOrderDoc → Promise Unit
  | [] => pure ()
  | order :: orders =>
      match order.paymentAddress with
      | none => detectOrders orders
      | some address => do
          let balance ← tryCatch (do return some (← readUsdcBalance address))
            fun _ => return none
          match balance with
          | none => detectOrders orders
          | some balance =>
              if balance < order.paymentAmount then detectOrders orders
              else do
                match ← call (.buyOrder (.findOneAndUpdate
                    (fun o => o.id == order.id && payable o) none (detected balance))) with
                | none => detectOrders orders
                | some claimed =>
                    call (.addBuyJob claimed.id)
                    detectOrders orders

def detectAwaitingOrders : Promise Unit := do
  let now ← call .dateNow
  detectOrders (← call (.buyOrder (.find (awaitingOrder now) (some maxOrdersPerTick))))

/-- One round of the watcher's loop; its errors are logged. -/
def buyWatcherTick : Promise Unit :=
  tryCatch (do expireStaleOrders; detectAwaitingOrders) fun _ => pure ()

def buyWatcherLoop : Nat → Promise Unit
  | 0 => pure ()
  | rounds + 1 => do
      if ← call (.signalAborted []) then return
      else
        buyWatcherTick
        buyWatcherLoop rounds

/-- An empty setting counts as none. -/
def Config.buyHdConfigured (cfg : Config) : Bool :=
  cfg.buyPaymentHdXprv.any (fun s => s != "") || cfg.buyPaymentHdMnemonic.any fun s => s != ""

/-- The watcher, observed for at most so many rounds. -/
def startBuyWatcher (cfg : Config) (rounds : Nat) : Promise Unit :=
  if cfg.buyHdConfigured then buyWatcherLoop rounds else pure ()

end FairBridge

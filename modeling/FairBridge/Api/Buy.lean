import FairBridge.Model.Config
import FairBridge.Model.Text
import FairBridge.Text.Decimal
import FairBridge.Text.Regex

/-!
The quote of a buy order. A payment in USDC is what the pool wants for the ordered
amount, with a buffer against slippage and the fee of the bridge on top. Amounts come
in and go out as decimal text.
-/

namespace FairBridge.BuyQuote

/-- 1 FAIR is 1e8 sats and 1e18 wei of WFAIR. -/
def fairSatsToWfairWei (sats : Int) : Int := sats * satsToWei

/-- The caller pays, so the fee increases the amount. -/
def applyFee (amount feeBps : Int) : Int := bigIntDiv (amount * (bpsDenom + feeBps)) bpsDenom

def applyBuffer (amount bufferBps : Int) : Int :=
  bigIntDiv (amount * (bpsDenom + bufferBps)) bpsDenom

/-- The quoter says how much USDC it takes to receive an exact amount of WFAIR. -/
def quoteUsdcPayment (cfg : Config) (quoteUsdcInForExactWfairOut : Int → Except JsError Int)
    (wfairWei : Int) : Except JsError Int := do
  let usdcRaw ← quoteUsdcInForExactWfairOut wfairWei
  let slippage ← cfg.buySlippageBufferBps.toBigInt
  let fee ← cfg.buyBridgeFeeBps.toBigInt
  let usdcWithBuffer := applyBuffer usdcRaw slippage
  return applyFee usdcWithBuffer fee

/-- `/^\d+(\.\d{1,8})?$/`, what the schema of a quote takes for an amount. -/
def fairAmountRegex : Regex Char :=
  .seq (.many Char.isDigit) (.opt (.seq (.cls fun c => c == '.') (.upTo Char.isDigit 7)))

def fairAmountToSats (fairAmount : String) : Except JsError Int := do
  let parts := fairAmount.toList.splitOn '.'
  let whole := parts.getD 0 ['0']
  let frac := parts.getD 1 []
  let wholeSats := (← bigIntOfText whole) * satsPerFair
  let padded := (frac ++ List.replicate 8 '0').take 8
  let fracSats ← bigIntOfText padded
  return wholeSats + fracSats

/-- A bigint with `decimals` fractional digits, without trailing zeros. -/
def formatPaymentAmount (raw : String) (decimals : Int) : Except JsError String := do
  let value ← bigIntOfText raw.toList
  if decimals ≤ 0 then return toString value
  else
    let denom : Int := 10 ^ decimals.toNat
    let whole := bigIntDiv value denom
    let frac := Int.tmod value denom
    if frac = 0 then return toString whole
    else
      let fracStr := Decimal.stripZeros
        (Decimal.padStart decimals.toNat '0' (toString frac).toList)
      return toString whole ++ "." ++ String.ofList fracStr

end FairBridge.BuyQuote

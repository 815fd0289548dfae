import FairBridge.Service

/-!
A proof outline of the payment watcher: what it knows at each of its awaits, and what each
of its requests has to keep.
-/

namespace FairBridge
open Store Async Async.Rules

variable {ι S τ W : Type} {sys : System Op JsError W ι τ EnvEvent}

/-- `base` is known between two ticks, `listed` of the orders that are still to be looked
at, `read` of the balance of the next one and `claimed` of an order whose job is still to
be added. -/
structure PaymentOutline (R : Rules sys S) (i : ι) where
  base : S → Prop
  listed : List BuyOrderDoc → S → Prop
  read : BuyOrderDoc → List BuyOrderDoc → Int → S → Prop
  claimed : ObjectId → List BuyOrderDoc → S → Prop
  base_stable : R.Stable i base
  listed_stable : ∀ os, R.Stable i (listed os)
  read_stable : ∀ o os b, R.Stable i (read o os b)
  claimed_stable : ∀ id os, R.Stable i (claimed id os)
  base_rest : ∀ s, R.inv s → base s → R.rest i s
  listed_base : ∀ os s, R.inv s → listed os s → base s
  read_settled : ∀ o os b, R.Settled i (read o os b)
    (.buyOrder (.findOneAndUpdate (fun e => e.id == o.id && payable e) none (detected b)))
  claimed_settled : ∀ id os, R.Settled i (claimed id os) (.addBuyJob id)
  aborted : R.Performs i base (.signalAborted []) (Answered (fun _ => base) base)
  clock : R.Performs i base .dateNow (Answered (fun _ => base) base)
  expire : ∀ now, R.Performs i base
    (.buyOrderUpdateMany (staleOrder now) { status := some .expired })
    (Answered (fun _ => base) base)
  find : ∀ now, R.Performs i base
    (.buyOrder (.find (awaitingOrder now) (some maxOrdersPerTick))) (Answered listed base)
  skip : ∀ o os s, R.inv s → listed (o :: os) s → listed os s
  balance : ∀ o os a, o.paymentAddress = some a → R.Performs i (listed (o :: os))
    (.usdcBalance a) (Answered (read o os) (listed os))
  short : ∀ o os b s, R.inv s → b < o.paymentAmount → read o os b s → listed os s
  claim : ∀ o os b, o.paymentAmount ≤ b → R.Performs i (read o os b)
    (.buyOrder (.findOneAndUpdate (fun e => e.id == o.id && payable e) none (detected b)))
    (Answered (Found (fun e => claimed e.id os) (listed os)) base)
  enqueue : ∀ id os, R.Performs i (claimed id os) (.addBuyJob id)
    (Answered (fun _ => listed os) base)

namespace PaymentOutline
variable {R : Rules sys S} {i : ι} {cfg : Config}

theorem listed_rest (O : PaymentOutline R i) (os : List BuyOrderDoc) (s : S) (hi : R.inv s)
    (h : O.listed os s) : R.rest i s := O.base_rest s hi (O.listed_base os s hi h)

theorem claimOrder (O : PaymentOutline R i) {o : BuyOrderDoc} {os : List BuyOrderDoc} {b : Int}
    (hpaid : o.paymentAmount ≤ b) :
    R.Triple i (O.read o os b)
      (call (.buyOrder (.findOneAndUpdate (fun e => e.id == o.id && payable e) none (detected b))))
      (Found (fun e => O.claimed e.id os) (O.listed os)) fun _ => O.base := by
  refine .call (O.read_stable o os b) (O.read_settled o os b) (O.claim o os b hpaid) ?_
    O.base_stable
  intro found
  cases found with
  | none => exact O.listed_stable os
  | some e => exact O.claimed_stable e.id os

/-- The orders one after the other; what a balance does not settle is left alone. -/
theorem detectOrders (O : PaymentOutline R i) (os : List BuyOrderDoc) :
    R.Triple i (O.listed os) (FairBridge.detectOrders os) (fun _ => O.base)
      fun _ => O.base := by
  induction os with
  | nil => exact .pure (O.listed_stable []) (O.listed_base [])
  | cons o os ih =>
      have hlisted := O.listed_stable (o :: os)
      rw [FairBridge.detectOrders]
      split
      · exact ih.pre fun s hi h => O.skip o os s hi h
      · rename_i a ha
        refine .bind (M := Found (O.read o os) (O.listed os)) ?_ fun balance => ?_
        · refine .tryCatch (M := fun _ => O.listed os) ?_ fun _ =>
            .pure (O.listed_stable os) fun _ _ h => h
          refine .bind (M := O.read o os) ?_ fun b =>
            .pure (O.read_stable o os b) fun _ _ h => h
          exact .call hlisted (.of_rest (O.listed_rest (o :: os))) (O.balance o os a ha)
            (O.read_stable o os) (O.listed_stable os)
        · cases balance with
          | none => exact ih
          | some b =>
              simp only
              split
              · rename_i hshort
                exact ih.pre fun s hi h => O.short o os b s hi hshort h
              · rename_i hpaid
                refine .bind (O.claimOrder (by omega)) fun found => ?_
                cases found with
                | none => exact ih
                | some e =>
                    refine .bind (M := fun _ => O.listed os) ?_ fun _ => ih
                    exact .call (O.claimed_stable e.id os) (O.claimed_settled e.id os)
                      (O.enqueue e.id os) (fun _ => O.listed_stable os) O.base_stable

theorem buyWatcherTick (O : PaymentOutline R i) :
    R.Triple i O.base FairBridge.buyWatcherTick (fun _ => O.base) fun _ => O.base := by
  have hbase := O.base_stable
  have hsettled : ∀ {β : Type} (op : Op β), R.Settled i O.base op :=
    fun op => .of_rest O.base_rest
  refine .tryCatch (M := fun _ => O.base) ?_ fun _ => .pure hbase fun _ _ h => h
  refine .bind (M := fun _ => O.base) ?_ fun _ => ?_
  · refine .bind (M := fun _ => O.base) ?_ fun now => ?_
    · exact .call hbase (hsettled _) O.clock (fun _ => hbase) hbase
    · exact .call hbase (hsettled _) (O.expire now) (fun _ => hbase) hbase
  · refine .bind (M := fun _ => O.base) ?_ fun now => ?_
    · exact .call hbase (hsettled _) O.clock (fun _ => hbase) hbase
    · refine .bind (M := O.listed) ?_ O.detectOrders
      exact .call hbase (hsettled _) (O.find now) O.listed_stable hbase

theorem startBuyWatcher (O : PaymentOutline R i) (rounds : Nat) :
    R.Triple i O.base (FairBridge.startBuyWatcher cfg rounds) (fun _ => O.base)
      fun _ => O.base := by
  have hbase := O.base_stable
  rw [FairBridge.startBuyWatcher]
  split
  · induction rounds with
    | zero => exact .pure hbase fun _ _ h => h
    | succ rounds ih =>
        refine .bind (M := fun _ => O.base) ?_ fun aborted => ?_
        · exact .call hbase (.of_rest O.base_rest) O.aborted (fun _ => hbase) hbase
        · split
          · exact .pure hbase fun _ _ h => h
          · exact .bind O.buyWatcherTick fun _ => ih
  · exact .pure hbase fun _ _ h => h

end PaymentOutline
end FairBridge

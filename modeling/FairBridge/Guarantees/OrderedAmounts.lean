import FairBridge.Api.Buy
import FairBridge.Model.Frame
import FairBridge.Signer.BuyOutline

/-!
What an order delivers. The orchestrator burns what the payment address holds after the
swap and does not look at what was ordered, so that it is up to the pool whether the burn
is released for as much.
-/

namespace FairBridge
open Store Async Async.Rules

/-- What the burn of an amount of WFAIR is released for. -/
def deliveredSats (cfg : Config) (wfairAmount : Int) : Except JsError Int :=
  applyFee (bigIntDiv wfairAmount satsToWei) cfg.bridgeFeeBps

/-- The burn of an amount is released for at least what was ordered. -/
def Delivers (cfg : Config) (wfairAmount fairAmountSats : Int) : Prop :=
  ∃ r, deliveredSats cfg wfairAmount = .ok r ∧ fairAmountSats ≤ r

/-- The least WFAIR that delivers the sats, rounded up; no amount does where the fee takes
everything or is no integer. -/
def wfairNeeded (cfg : Config) (fairAmountSats : Int) : Option Int :=
  match cfg.bridgeFeeBps.toBigInt with
  | .ok fee =>
      if fee < bpsDenom then
        some (satsToWei * -(-(fairAmountSats * bpsDenom) / (bpsDenom - fee)))
      else none
  | .error _ => none

/-- The amount is at least what the sats need. -/
def enough (cfg : Config) (wfairAmount fairAmountSats : Int) : Bool :=
  (wfairNeeded cfg fairAmountSats).any fun needed => needed ≤ wfairAmount

theorem le_bigIntDiv {a b c : Int} (hb : 0 < b) (h : c * b ≤ a) : c ≤ bigIntDiv a b := by
  have hfloor : c ≤ a / b := (Int.le_ediv_iff_mul_le hb).mpr h
  rw [bigIntDiv, Int.tdiv_eq_ediv, Int.sign_eq_one_of_pos hb]
  split <;> omega

theorem mul_le_of_le_bigIntDiv {a b c : Int} (hb : 0 < b) (hc : 0 < c) (h : c ≤ bigIntDiv a b) :
    c * b ≤ a := by
  rw [bigIntDiv_of_pos hb (by omega)] at h
  exact (Int.le_ediv_iff_mul_le hb).mp h

/-- A quotient rounded up is at most `m` where `m` times the divisor is enough. -/
theorem neg_neg_ediv_le {a d m : Int} (hd : 0 < d) : -(-a / d) ≤ m ↔ a ≤ m * d := by
  have h : -m ≤ -a / d ↔ -m * d ≤ -a := Int.le_ediv_iff_mul_le hd
  rw [Int.neg_mul] at h
  omega

theorem delivers_iff_le {cfg : Config} {fee amount sats : Int}
    (hfee : cfg.bridgeFeeBps = .finite (fee : ℚ)) : Delivers cfg amount sats ↔
      sats ≤ bigIntDiv (bigIntDiv amount satsToWei * (bpsDenom - fee)) bpsDenom := by
  rw [Delivers, deliveredSats, hfee, applyFee_eq]
  constructor
  · intro h
    obtain ⟨r, hr, hle⟩ := h
    cases hr
    exact hle
  · exact fun h => ⟨_, rfl, h⟩

theorem delivers_of_enough {cfg : Config} {amount sats : Int}
    (h : enough cfg amount sats = true) : Delivers cfg amount sats := by
  rw [enough, wfairNeeded] at h
  cases hbps : cfg.bridgeFeeBps.toBigInt with
  | error _ => rw [hbps] at h; cases h
  | ok fee =>
      rw [hbps] at h
      by_cases hfee : fee < bpsDenom
      · simp only [if_pos hfee, Option.any_some, decide_eq_true_eq] at h
        have hwhole : -(-(sats * bpsDenom) / (bpsDenom - fee)) ≤ bigIntDiv amount satsToWei := by
          refine le_bigIntDiv (by decide) ?_
          rw [Int.mul_comm]
          exact h
        have hkept := (neg_neg_ediv_le (by omega)).mp hwhole
        exact (delivers_iff_le (JsNumber.toBigInt_ok hbps)).mpr (le_bigIntDiv (by decide) hkept)
      · simp only [if_neg hfee] at h
        cases h

/-- No less than what is needed delivers what was ordered. -/
theorem delivers_iff_enough {cfg : Config} {amount sats : Int} (hsats : 0 < sats)
    (hamount : 0 ≤ amount) : Delivers cfg amount sats ↔ enough cfg amount sats = true := by
  refine ⟨fun h => ?_, delivers_of_enough⟩
  have hdelivered := h
  obtain ⟨r, hr, _⟩ := hdelivered
  obtain ⟨fee, hbps, _⟩ := applyFee_ok hr
  have hle := (delivers_iff_le hbps).mp h
  have hkept := mul_le_of_le_bigIntDiv (by decide) hsats hle
  have hwhole : 0 ≤ bigIntDiv amount satsToWei := Int.tdiv_nonneg hamount (by decide)
  have hpos : 0 < bigIntDiv amount satsToWei * (bpsDenom - fee) :=
    lt_of_lt_of_le (Int.mul_pos hsats (by decide)) hkept
  have hrest : 0 < bpsDenom - fee := pos_of_mul_pos_right hpos hwhole
  have hceil := (neg_neg_ediv_le hrest).mpr hkept
  have hne : 0 < bigIntDiv amount satsToWei := pos_of_mul_pos_left hpos hrest.le
  have hneeded := mul_le_of_le_bigIntDiv (by decide) hne (Int.le_refl (bigIntDiv amount satsToWei))
  have hall : satsToWei * -(-(sats * bpsDenom) / (bpsDenom - fee)) ≤ amount := by
    rw [Int.mul_comm]
    exact (Int.mul_le_mul_of_nonneg_right hceil (by decide)).trans hneeded
  rw [enough, wfairNeeded, hbps, JsNumber.toBigInt_int]
  simp only [if_pos (show fee < bpsDenom by omega), Option.any_some, decide_eq_true_eq]
  exact hall

/-- The order is to be paid at the address. -/
def BuyOrderDoc.paidAt (cfg : Config) (o : BuyOrderDoc) (address : Address) : Bool :=
  o.paymentHdIndex.any fun index => match cfg.deriveBuyPaymentKey index with
    | .ok paymentKey => paymentKey == address
    | .error _ => false

/-- If the request reads what an address holds of WFAIR, that is enough for the orders to be
paid at it. -/
def Op.findsEnough (cfg : Config) {β : Type} (op : Op β) (w : World) : Bool :=
  match op with
  | .wfairBalance owner => w.buyOrders.docs.all fun o =>
      !o.paidAt cfg owner || enough cfg (w.base.tokens.wfair owner) o.fairAmountSats
  | _ => true

/-- The request burns for an order. -/
def Op.burnsForOrder {β : Type} : Op β → Bool
  | .sendWallet _ _ (.orderBurn _) => true
  | _ => false

/-- Any number of slots that run the orchestrator, for any orders. Every request may raise,
with or without effect, and every run may die where it awaits. -/
def orderRuns (ι : Type) : Faults ι where
  ready _ _ t := match t with
    | .processBuy _ => true
    | _ => false
  may _ _ _ _ := true
  mayKill _ _ _ := true
  row _ := none

/-- Every burn for an order is released for at least what was ordered. -/
def World.OrdersDelivered (cfg : Config) (w : World) : Prop :=
  ∀ tx ∈ w.base.walletTxs, ∀ id, tx.purpose = .orderBurn id →
    ∃ o amount faircoinAddress, w.buyOrders.get id = some o ∧
      tx.call = .bridgeBurn amount faircoinAddress ∧ Delivers cfg amount o.fairAmountSats

/-- The orders keep what was ordered and where it is to be paid. -/
def OrdersKept (w w' : World) : Prop :=
  ∀ id o, w.buyOrders.get id = some o → ∃ o', w'.buyOrders.get id = some o' ∧
    o'.fairAmountSats = o.fairAmountSats ∧ o'.paymentHdIndex = o.paymentHdIndex

section Kept
variable {cfg : Config} {w w' : World}

theorem OrdersKept.refl (w : World) : OrdersKept w w := fun _ o h => ⟨o, h, rfl, rfl⟩

theorem OrdersKept.trans {w₁ w₂ w₃ : World} (h : OrdersKept w₁ w₂) (h' : OrdersKept w₂ w₃) :
    OrdersKept w₁ w₃ := by
  intro id o ho
  obtain ⟨o', ho', hsats, hindex⟩ := h id o ho
  obtain ⟨o'', ho'', hsats', hindex'⟩ := h' id o' ho'
  exact ⟨o'', ho'', hsats'.trans hsats, hindex'.trans hindex⟩

theorem OrdersKept.of_same (h : w'.buyOrders = w.buyOrders) : OrdersKept w w' :=
  fun _ o ho => ⟨o, h ▸ ho, rfl, rfl⟩

/-- No update says anything of the amount or of the key. -/
theorem OrdersKept.of_effect {β : Type} {op : Op β} {row : Option ObjectId}
    {x : Except JsError β} (h : effect row op w = some (x, w')) : OrdersKept w w' := by
  by_cases hpart : op.part = .buyOrders
  · cases op with
    | buyOrder q =>
        cases h
        exact fun id o ho => Query.run_keeps (P := fun e => e.fairAmountSats = o.fairAmountSats ∧
          e.paymentHdIndex = o.paymentHdIndex) (fun _ _ h => h) refusals w.now q ho ⟨rfl, rfl⟩
    | buyOrderUpdateMany filter u =>
        cases h
        intro id o ho
        refine ⟨_, World.get_setBuyOrders ho filter u, ?_⟩
        split <;> exact ⟨rfl, rfl⟩
    | _ => cases hpart
  · exact .of_same ((effect_frame h).buyOrders hpart)

theorem OrdersKept.of_env {e : EnvEvent} (h : e.occur w = some w') : OrdersKept w w' := by
  intro id o ho
  obtain ⟨o', ho', rfl | ⟨_, _, rfl⟩⟩ := (EnvEvent.occur_surroundings h).buyOrders id o ho
  · exact ⟨o', ho', rfl, rfl⟩
  · exact ⟨_, ho', rfl, rfl⟩

theorem World.OrdersDelivered.kept (h : w.OrdersDelivered cfg) (hkept : OrdersKept w w')
    (htxs : w'.base.walletTxs = w.base.walletTxs) : w'.OrdersDelivered cfg := by
  intro tx htx id hp
  obtain ⟨o, amount, bytes, ho, hcall, hdelivers⟩ := h tx (htxs ▸ htx) id hp
  obtain ⟨o', ho', hsats, _⟩ := hkept id o ho
  exact ⟨o', amount, bytes, ho', hcall, hsats ▸ hdelivers⟩

/-- A transaction is sent that, if it burns for an order, delivers. -/
theorem World.OrdersDelivered.send {sender : Address} {c : WalletCall} {purpose : Purpose}
    (h : w.OrdersDelivered cfg)
    (hnew : ∀ id, purpose = .orderBurn id → ∃ o amount bytes, w.buyOrders.get id = some o ∧
      c = .bridgeBurn amount bytes ∧ Delivers cfg amount o.fairAmountSats) :
    (w.sendWallet sender c purpose).OrdersDelivered cfg := by
  intro tx htx id hp
  cases List.mem_append.mp htx with
  | inl hold => exact h tx hold id hp
  | inr hlast =>
      obtain rfl := List.mem_singleton.mp hlast
      exact hnew id hp

/-- Only a burn for an order can leave one short. -/
theorem World.OrdersDelivered.effect {β : Type} {op : Op β} {row : Option ObjectId}
    {x : Except JsError β} (hop : op.burnsForOrder = false) (hi : w.OrdersDelivered cfg)
    (h : effect row op w = some (x, w')) : w'.OrdersDelivered cfg := by
  by_cases hpart : op.part = .wallets
  · cases op with
    | sendWallet sender c purpose =>
        obtain ⟨_, _, rfl⟩ | ⟨_, rfl, _⟩ := effect_sendWallet h
        · exact hi
        · refine hi.send fun id hp => ?_
          rw [hp] at hop
          cases hop
    | _ => cases hpart
  · exact hi.kept (.of_effect h) ((effect_frame h).walletTxs hpart)

/-- The record of a call is none of an order. -/
theorem World.OrdersDelivered.recordCall {β : Type} (op : Op β) (hi : w.OrdersDelivered cfg) :
    (FairBridge.recordCall op w).OrdersDelivered cfg := by
  cases op <;> exact hi

end Kept

/-- The runs in which whatever address is read for its WFAIR holds enough. -/
def enoughRuns (cfg : Config) (ι : Type) : Faults ι :=
  (orderRuns ι).guarded fun _ op w => op.findsEnough cfg w

def amountRules (cfg : Config) (ι : Type) : Rules (service cfg (enoughRuns cfg ι)) World where
  world w := w
  inv := World.OrdersDelivered cfg
  rely _ := OrdersKept
  guar _ := OrdersKept
  rest _ _ := True
  hist _ _ := True
  rely_refl _ := .refl
  rely_trans := .trans
  guar_refl _ := .refl
  guar_rely _ _ _ h := h
  rest_stable _ _ _ _ := trivial
  hist_refl _ := trivial
  hist_trans _ _ := trivial
  guar_hist _ _ _ := trivial
  env_step {e w w'} hi he := by
    have hkept := OrdersKept.of_env (service_env he).2
    have htxs := (EnvEvent.occur_surroundings (service_env he).2).walletTxs
    exact ⟨w', rfl, hi.kept hkept htxs, trivial, fun _ => hkept⟩

section Outline
variable {cfg : Config} {ι : Type} {i : ι} {id : ObjectId} {α β : Type} {P : World → Prop}

/-- The orders on file bear it out that `P`, whatever else happens. -/
def Enduring (P : World → Prop) : Prop := ∀ w w', OrdersKept w w' → P w → P w'

/-- The order's address is that of the key. -/
def Keyed (cfg : Config) (id : ObjectId) (paymentKey : Address) (w : World) : Prop :=
  ∃ o, w.buyOrders.get id = some o ∧ o.paidAt cfg paymentKey = true

/-- The amount is enough for the order. -/
def Sufficient (cfg : Config) (id : ObjectId) (wfairAmount : Int) (w : World) : Prop :=
  ∃ o, w.buyOrders.get id = some o ∧ enough cfg wfairAmount o.fairAmountSats = true

theorem Enduring.true : Enduring fun _ => True := fun _ _ _ _ => trivial

theorem Enduring.keyed {paymentKey : Address} : Enduring (Keyed cfg id paymentKey) := by
  intro w w' hkept h
  obtain ⟨o, ho, hpaid⟩ := h
  obtain ⟨o', ho', _, hindex⟩ := hkept id o ho
  refine ⟨o', ho', ?_⟩
  rw [BuyOrderDoc.paidAt, hindex]
  exact hpaid

theorem Enduring.sufficient {n : Int} : Enduring (Sufficient cfg id n) := by
  intro w w' hkept h
  obtain ⟨o, ho, henough⟩ := h
  obtain ⟨o', ho', hsats, _⟩ := hkept id o ho
  exact ⟨o', ho', hsats ▸ henough⟩

theorem Enduring.stable (hP : Enduring P) : (amountRules cfg ι).Stable i P :=
  fun w w' _ _ hkept h => hP w w' hkept h

/-- A request that burns for no order leaves what lasts, and its answer is what the world
holds. -/
theorem performs_endures {op : Op β} {M : β → World → Prop} (hop : op.burnsForOrder = false)
    (hP : Enduring P)
    (hM : ∀ w a w', P w → op.findsEnough cfg w = true →
      effect none op (recordCall op w) = some (.ok a, w') → M a w') :
    (amountRules cfg ι).Performs i P op (Answered (fun a w => P w ∧ M a w) P) := by
  have hrec : ∀ w, OrdersKept w (recordCall op w) :=
    fun w => .of_same (by cases op <;> rfl)
  refine performs ?_ ?_
  · intro w e hi hPw _ _
    exact ⟨_, rfl, hi.recordCall op, hrec w, hP w _ (hrec w) hPw⟩
  · intro w x w' out hi hPw hmay hx
    have hkept := (hrec w).trans (OrdersKept.of_effect hx)
    have hP' := hP w w' hkept hPw
    refine ⟨w', rfl, (hi.recordCall op).effect hop hx, hkept, fun _ => ?_, fun _ _ _ => hP'⟩
    cases x with
    | error _ => exact hP'
    | ok a => exact ⟨hP', hM w a w' hPw (Faults.guarded_may hmay) hx⟩

theorem enduring_request {op : Op β} {M : β → World → Prop} (hop : op.burnsForOrder = false)
    (hP : Enduring P) (hM : ∀ a, Enduring (M a))
    (h : ∀ w a w', P w → op.findsEnough cfg w = true →
      effect none op (recordCall op w) = some (.ok a, w') → M a w') :
    (amountRules cfg ι).Triple i P (call op) (fun a w => P w ∧ M a w) fun _ _ => True := by
  have hboth (a : β) : (amountRules cfg ι).Stable i fun w => P w ∧ M a w :=
    fun w w' hi hi' hkept hw => ⟨hP w w' hkept hw.1, hM a w w' hkept hw.2⟩
  exact Triple.weaken (.call hP.stable (.of_rest fun _ _ _ => trivial) (performs_endures hop hP h)
    hboth hP.stable) (fun _ _ h => h) (fun _ _ _ h => h) fun _ _ _ _ => trivial

/-- Such requests need no further look. -/
theorem enduring_only {p : Promise α} (h : p.Only fun op => op.burnsForOrder = false)
    (hP : Enduring P) :
    (amountRules cfg ι).Triple i P p (fun _ => P) fun _ _ => True := by
  refine Triple.weaken (.harmless h hP.stable (fun _ _ _ => trivial) fun op hop => ?_)
    (fun _ _ h => h) (fun _ _ _ h => h) fun _ _ _ _ => trivial
  refine (performs_endures (M := fun _ _ => True) hop hP fun _ _ _ _ _ _ => trivial).post ?_
  intro r w _ hr
  cases r with
  | ok _ => exact hr.1
  | error _ => exact hr

theorem landSetup_endures (sender : Address) (setup : WalletCall) (reverted : Hash → String) :
    (landSetup sender setup reverted).Only fun op => op.burnsForOrder = false := by
  refine .bind (.request rfl) fun txHash => .bind (.request rfl) fun receipt => ?_
  split <;> trivial

theorem ensurePaymentGasBudget_endures (address : Address) :
    (ensurePaymentGasBudget cfg address).Only fun op => op.burnsForOrder = false := by
  refine .bind (.request rfl) fun currentBalance => ?_
  split
  · trivial
  · exact .bind (.ofExcept _) fun _ => landSetup_endures _ _ _

theorem ensureUsdcAllowance_endures (ctx : BuyContext) (amount : Int) :
    (ensureUsdcAllowance ctx amount).Only fun op => op.burnsForOrder = false := by
  refine .bind (.request rfl) fun allowance => ?_
  split
  · trivial
  · exact landSetup_endures _ _ _

theorem failOrder_endures (orderId : ObjectId) (what : String) (h : Hash) :
    (failOrder orderId what h : Promise α).Only fun op => op.burnsForOrder = false :=
  .bind (.request rfl) fun _ => trivial

theorem reconcileBurn_endures (ctx : BuyContext) (h : Hash) :
    (reconcileBurn ctx h).Only fun op => op.burnsForOrder = false := by
  refine .bind (.request rfl) fun receipt => ?_
  split
  · exact .request rfl
  · exact failOrder_endures _ _ _

/-- An order that is found has the identifier it was looked for by. -/
theorem findById_amounts (hP : Enduring P) :
    (amountRules cfg ι).Triple i P (BuyOrder.findById id)
      (fun found w => P w ∧ ∀ o, found = some o → o.id = id ∧
        ∃ o', w.buyOrders.get id = some o' ∧ o'.paymentHdIndex = o.paymentHdIndex)
      fun _ _ => True := by
  refine enduring_request rfl hP ?_ ?_
  · intro found w w' hkept h o ho
    obtain ⟨hid, o', ho', hindex⟩ := h o ho
    obtain ⟨o'', ho'', _, hindex'⟩ := hkept id o' ho'
    exact ⟨hid, o'', ho'', hindex'.trans hindex⟩
  · intro w found w' _ _ hx o ho
    cases hx
    have hget : w.buyOrders.get id = some o := ho
    exact ⟨Collection.get_id hget, o, hget, rfl⟩

/-- A claim returns the row it took. -/
theorem claim_amounts {cond : BuyOrderDoc → Bool} {u : BuyOrderSet} (hP : Enduring P) :
    (amountRules cfg ι).Triple i P
      (call (.buyOrder (.findOneAndUpdate (fun o => o.id == id && cond o) none u)))
      (fun found w => P w ∧ ∀ o, found = some o → o.id = id) fun _ _ => True := by
  refine enduring_request rfl hP (fun _ _ _ _ h => h) ?_
  intro w found w' _ _ hx o ho
  have heff := BuyOrder.effect_claim none id cond u w
  cases hd : (w.buyOrders.get id).filter cond with
  | none =>
      rw [hd] at heff
      cases heff.symm.trans hx
      cases ho
  | some d =>
      rw [hd] at heff
      cases heff.symm.trans hx
      cases ho
      exact Collection.get_id (Option.filter_eq_some_iff.mp hd).1

theorem claimUnlessFiled_amounts {cond : BuyOrderDoc → Bool} {u : BuyOrderSet} {filed : Bool}
    {order : BuyOrderDoc} (hP : Enduring P) (hid : order.id = id) :
    (amountRules cfg ι).Triple i P
      (claimUnlessFiled filed
        (call (.buyOrder (.findOneAndUpdate (fun o => o.id == id && cond o) none u))) order id)
      (fun found w => P w ∧ ∀ o, found = some o → o.id = id) fun _ _ => True := by
  have hstable (found : Option BuyOrderDoc) : (amountRules cfg ι).Stable i
      fun w => P w ∧ ∀ o, found = some o → o.id = id :=
    fun w w' hi hi' hkept hw => ⟨hP w w' hkept hw.1, hw.2⟩
  rw [claimUnlessFiled]
  split
  · refine .pure hP.stable fun w _ hw => ⟨hw, fun o ho => ?_⟩
    cases ho
    exact hid
  · refine .bind (claim_amounts hP) fun claimed => ?_
    cases claimed with
    | some o => exact .pure (hstable _) fun _ _ h => h
    | none =>
        refine Triple.weaken (findById_amounts hP) (fun _ _ h => h.1) ?_
          fun _ _ _ _ => trivial
        exact fun found w _ h => ⟨h.1, fun o ho => (h.2 o ho).1⟩

/-- The key that is loaded is the one of the order's address. -/
theorem loadContext_amounts :
    (amountRules cfg ι).Triple i (fun _ => True) (loadContext cfg id)
      (Found (fun ctx w => ctx.order.id = id ∧ Keyed cfg id ctx.paymentKey w) fun _ => True)
      fun _ _ => True := by
  refine .bind (findById_amounts .true) fun found => ?_
  cases found with
  | none => exact .pure (fun _ _ _ _ _ _ => ⟨trivial, fun _ ho => by cases ho⟩) fun _ _ _ => trivial
  | some order =>
      refine .fact (F := order.id = id) (fun w _ h => (h.2 order rfl).1) fun hid => ?_
      refine Triple.pre (P := fun w => ∃ o, w.buyOrders.get id = some o ∧
        o.paymentHdIndex = order.paymentHdIndex) ?_ fun w _ h => (h.2 order rfl).2
      have hendures : Enduring fun w => ∃ o, w.buyOrders.get id = some o ∧
          o.paymentHdIndex = order.paymentHdIndex := by
        intro w w' hkept h
        obtain ⟨o, ho, hindex⟩ := h
        obtain ⟨o', ho', _, hindex'⟩ := hkept id o ho
        exact ⟨o', ho', hindex'.trans hindex⟩
      simp only
      split
      · exact .throw hendures.stable fun _ _ _ => trivial
      · rename_i index hindex
        cases hkey : cfg.deriveBuyPaymentKey index with
        | error _ => exact .throw hendures.stable fun _ _ _ => trivial
        | ok paymentKey =>
            simp only [Promise.of, Program.ofExcept, Program.bind_eq, Program.pure_bind]
            split
            · refine .pure hendures.stable fun w _ h => ⟨hid, ?_⟩
              obtain ⟨o, ho, hsame⟩ := h
              refine ⟨o, ho, ?_⟩
              simp [BuyOrderDoc.paidAt, hsame, hindex, hkey]
            · exact .throw hendures.stable fun _ _ _ => trivial

theorem failOrder_amounts (orderId : ObjectId) (what : String) (h : Hash)
    {Q : α → World → Prop} (hP : Enduring P) :
    (amountRules cfg ι).Triple i P (failOrder orderId what h) Q fun _ _ => True :=
  .bind (enduring_only (.request rfl) hP) fun _ => .throw hP.stable fun _ _ _ => trivial

/-- What the address of an order holds when it is read is enough for the order. -/
theorem reconcileSwap_amounts (ctx : BuyContext) (h : Hash) :
    (amountRules cfg ι).Triple i (Keyed cfg id ctx.paymentKey) (reconcileSwap ctx h)
      (fun n => Sufficient cfg id n) fun _ _ => True := by
  refine .bind (enduring_only (.request rfl) .keyed) fun receipt => ?_
  split
  · refine Triple.weaken (enduring_request (M := fun n => Sufficient cfg id n) rfl .keyed
      (fun _ => .sufficient) ?_) (fun _ _ h => h) (fun _ _ _ h => h.2) fun _ _ _ _ => trivial
    intro w n w' hkeyed hfinds hx
    cases hx
    obtain ⟨o, ho, hpaid⟩ := hkeyed
    have henough : enough cfg (w.base.tokens.wfair ctx.paymentKey) o.fairAmountSats = true := by
      simpa [hpaid] using List.all_eq_true.mp hfinds o (Collection.get_mem ho)
    exact ⟨o, ho, henough⟩
  · exact failOrder_amounts _ _ _ .keyed

theorem executeSwap_amounts (ctx : BuyContext) :
    (amountRules cfg ι).Triple i (Keyed cfg id ctx.paymentKey) (executeSwap cfg ctx)
      (fun n => Sufficient cfg id n) fun _ _ => True := by
  refine .bind (enduring_only (.request rfl) .keyed) fun usdcBalance => ?_
  split
  · exact .throw Enduring.keyed.stable fun _ _ _ => trivial
  · refine .bind (enduring_only (ensurePaymentGasBudget_endures _) .keyed) fun _ => ?_
    refine .bind (enduring_only (ensureUsdcAllowance_endures _ _) .keyed) fun _ => ?_
    refine .bind (enduring_only (.request rfl) .keyed) fun expectedWfair => ?_
    refine .bind (enduring_only (.request rfl) .keyed) fun txHash => ?_
    refine .bind (enduring_only (.request rfl) .keyed) fun _ => ?_
    refine .bind (reconcileSwap_amounts ctx txHash) fun wfairOut => ?_
    exact .bind (enduring_only (.request rfl) .sufficient) fun _ =>
      .pure Enduring.sufficient.stable fun _ _ h => h

theorem swapStep_amounts (ctx : BuyContext) :
    (amountRules cfg ι).Triple i (Keyed cfg id ctx.paymentKey) (swapStep cfg ctx)
      (Found (fun n => Sufficient cfg id n) fun _ => True) fun _ _ => True := by
  rw [swapStep]
  split
  · exact .bind (reconcileSwap_amounts ctx _) fun _ =>
      .pure Enduring.sufficient.stable fun _ _ h => h
  · split
    · exact .bind (executeSwap_amounts ctx) fun _ =>
        .pure Enduring.sufficient.stable fun _ _ h => h
    · exact .pure Enduring.keyed.stable fun _ _ _ => trivial

/-- The one request that burns for an order: the amount is enough for it. -/
theorem executeBurn_amounts (ctx : BuyContext) (wfairAmount : Int) :
    (amountRules cfg ι).Triple i (Sufficient cfg ctx.order.id wfairAmount)
      (executeBurn ctx wfairAmount) (fun _ _ => True) fun _ _ => True := by
  refine .bind (M := fun _ _ => True) ?_ fun txHash => .bind (enduring_only (.request rfl) .true)
    fun _ => enduring_only (reconcileBurn_endures _ _) .true
  refine .call Enduring.sufficient.stable (.of_rest fun _ _ _ => trivial)
    (performs_sendWallet ?_ fun w hi _ => ⟨w, rfl, hi, .refl w, trivial⟩)
    (fun _ => Enduring.true.stable) Enduring.true.stable
  intro w out hi hsufficient _
  refine ⟨_, rfl, hi.send fun id hp => ?_, .of_same rfl, fun _ => trivial, fun _ => trivial⟩
  cases hp
  obtain ⟨o, ho, henough⟩ := hsufficient
  exact ⟨o, _, _, ho, rfl, delivers_of_enough henough⟩

theorem burnStep_amounts (ctx : BuyContext) (wfairOut : Int) :
    (amountRules cfg ι).Triple i (Sufficient cfg ctx.order.id wfairOut) (burnStep ctx wfairOut)
      (fun _ _ => True) fun _ _ => True := by
  have hdone : (amountRules cfg ι).Stable i fun _ => True := Enduring.true.stable
  rw [burnStep]
  split
  · refine .bind (enduring_only (reconcileBurn_endures _ _) .sufficient) fun _ => ?_
    exact .pure Enduring.sufficient.stable fun _ _ _ => trivial
  · split
    · exact .bind (executeBurn_amounts ctx wfairOut) fun _ => .pure hdone fun _ _ _ => trivial
    · exact .pure Enduring.sufficient.stable fun _ _ _ => trivial

theorem burnAfterSwap_amounts (ctx : BuyContext) (swapped : BuyOrderDoc) (wfairOut : Int)
    (hid : swapped.id = id) :
    (amountRules cfg ι).Triple i (Sufficient cfg id wfairOut)
      (burnAfterSwap cfg ctx swapped id wfairOut) (fun _ _ => True) fun _ _ => True := by
  have hdone : (amountRules cfg ι).Stable i fun _ => True := Enduring.true.stable
  refine .bind (findById_amounts .sufficient) fun found => ?_
  refine .fact (F := (found.getD swapped).id = id) ?_ fun horder => ?_
  · intro w _ h
    cases found with
    | none => exact hid
    | some o => exact (h.2 o rfl).1
  refine Triple.pre (P := Sufficient cfg id wfairOut) ?_ fun _ _ h => h.1
  refine .bind (claimUnlessFiled_amounts .sufficient horder) fun claimed => ?_
  cases claimed with
  | none =>
      exact Triple.pre (.pure Enduring.sufficient.stable fun _ _ _ => trivial) fun _ _ h => h.1
  | some order =>
      refine .fact (F := order.id = id) (fun w _ h => h.2 order rfl) fun hclaimed => ?_
      subst hclaimed
      refine Triple.pre (P := Sufficient cfg order.id wfairOut) ?_ fun _ _ h => h.1
      refine .bind (burnStep_amounts { ctx with order := order } wfairOut) fun burned => ?_
      split
      · exact enduring_only (.tryCatch (.request rfl) fun _ => alert_only (fun _ => rfl) _) .true
      · exact .pure hdone fun _ _ _ => trivial

theorem swapThenBurn_amounts (ctx : BuyContext) (hid : ctx.order.id = id) :
    (amountRules cfg ι).Triple i (Keyed cfg id ctx.paymentKey) (swapThenBurn cfg ctx id)
      (fun _ _ => True) fun _ _ => True := by
  refine .bind (claimUnlessFiled_amounts .keyed hid) fun claimed => ?_
  cases claimed with
  | none =>
      exact Triple.pre (.pure Enduring.keyed.stable fun _ _ _ => trivial) fun _ _ h => h.1
  | some order =>
      refine .fact (F := order.id = id) (fun w _ h => h.2 order rfl) fun hclaimed => ?_
      refine Triple.pre (P := Keyed cfg id ctx.paymentKey) ?_ fun _ _ h => h.1
      refine .bind (swapStep_amounts { ctx with order := order }) fun out => ?_
      cases out with
      | none => exact .pure Enduring.true.stable fun _ _ _ => trivial
      | some wfairOut => exact burnAfterSwap_amounts ctx order wfairOut hclaimed

theorem processBuy_amounts :
    (amountRules cfg ι).Triple i (fun _ => True) (processBuy cfg id) (fun _ _ => True)
      fun _ _ => True := by
  refine .bind loadContext_amounts fun found => ?_
  cases found with
  | none => exact .pure Enduring.true.stable fun _ _ _ => trivial
  | some ctx =>
      refine .fact (F := ctx.order.id = id) (fun w _ h => h.1) fun hid => ?_
      refine Triple.pre (P := Keyed cfg id ctx.paymentKey) ?_ fun _ _ h => h.2
      simp only
      split
      · exact .pure Enduring.keyed.stable fun _ _ _ => trivial
      · split
        · exact .throw Enduring.keyed.stable fun _ _ _ => trivial
        · exact swapThenBurn_amounts ctx hid

end Outline

/-- In every run in which every payment address that is read after a swap holds enough for
its orders, every burn for an order delivers what was ordered. -/
theorem burns_deliver_orders (cfg : Config) {ι : Type} [DecidableEq ι] {w : World}
    {es : List (Event JsError ι Task EnvEvent)} {q : Pool Op JsError World ι}
    (hw : w.OrdersDelivered cfg) (hq : (service cfg (orderRuns ι)).exec (.init w) es = some q)
    (henough : (service cfg (orderRuns ι)).meets (fun _ op w => op.findsEnough cfg w) (.init w)
      es = true) : q.world.OrdersDelivered cfg := by
  have hguarded := (service cfg (orderRuns ι)).exec_guarded hq henough
  rw [service_guarded] at hguarded
  have hstarts : (amountRules cfg ι).Starts := by
    intro i t s hi _ hready
    cases t with
    | processBuy buyOrderId => exact processBuy_amounts s hi trivial
    | _ => cases hready
  obtain ⟨s, hs, _⟩ := Good.exec (R := amountRules cfg ι) (fun _ _ _ => trivial) hstarts
    (.init rfl hw fun _ => trivial) hguarded
  exact hs.world ▸ hs.inv

namespace Sample

def orderConfig : Config := { config with deriveBuyPaymentKey := fun _ => .ok ⟨5⟩ }

/-- A quote for 1 FAIR at 1 USDC, which has been paid in full. -/
def orderWorld : World where
  buyOrders := Collection.empty.insert 0
    { fairAmountSats := 100000000, fairDestinationAddress := "fAddress",
      paymentAddress := some ⟨5⟩, paymentAmount := 1030200, paymentHdIndex := some 0,
      status := .paymentDetected }
  base := { tokens := {
    usdc := fun _ => 1030200
    eth := fun _ => 300000000000000
    allowance := fun _ => 1030200 } }

/-- The quoter where a millionth of a USDC buys so many wei of WFAIR. -/
def quoter (price : Int) (wfairWei : Int) : Except JsError Int := .ok (bigIntDiv wfairWei price)

/-- What the pool pays at that price. -/
def pool (price : Int) : TokenState :=
  { orderWorld.base.tokens with
    quote := fun usdcIn => some (usdcIn * price)
    wfair := fun _ => 1030200 * price }

/-- The order is swapped at that price. -/
def orderRun (price : Int) : List (Event JsError Unit Task EnvEvent) :=
  .env (.market (pool price)) :: .start () (.processBuy 0) :: List.replicate 8 (.step () .done) ++
    [.env (.foreignReceipt ⟨0⟩ ⟨true, 1⟩)] ++ List.replicate 7 (.step () .done)

end Sample

theorem steady_price_delivers : ∃ q,
    (service Sample.orderConfig (orderRuns Unit)).exec (.init Sample.orderWorld)
      (Sample.orderRun 1000000000000) = some q ∧
    (q.world.base.walletTxs.map WalletTx.purpose).contains (.orderBurn 0) = true ∧
    q.world.OrdersDelivered Sample.orderConfig := by
  have h : ((service Sample.orderConfig (orderRuns Unit)).exec (.init Sample.orderWorld)
      (Sample.orderRun 1000000000000)).map (fun q =>
        (q.world.base.walletTxs.map WalletTx.purpose).contains (.orderBurn 0)) = some true := by
    decide +kernel
  obtain ⟨q, hq, hburned⟩ := Option.map_eq_some_iff.mp h
  exact ⟨q, hq, hburned, burns_deliver_orders Sample.orderConfig (by rintro tx ⟨⟩) hq
    (by decide +kernel)⟩

/-- WFAIR gets twice as dear between the quote and the swap, and the order is delivered half of
what was ordered. -/
theorem price_move_delivers_short : ∃ q o tx amount bytes,
    (service Sample.orderConfig (orderRuns Unit)).exec (.init Sample.orderWorld)
      (Sample.orderRun 500000000000) = some q ∧
    q.world.buyOrders.get 0 = some o ∧
    BuyQuote.quoteUsdcPayment Sample.orderConfig (Sample.quoter 1000000000000)
      (BuyQuote.fairSatsToWfairWei o.fairAmountSats) = .ok o.paymentAmount ∧
    tx ∈ q.world.base.walletTxs ∧ tx.purpose = .orderBurn 0 ∧
    tx.call = .bridgeBurn amount bytes ∧
    ¬ Delivers Sample.orderConfig amount o.fairAmountSats := by
  have h : ((service Sample.orderConfig (orderRuns Unit)).exec (.init Sample.orderWorld)
      (Sample.orderRun 500000000000)).map (fun q =>
        ((q.world.buyOrders.get 0).map fun o => (o.fairAmountSats, o.paymentAmount),
          (q.world.base.walletTxs.find? fun tx => tx.purpose == .orderBurn 0).map WalletTx.call)) =
      some (some (100000000, 1030200),
        some (.bridgeBurn 515100000000000000 (fairAddressToBytes "fAddress"))) := by
    decide +kernel
  obtain ⟨q, hq, hres⟩ := Option.map_eq_some_iff.mp h
  obtain ⟨horder, hburn⟩ := Prod.mk.inj hres
  obtain ⟨o, ho, hterms⟩ := Option.map_eq_some_iff.mp horder
  obtain ⟨hsats, hpayment⟩ := Prod.mk.inj hterms
  obtain ⟨tx, htx, hcall⟩ := Option.map_eq_some_iff.mp hburn
  refine ⟨q, o, tx, _, _, hq, ho, ?_, List.mem_of_find?_eq_some htx,
    by simpa using List.find?_some htx, hcall, ?_⟩
  · rw [hsats, hpayment]
    decide +kernel
  · rw [hsats, delivers_iff_le rfl]
    decide

end FairBridge

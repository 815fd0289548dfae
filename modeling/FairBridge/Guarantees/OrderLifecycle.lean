import FairBridge.Async.Learning
import FairBridge.Guarantees.BuyOrders
import FairBridge.Guarantees.Footprints
import FairBridge.Model.Frame

/-!
The life of an order, whatever works on it at once: which transactions its status stands
for, and where it can go from where it is.
-/

namespace FairBridge
open Store Async

/-- Its payment has been seen. -/
def BuyOrderDoc.paid (o : BuyOrderDoc) : Bool :=
  o.status != .awaitingPayment && o.status != .expired

namespace World

/-- The broadcast was sent for the order. -/
def sent (w : World) (id : ObjectId) (b : Broadcast) (h : Hash) : Prop :=
  ∃ tx ∈ w.sentFor (b.purpose id), tx.hash = h

/-- One of its broadcasts has been mined, and succeeded. -/
def landedFor (w : World) (id : ObjectId) (b : Broadcast) : Prop :=
  ∃ h, w.sent id b h ∧ w.succeeded h

/-- The order is there, and paid for. -/
def paidOrder (w : World) (id : ObjectId) : Prop :=
  ∃ o, w.buyOrders.get id = some o ∧ o.paid = true

end World

/-- What an order in the status has behind it. -/
def BuyOrderStatus.standsFor (w : World) (id : ObjectId) : BuyOrderStatus → Prop
  | .awaitingPayment | .expired => ∀ b : Broadcast, w.sentFor (b.purpose id) = []
  | .paymentDetected | .swapping => True
  | .burning => w.landedFor id .swap
  | .delivering => w.landedFor id .burn
  | .delivered => ∃ h, w.sent id .burn h
  | .failed => ∃ b h, w.sent id b h ∧ w.reverted h

structure OrderStanding (w : World) (id : ObjectId) (o : BuyOrderDoc) : Prop where
  status : o.status.standsFor w id
  unpaid : o.paid = false → ∀ b : Broadcast, b.hash o = none
  filed : ∀ (b : Broadcast) h, b.hash o = some h → w.sent id b h

structure OrderBooks (w : World) : Prop where
  standing : ∀ id o, w.buyOrders.get id = some o → OrderStanding w id o
  unknown : ∀ id (b : Broadcast), w.buyOrders.get id = none → w.sentFor (b.purpose id) = []
  burned : ∀ id h, w.sent id .burn h → w.landedFor id .swap

/-- How an order goes on: not at all once it has expired, and only by a payment or by
expiring as long as it waits for one. -/
structure BuyOrderDoc.Advances (o o' : BuyOrderDoc) : Prop where
  expired : o.status = .expired → o' = o
  awaiting : o'.status = .awaitingPayment → o' = o
  paid : o.paid = true → o'.paid = true
  filed : ∀ b : Broadcast, b.hash o ≠ none → b.hash o' ≠ none

structure OrdersAdvance (w w' : World) : Prop where
  rows : ∀ id o, w.buyOrders.get id = some o →
    ∃ o', w'.buyOrders.get id = some o' ∧ o.Advances o'
  sent : ∀ id (b : Broadcast), w.sentFor (b.purpose id) <+: w'.sentFor (b.purpose id)
  receipts : ∀ h r, w.base.receipts h = some r → w'.base.receipts h = some r

section Advance
variable {u v w : World} {id : ObjectId} {b : Broadcast} {h : Hash} {o o' : BuyOrderDoc}

theorem BuyOrderDoc.Advances.refl (o : BuyOrderDoc) : o.Advances o :=
  ⟨fun _ => rfl, fun _ => rfl, fun h => h, fun _ h => h⟩

theorem BuyOrderDoc.Advances.trans {a b c : BuyOrderDoc} (hab : a.Advances b)
    (hbc : b.Advances c) : a.Advances c where
  expired ha := by
    obtain rfl := hab.expired ha
    exact hbc.expired ha
  awaiting hc := by
    obtain rfl := hbc.awaiting hc
    exact hab.awaiting hc
  paid ha := hbc.paid (hab.paid ha)
  filed x hx := hbc.filed x (hab.filed x hx)

namespace OrdersAdvance

theorem refl (w : World) : OrdersAdvance w w :=
  ⟨fun _ o ho => ⟨o, ho, .refl o⟩, fun _ _ => List.prefix_rfl, fun _ _ hr => hr⟩

theorem trans (huv : OrdersAdvance u v) (hvw : OrdersAdvance v w) : OrdersAdvance u w where
  rows id o ho := by
    obtain ⟨o', ho', hadv⟩ := huv.rows id o ho
    obtain ⟨o'', ho'', hadv'⟩ := hvw.rows id o' ho'
    exact ⟨o'', ho'', hadv.trans hadv'⟩
  sent id b := (huv.sent id b).trans (hvw.sent id b)
  receipts h r hr := hvw.receipts h r (huv.receipts h r hr)

theorem sent_kept (hk : OrdersAdvance v w) (hs : v.sent id b h) : w.sent id b h := by
  obtain ⟨tx, htx, hh⟩ := hs
  exact ⟨tx, (hk.sent id b).subset htx, hh⟩

theorem landedFor_kept (hk : OrdersAdvance v w) (hl : v.landedFor id b) : w.landedFor id b := by
  obtain ⟨h, hs, r, hr, hgood⟩ := hl
  exact ⟨h, hk.sent_kept hs, r, hk.receipts h r hr, hgood⟩

theorem reverted_kept (hk : OrdersAdvance v w) (hr : v.reverted h) : w.reverted h := by
  obtain ⟨r, hr, hbad⟩ := hr
  exact ⟨r, hk.receipts h r hr, hbad⟩

theorem paid_kept (hk : OrdersAdvance v w) (hp : v.paidOrder id) : w.paidOrder id := by
  obtain ⟨o, ho, hpaid⟩ := hp
  obtain ⟨o', ho', hadv⟩ := hk.rows id o ho
  exact ⟨o', ho', hadv.paid hpaid⟩

end OrdersAdvance

/-- A row stands as long as nothing is sent for an order that is not paid. -/
theorem OrderStanding.mono (hs : OrderStanding v id o) (hk : OrdersAdvance v w)
    (hquiet : o.paid = false → ∀ b : Broadcast, w.sentFor (b.purpose id) =
      v.sentFor (b.purpose id)) : OrderStanding w id o where
  status := by
    have hst := hs.status
    cases h : o.status with
    | awaitingPayment | expired =>
        rw [h] at hst
        exact fun b => (hquiet (by simp [BuyOrderDoc.paid, h]) b).trans (hst b)
    | paymentDetected | swapping => trivial
    | burning | delivering =>
        rw [h] at hst
        exact hk.landedFor_kept hst
    | delivered =>
        rw [h] at hst
        obtain ⟨x, hx⟩ := hst
        exact ⟨x, hk.sent_kept hx⟩
    | failed =>
        rw [h] at hst
        obtain ⟨b, x, hx, hr⟩ := hst
        exact ⟨b, x, hk.sent_kept hx, hk.reverted_kept hr⟩
  unpaid := hs.unpaid
  filed b h hh := hk.sent_kept (hs.filed b h hh)

/-- An order that waits for its payment gets it, or expires. -/
theorem OrderStanding.leaves (hs : OrderStanding w id o) (hst : o.status = .awaitingPayment)
    (hhash : ∀ b : Broadcast, b.hash o' = b.hash o)
    (hst' : o'.status = .paymentDetected ∨ o'.status = .expired) :
    o.Advances o' ∧ OrderStanding w id o' := by
  have hunpaid : o.paid = false := by simp [BuyOrderDoc.paid, hst]
  refine ⟨⟨fun hx => ?_, fun hx => ?_, fun hx => ?_, fun b hb => hhash b ▸ hb⟩, ?_,
    fun _ b => (hhash b).trans (hs.unpaid hunpaid b), fun b h hh => ?_⟩
  · cases hst.symm.trans hx
  · cases hst' with
    | inl h => cases h.symm.trans hx
    | inr h => cases h.symm.trans hx
  · cases hunpaid.symm.trans hx
  · cases hst' with
    | inl h => exact h ▸ trivial
    | inr h =>
        have hquiet := hs.status
        rw [hst] at hquiet
        exact h ▸ hquiet
  · exact hs.filed b h ((hhash b).symm.trans hh)

/-- A paid order moves on to what it has behind it. -/
theorem OrderStanding.movesOn (hs : OrderStanding w id o) (hpaid : o.paid = true)
    (hpaid' : o'.paid = true)
    (hhash : ∀ b : Broadcast, b.hash o' = b.hash o ∨ ∃ h, b.hash o' = some h ∧ w.sent id b h)
    (hst' : o'.status = o.status ∨ o'.status.standsFor w id) :
    o.Advances o' ∧ OrderStanding w id o' := by
  refine ⟨⟨fun hx => ?_, fun hx => ?_, fun _ => hpaid', fun b hb => ?_⟩, ?_, fun hx => ?_,
    fun b h hh => ?_⟩
  · simp [BuyOrderDoc.paid, hx] at hpaid
  · simp [BuyOrderDoc.paid, hx] at hpaid'
  · cases hhash b with
    | inl h => exact h ▸ hb
    | inr h =>
        obtain ⟨x, hx, _⟩ := h
        rw [hx]
        exact Option.some_ne_none x
  · cases hst' with
    | inl h => exact h ▸ hs.status
    | inr h => exact h
  · cases hpaid'.symm.trans hx
  · cases hhash b with
    | inl hsame => exact hs.filed b h (hsame.symm.trans hh)
    | inr hnew =>
        obtain ⟨x, hx, hsent⟩ := hnew
        obtain rfl := Option.some.inj (hx.symm.trans hh)
        exact hsent

namespace OrderBooks

/-- Every row goes on to one that stands, and nothing is sent. -/
theorem update (hi : OrderBooks v)
    (hsent : ∀ id (b : Broadcast), w.sentFor (b.purpose id) = v.sentFor (b.purpose id))
    (hreceipts : ∀ h r, v.base.receipts h = some r → w.base.receipts h = some r)
    (hold : ∀ id o, v.buyOrders.get id = some o → ∃ o', w.buyOrders.get id = some o' ∧
      (o' = o ∨ o.Advances o' ∧ OrderStanding v id o'))
    (hnew : ∀ id o', v.buyOrders.get id = none → w.buyOrders.get id = some o' →
      o'.status = .awaitingPayment ∧ ∀ b : Broadcast, b.hash o' = none) :
    OrderBooks w ∧ OrdersAdvance v w := by
  have hk : OrdersAdvance v w := by
    refine ⟨fun id o ho => ?_, fun id b => (hsent id b).symm ▸ List.prefix_rfl, hreceipts⟩
    obtain ⟨o', ho', rfl | ⟨hadv, _⟩⟩ := hold id o ho
    · exact ⟨o', ho', .refl o'⟩
    · exact ⟨o', ho', hadv⟩
  refine ⟨⟨fun id o' ho' => ?_, fun id b hnone => ?_, fun id h hs => ?_⟩, hk⟩
  · cases ho : v.buyOrders.get id with
    | none =>
        obtain ⟨hst, hnone⟩ := hnew id o' ho ho'
        refine ⟨?_, fun _ => hnone, fun b h hh => ?_⟩
        · rw [hst]
          exact fun b => (hsent id b).trans (hi.unknown id b ho)
        · cases (hnone b).symm.trans hh
    | some o =>
        obtain ⟨o'', ho'', hcases⟩ := hold id o ho
        obtain rfl := Option.some.inj (ho'.symm.trans ho'')
        cases hcases with
        | inl hsame =>
            subst hsame
            exact (hi.standing id o' ho).mono hk fun _ b => hsent id b
        | inr hstands => exact hstands.2.mono hk fun _ b => hsent id b
  · cases ho : v.buyOrders.get id with
    | none => exact (hsent id b).trans (hi.unknown id b ho)
    | some o =>
        obtain ⟨o', ho', _⟩ := hold id o ho
        cases ho'.symm.trans hnone
  · obtain ⟨tx, htx, hh⟩ := hs
    rw [hsent] at htx
    exact hk.landedFor_kept (hi.burned id h ⟨tx, htx, hh⟩)

theorem same (hi : OrderBooks v) (horders : w.buyOrders = v.buyOrders)
    (hsent : ∀ id (b : Broadcast), w.sentFor (b.purpose id) = v.sentFor (b.purpose id))
    (hreceipts : ∀ h r, v.base.receipts h = some r → w.base.receipts h = some r) :
    OrderBooks w ∧ OrdersAdvance v w := by
  refine hi.update hsent hreceipts (fun id o ho => ⟨o, horders ▸ ho, Or.inl rfl⟩) ?_
  intro id o hnone ho
  rw [horders, hnone] at ho
  cases ho

/-- A transaction goes out for a paid order, a burn only after a swap has landed. -/
theorem send {sender : Address} {c : WalletCall} (hi : OrderBooks w) (hpaid : w.paidOrder id)
    (hswap : b = .burn → w.landedFor id .swap) :
    OrderBooks (w.sendWallet sender c (b.purpose id)) ∧
      OrdersAdvance w (w.sendWallet sender c (b.purpose id)) := by
  have hother : ∀ j (x : Broadcast), x.purpose j ≠ b.purpose id →
      (w.sendWallet sender c (b.purpose id)).sentFor (x.purpose j) = w.sentFor (x.purpose j) :=
    fun j x hx => World.sentFor_sendWallet_other w sender c fun h => hx h.symm
  have hk : OrdersAdvance w (w.sendWallet sender c (b.purpose id)) := by
    refine ⟨fun _ o ho => ⟨o, ho, .refl o⟩, fun j x => ?_, fun _ _ hr => hr⟩
    rw [World.sentFor, World.sentFor]
    exact List.IsPrefix.filter _ (List.prefix_append _ _)
  have hsame : ∀ j (x : Broadcast), x.purpose j = b.purpose id → j = id ∧ x = b := by
    intro j x hx
    cases x <;> cases b <;> cases hx <;> exact ⟨rfl, rfl⟩
  refine ⟨⟨fun j o ho => ?_, fun j x hnone => ?_, fun j h hs => ?_⟩, hk⟩
  · refine (hi.standing j o ho).mono hk fun hunpaid x => hother j x fun hx => ?_
    obtain ⟨rfl, rfl⟩ := hsame j x hx
    obtain ⟨o', ho', hpaid⟩ := hpaid
    obtain rfl := Option.some.inj (ho.symm.trans ho')
    rw [hunpaid] at hpaid
    cases hpaid
  · refine (hother j x fun hx => ?_).trans (hi.unknown j x hnone)
    obtain ⟨rfl, rfl⟩ := hsame j x hx
    obtain ⟨o', ho', _⟩ := hpaid
    cases hnone.symm.trans ho'
  · by_cases hx : Broadcast.burn.purpose j = b.purpose id
    · obtain ⟨rfl, rfl⟩ := hsame j .burn hx
      exact hk.landedFor_kept (hswap rfl)
    · obtain ⟨tx, htx, hh⟩ := hs
      rw [hother j .burn hx] at htx
      exact hk.landedFor_kept (hi.burned j h ⟨tx, htx, hh⟩)

end OrderBooks

/-- A new order is a quote. -/
theorem EnvEvent.occur_quoted {e : EnvEvent} (h : e.occur v = some w)
    (hnone : v.buyOrders.get id = none) (ho : w.buyOrders.get id = some o) :
    o.status = .awaitingPayment ∧ ∀ b : Broadcast, b.hash o = none := by
  cases e with
  | quote n =>
      simp only [EnvEvent.occur] at h
      split at h <;> cases h
      rename_i hquote
      have hget := Collection.get_insert v.buyOrders v.now n id
      split at hget
      · cases hget.symm.trans ho
        refine ⟨hquote.1, fun b => ?_⟩
        cases b with
        | swap => exact hquote.2.1
        | burn => exact hquote.2.2.1
      · cases (hget.trans hnone).symm.trans ho
  | order moved status =>
      simp only [EnvEvent.occur] at h
      split at h <;> cases h
      rw [Collection.get_modify] at ho
      split at ho
      · rename_i hid
        rw [← hid, hnone] at ho
        cases ho
      · cases hnone.symm.trans ho
  | mine _ _ | foreignReceipt _ _ | baseBlock _ | fairBlock _ | confirm _ | intent _ _ _ _ =>
      simp only [EnvEvent.occur] at h
      split at h <;> cases h
      cases hnone.symm.trans ho
  | _ =>
      cases h
      cases hnone.symm.trans ho

theorem OrderBooks.env {e : EnvEvent} (hi : OrderBooks v) (h : e.occur v = some w) :
    OrderBooks w ∧ OrdersAdvance v w := by
  have hs := EnvEvent.occur_surroundings h
  refine hi.update (fun _ _ => by rw [World.sentFor, hs.walletTxs]; rfl) hs.receipts ?_
    fun id o' hnone ho' => EnvEvent.occur_quoted h hnone ho'
  intro id o ho
  obtain hsame | ⟨o₀, st, _, ho₀, hmoves, ho'⟩ | ⟨hnone, _⟩ := EnvEvent.occur_order h id
  · exact ⟨o, hsame.trans ho, Or.inl rfl⟩
  · obtain rfl := Option.some.inj (ho.symm.trans ho₀)
    have hstanding := hi.standing id o ho
    refine ⟨_, ho', Or.inr ?_⟩
    have hhash := fun b => Broadcast.hash_status b o st
    cases st with
    | paymentDetected =>
        exact hstanding.leaves (by simpa [BuyOrderDoc.movesTo] using hmoves) hhash (Or.inl rfl)
    | expired =>
        exact hstanding.leaves (by simpa [BuyOrderDoc.movesTo] using hmoves) hhash (Or.inr rfl)
    | delivered =>
        simp only [BuyOrderDoc.movesTo, Bool.and_eq_true, Bool.or_eq_true, beq_iff_eq,
          Option.isSome_iff_exists] at hmoves
        obtain ⟨⟨x, hx⟩, hst⟩ := hmoves
        refine hstanding.movesOn ?_ rfl (fun b => Or.inl (hhash b)) (Or.inr ?_)
        · cases hst with
          | inl h => simp [BuyOrderDoc.paid, h]
          | inr h => simp [BuyOrderDoc.paid, h]
        · exact ⟨x, hstanding.filed .burn x hx⟩
    | _ => cases hmoves
  · cases hnone.symm.trans ho

end Advance

def orderProgress : Progress World where
  inv := OrderBooks
  kept := OrdersAdvance
  refl := .refl
  trans := .trans

/-- Where the orders are kept, and what is sent for them. -/
abbrev orderAreas : List Area := [.buyOrders, .orderTxs]

section Requests
variable {ι β : Type} {cfg : Config} {f : Faults ι} {i : ι} {F : World → Prop} {v w : World}
  {op : Op β} {out : Outcome} {r : Except JsError β} {id : ObjectId} {o : BuyOrderDoc}

theorem sentFor_reach {reached : Area} (h : Reach reached v w) (hne : reached ≠ .orderTxs)
    (id : ObjectId) (b : Broadcast) : w.sentFor (b.purpose id) = v.sentFor (b.purpose id) := by
  have harea : ∀ tx : WalletTx, (tx.purpose == b.purpose id) = true →
      (tx.purpose.area == .orderTxs) = true := by
    intro tx htx
    rw [beq_iff_eq] at htx
    rw [htx]
    cases b <;> rfl
  have hsub : ∀ l : List WalletTx, l.filter (fun tx => tx.purpose == b.purpose id) =
      (l.filter fun tx => tx.purpose.area == .orderTxs).filter
        fun tx => tx.purpose == b.purpose id := by
    intro l
    rw [List.filter_filter]
    refine List.filter_congr fun tx _ => ?_
    cases htx : tx.purpose == b.purpose id with
    | true => simp [harea tx htx]
    | false => simp
  rw [World.sentFor, World.sentFor, hsub, hsub v.base.walletTxs, h .orderTxs hne]

theorem allowed_beside (h : op.beside orderAreas) :
    orderProgress.Allowed (service cfg f) i F op := by
  intro v out r w hi _ _ hans
  have hreach := answer_reach hans
  refine OrderBooks.same hi (hreach .buyOrders (Op.beside_area h rfl))
    (sentFor_reach hreach (Op.beside_area h rfl)) ?_
  rw [answer_receipts hans]
  exact fun _ _ hr => hr

/-- The rows that an update reaches move on as they may. -/
def MovesOn (F : World → Prop) (filter : BuyOrderDoc → Bool) (u : BuyOrderSet) : Prop :=
  ∀ v o, OrderBooks v → F v → v.buyOrders.get o.id = some o → filter o = true →
    o.Advances (u.apply o) ∧ OrderStanding v o.id (u.apply o)

theorem allowed_update {filter : BuyOrderDoc → Bool} {u : BuyOrderSet} (h : MovesOn F filter u)
    (hi : OrderBooks v) (hF : F v) (sort : Option (BuyOrderDoc → Nat)) :
    OrderBooks { v with buyOrders := (v.buyOrders.update refusals.duplicate filter sort u).2 } ∧
      OrdersAdvance v
        { v with buyOrders := (v.buyOrders.update refusals.duplicate filter sort u).2 } := by
  refine hi.update (fun _ _ => rfl) (fun _ _ hr => hr) (fun id o ho => ?_) fun id o hnone ho => ?_
  · obtain rfl := Collection.get_id ho
    exact v.buyOrders.update_rows refusals.duplicate sort
      (R := fun o o' => o.Advances o' ∧ OrderStanding v o.id o')
      (fun d hd hfilter => h v d hi hF hd hfilter) ho
  · cases (v.buyOrders.update_none _ filter sort u hnone).symm.trans ho

theorem allowed_setAll {filter : BuyOrderDoc → Bool} {u : BuyOrderSet} (h : MovesOn F filter u)
    (hi : OrderBooks v) (hF : F v) :
    OrderBooks (v.setBuyOrders filter u) ∧ OrdersAdvance v (v.setBuyOrders filter u) := by
  refine hi.update (fun _ _ => rfl) (fun _ _ hr => hr) (fun id o ho => ?_) fun id o hnone ho => ?_
  · rw [World.get_setBuyOrders ho filter u]
    split
    · rename_i hfilter
      obtain rfl := Collection.get_id ho
      exact ⟨_, rfl, Or.inr (h v o hi hF ho hfilter)⟩
    · exact ⟨o, rfl, Or.inl rfl⟩
  · rw [World.setBuyOrders, Collection.get_modifyAll, hnone] at ho
    cases ho

theorem allowed_findOneAndUpdate {filter : BuyOrderDoc → Bool} {u : BuyOrderSet}
    {sort : Option (BuyOrderDoc → Nat)} (h : MovesOn F filter u) :
    orderProgress.Allowed (service cfg f) i F (.buyOrder (.findOneAndUpdate filter sort u)) := by
  intro v out r w hi hF _ hans
  obtain ⟨_, _, _, rfl⟩ | ⟨x, hx, _⟩ := answer_cases hans
  · exact ⟨hi, .refl _⟩
  · cases hx
    exact allowed_update h hi hF sort

theorem allowed_updateOne {filter : BuyOrderDoc → Bool} {u : BuyOrderSet}
    (h : MovesOn F filter u) :
    orderProgress.Allowed (service cfg f) i F (.buyOrder (.updateOne filter u)) := by
  intro v out r w hi hF _ hans
  obtain ⟨_, _, _, rfl⟩ | ⟨x, hx, _⟩ := answer_cases hans
  · exact ⟨hi, .refl _⟩
  · cases hx
    exact allowed_update h hi hF none

theorem allowed_updateMany {filter : BuyOrderDoc → Bool} {u : BuyOrderSet}
    (h : MovesOn F filter u) :
    orderProgress.Allowed (service cfg f) i F (.buyOrderUpdateMany filter u) := by
  intro v out r w hi hF _ hans
  obtain ⟨_, _, _, rfl⟩ | ⟨x, hx, _⟩ := answer_cases hans
  · exact ⟨hi, .refl _⟩
  · cases hx
    exact allowed_setAll h hi hF

/-- A transaction for an order that is known to be paid, and a burn once a swap has landed. -/
theorem allowed_send {sender : Address} {c : WalletCall} {b : Broadcast}
    (hpaid : ∀ w, OrderBooks w → F w → w.paidOrder id)
    (hswap : b = .burn → ∀ w, OrderBooks w → F w → w.landedFor id .swap) :
    orderProgress.Allowed (service cfg f) i F (.sendWallet sender c (b.purpose id)) := by
  intro v out r w hi hF _ hans
  obtain ⟨_, _, _, rfl⟩ | ⟨x, hx, _⟩ := answer_cases hans
  · exact ⟨hi, .refl _⟩
  · obtain ⟨_, _, rfl⟩ | ⟨_, rfl, _⟩ := effect_sendWallet hx
    · exact ⟨hi, .refl _⟩
    · exact OrderBooks.send hi (hpaid v hi hF) fun hb => hswap hb v hi hF

/-- The order was so once. -/
def Seen (id : ObjectId) (o : BuyOrderDoc) (w : World) : Prop :=
  ∃ v, OrderBooks v ∧ v.buyOrders.get id = some o ∧ OrdersAdvance v w

theorem Seen.id_eq (h : Seen id o w) : o.id = id := by
  obtain ⟨v, _, ho, _⟩ := h
  exact Collection.get_id ho

theorem Seen.paid (h : Seen id o w) (hpaid : o.paid = true) : w.paidOrder id := by
  obtain ⟨v, _, ho, hk⟩ := h
  exact hk.paid_kept ⟨o, ho, hpaid⟩

/-- Only a paid order has a hash on it, and that was sent. -/
theorem Seen.filed (h : Seen id o w) {b : Broadcast} {x : Hash} (hx : b.hash o = some x) :
    w.paidOrder id ∧ w.sent id b x := by
  obtain ⟨v, hi, ho, hk⟩ := h
  refine ⟨hk.paid_kept ⟨o, ho, ?_⟩, hk.sent_kept ((hi.standing id o ho).filed b x hx)⟩
  by_contra hunpaid
  cases ((hi.standing id o ho).unpaid (by simpa using hunpaid) b).symm.trans hx

theorem Seen.burning (h : Seen id o w) (hst : o.status = .burning) : w.landedFor id .swap := by
  obtain ⟨v, hi, ho, hk⟩ := h
  have hstatus := (hi.standing id o ho).status
  rw [hst] at hstatus
  exact hk.landedFor_kept hstatus

abbrev LearnsOrders (cfg : Config) (f : Faults ι) (i : ι) {α : Type} (M : α → World → Prop)
    (F : World → Prop) (p : Promise α) : Prop :=
  orderProgress.Learns (service cfg f) i M F p

theorem findById_learns : LearnsOrders cfg f i (fun r w => ∀ o, r = some o → Seen id o w) F
    (BuyOrder.findById id) := by
  refine .request (allowed_beside trivial) ?_
  rintro found w _ _ ⟨v, out, u, hi, _, _, hans, hu, hk⟩ o rfl
  obtain ⟨_, _, he, _⟩ | ⟨x, hx, hout⟩ := answer_cases hans
  · cases he
  · cases hx
    obtain ⟨_, hr⟩ | ⟨_, _, hr⟩ := hout
    · exact ⟨v, hi, (Except.ok.inj hr).symm, hk⟩
    · cases hr

/-- What a claim returns is the row as it is claimed. -/
theorem claim_learns {cond : BuyOrderDoc → Bool} {u : BuyOrderSet}
    (h : MovesOn F (fun o => o.id == id && cond o) u) :
    LearnsOrders cfg f i (fun r w => ∀ o, r = some o → Seen id o w) F
      (call (.buyOrder (.findOneAndUpdate (fun o => o.id == id && cond o) none u))) := by
  refine .request (allowed_findOneAndUpdate h) ?_
  rintro found w _ _ ⟨v, out, t, hi, _, _, hans, ht, hk⟩ o rfl
  obtain ⟨_, _, he, _⟩ | ⟨x, hx, hout⟩ := answer_cases hans
  · cases he
  · have heff := (BuyOrder.effect_claim (f.row i) id cond u v).symm.trans hx
    obtain ⟨_, rfl⟩ | ⟨_, _, hr⟩ := hout
    · split at heff
      · cases heff
      · rename_i d hd
        cases heff
        refine ⟨_, ht, ?_, hk⟩
        exact World.get_setBuyOrder (Option.filter_eq_some_iff.mp hd).1 u
    · cases hr

theorem send_learns {sender : Address} {c : WalletCall} {b : Broadcast}
    (hpaid : ∀ w, OrderBooks w → F w → w.paidOrder id)
    (hswap : b = .burn → ∀ w, OrderBooks w → F w → w.landedFor id .swap) :
    LearnsOrders cfg f i (fun h w => w.sent id b h) F
      (call (.sendWallet sender c (b.purpose id))) := by
  refine .request (allowed_send hpaid hswap) ?_
  rintro h w _ _ ⟨v, out, t, hi, _, _, hans, ht, hk⟩
  obtain ⟨_, _, he, _⟩ | ⟨x, hx, hout⟩ := answer_cases hans
  · cases he
  · obtain ⟨_, rfl⟩ | ⟨_, _, hr⟩ := hout
    · obtain ⟨_, hbad, _⟩ | ⟨hr, rfl, _⟩ := effect_sendWallet hx
      · cases hbad
      · cases hr
        refine hk.sent_kept ⟨⟨_, sender, c, b.purpose id⟩, List.mem_filter.mpr ⟨?_, ?_⟩, rfl⟩
        · exact List.mem_append_right _ (List.mem_singleton_self _)
        · exact beq_self_eq_true _
    · cases hr

theorem receipt_learns {h : Hash} : LearnsOrders cfg f i
    (fun r w => w.base.receipts h = some r) F (call (.waitForTransactionReceipt h)) := by
  refine .request (allowed_beside trivial) ?_
  rintro r w _ _ ⟨v, out, t, hi, _, _, hans, ht, hk⟩
  obtain ⟨_, _, he, _⟩ | ⟨x, hx, hout⟩ := answer_cases hans
  · cases he
  · obtain ⟨_, rfl⟩ | ⟨_, _, hr⟩ := hout
    · obtain ⟨r', hr, hx⟩ := Option.map_eq_some_iff.mp hx
      cases hx
      exact hk.receipts h _ hr
    · cases hr

/-- An update of paid orders that puts on them what they have behind them. -/
theorem movesOn_paid {filter : BuyOrderDoc → Bool} {u : BuyOrderSet}
    (hpaid : ∀ v o, F v → v.buyOrders.get o.id = some o → filter o = true → o.paid = true)
    (hstatus : ∀ st, u.status = some st → st ≠ .awaitingPayment ∧ st ≠ .expired ∧
      ∀ v o, OrderBooks v → F v → v.buyOrders.get o.id = some o → filter o = true →
        st.standsFor v o.id)
    (hswap : ∀ h, u.swapTxHash = some h → ∀ v o, F v → filter o = true → v.sent o.id .swap h)
    (hburn : ∀ h, u.burnTxHash = some h → ∀ v o, F v → filter o = true → v.sent o.id .burn h) :
    MovesOn F filter u := by
  intro v o hi hF ho hfilter
  have hrow := hpaid v o hF ho hfilter
  have hst : (u.apply o).status = u.status.getD o.status := rfl
  refine (hi.standing _ o ho).movesOn hrow ?_ (fun b => ?_) ?_
  · cases hu : u.status with
    | none => simpa [BuyOrderDoc.paid, hst, hu] using hrow
    | some st =>
        obtain ⟨hawaiting, hexpired, _⟩ := hstatus st hu
        simp [BuyOrderDoc.paid, hst, hu, hawaiting, hexpired]
  · cases b with
    | swap =>
        cases hu : u.swapTxHash with
        | none => exact Or.inl (by simp [Broadcast.hash, BuyOrderSet.apply, hu])
        | some h =>
            exact Or.inr ⟨h, by simp [Broadcast.hash, BuyOrderSet.apply, hu],
              hswap h hu v o hF hfilter⟩
    | burn =>
        cases hu : u.burnTxHash with
        | none => exact Or.inl (by simp [Broadcast.hash, BuyOrderSet.apply, hu])
        | some h =>
            exact Or.inr ⟨h, by simp [Broadcast.hash, BuyOrderSet.apply, hu],
              hburn h hu v o hF hfilter⟩
  · cases hu : u.status with
    | none => exact Or.inl (by rw [hst, hu]; rfl)
    | some st =>
        rw [hst, hu]
        exact Or.inr ((hstatus st hu).2.2 v o hi hF ho hfilter)

/-- Orders that wait for their payment get it, or expire. -/
theorem movesOn_awaiting {filter : BuyOrderDoc → Bool} {u : BuyOrderSet}
    (hawaiting : ∀ o, filter o = true → o.status = .awaitingPayment)
    (hst : u.status = some .paymentDetected ∨ u.status = some .expired)
    (hhash : u.swapTxHash = none ∧ u.burnTxHash = none) : MovesOn F filter u := by
  intro v o hi _ ho hfilter
  refine (hi.standing _ o ho).leaves (hawaiting o hfilter) (fun b => ?_) ?_
  · cases b with
    | swap => simp [Broadcast.hash, BuyOrderSet.apply, hhash.1]
    | burn => simp [Broadcast.hash, BuyOrderSet.apply, hhash.2]
  · cases hst with
    | inl h => exact Or.inl (by simp [BuyOrderSet.apply, h])
    | inr h => exact Or.inr (by simp [BuyOrderSet.apply, h])

theorem claimSwapping_moves : MovesOn F (fun o => o.id == id && swapClaimable o)
    { status := some .swapping } := by
  refine movesOn_paid (fun v o _ _ hfilter => ?_) (fun st hst => ?_) (fun h hh => ?_)
    fun h hh => ?_
  · simp only [swapClaimable, Bool.and_eq_true, Bool.or_eq_true, beq_iff_eq] at hfilter
    obtain ⟨_, hst | hst, _⟩ := hfilter <;> simp [BuyOrderDoc.paid, hst]
  · cases hst
    exact ⟨by simp, by simp, fun _ _ _ _ _ _ => trivial⟩
  · cases hh
  · cases hh

theorem claimBurning_moves (hswap : ∀ w, F w → w.landedFor id .swap) :
    MovesOn F (fun o => o.id == id && burnClaimable o) { status := some .burning } := by
  refine movesOn_paid (fun v o _ _ hfilter => ?_) (fun st hst => ?_) (fun h hh => ?_)
    fun h hh => ?_
  · simp only [burnClaimable, Bool.and_eq_true, Bool.or_eq_true, beq_iff_eq] at hfilter
    obtain ⟨_, ⟨hst | hst, _⟩, _⟩ := hfilter <;> simp [BuyOrderDoc.paid, hst]
  · cases hst
    refine ⟨by simp, by simp, fun v o _ hF _ hfilter => ?_⟩
    obtain ⟨hid, _⟩ := (Bool.and_eq_true _ _).mp hfilter
    rw [beq_iff_eq.mp hid]
    exact hswap v hF
  · cases hh
  · cases hh

/-- An update of a row that is known to be paid. -/
theorem updateById_moves {u : BuyOrderSet} (hpaid : ∀ w, F w → w.paidOrder id)
    (hstatus : ∀ st, u.status = some st → st ≠ .awaitingPayment ∧ st ≠ .expired ∧
      ∀ w, F w → st.standsFor w id)
    (hswap : ∀ h, u.swapTxHash = some h → ∀ w, F w → w.sent id .swap h)
    (hburn : ∀ h, u.burnTxHash = some h → ∀ w, F w → w.sent id .burn h) :
    MovesOn F (fun o => o.id == id && true) u := by
  have hid : ∀ o : BuyOrderDoc, (o.id == id && true) = true → o.id = id := by
    intro o hfilter
    simpa using hfilter
  refine movesOn_paid (fun v o hF ho hfilter => ?_) (fun st hst => ?_)
    (fun h hh v o hF hfilter => ?_) fun h hh v o hF hfilter => ?_
  · obtain ⟨o', ho', hrow⟩ := hpaid v hF
    rw [hid o hfilter, ho'] at ho
    cases ho
    exact hrow
  · obtain ⟨hawaiting, hexpired, hstands⟩ := hstatus st hst
    refine ⟨hawaiting, hexpired, fun v o _ hF _ hfilter => ?_⟩
    rw [hid o hfilter]
    exact hstands v hF
  · rw [hid o hfilter]
    exact hswap h hh v hF
  · rw [hid o hfilter]
    exact hburn h hh v hF

theorem updateById_learns {u : BuyOrderSet} (hpaid : ∀ w, F w → w.paidOrder id)
    (hstatus : ∀ st, u.status = some st → st ≠ .awaitingPayment ∧ st ≠ .expired ∧
      ∀ w, F w → st.standsFor w id)
    (hswap : ∀ h, u.swapTxHash = some h → ∀ w, F w → w.sent id .swap h)
    (hburn : ∀ h, u.burnTxHash = some h → ∀ w, F w → w.sent id .burn h) :
    LearnsOrders cfg f i (fun _ _ => True) F (BuyOrder.updateById id u) :=
  .request (allowed_updateOne (updateById_moves hpaid hstatus hswap hburn))
    fun _ _ _ _ _ => trivial

end Requests

section Programs
variable {ι : Type} {cfg : Config} {f : Faults ι} {i : ι} {F : World → Prop}
  {id : ObjectId} {ctx : BuyContext} {h : Hash}

theorem failOrder_learns {α : Type} {M : α → World → Prop} (what : String) (b : Broadcast)
    (hpaid : ∀ w, F w → w.paidOrder id) (hsent : ∀ w, F w → w.sent id b h ∧ w.reverted h) :
    LearnsOrders cfg f i M F (failOrder id what h) := by
  refine .bind (updateById_learns hpaid (fun st hst => ?_) (fun _ hh => ?_) fun _ hh => ?_)
    fun _ => trivial
  · cases hst
    exact ⟨by simp, by simp, fun w hF => ⟨b, h, hsent w hF⟩⟩
  · cases hh
  · cases hh

/-- The swap on file has landed when a run goes on. -/
theorem reconcileSwap_learns (hid : ctx.order.id = id)
    (hfiled : ∀ w, F w → w.paidOrder id ∧ w.sent id .swap h) :
    LearnsOrders cfg f i (fun _ w => w.landedFor id .swap) F (reconcileSwap ctx h) := by
  refine .bind receipt_learns fun receipt => ?_
  split
  · rename_i hgood
    refine .request (allowed_beside trivial) fun _ w _ hF _ => ?_
    exact ⟨h, (hfiled w hF.1).2, receipt, hF.2, hgood⟩
  · rename_i hbad
    rw [hid]
    refine failOrder_learns _ .swap (fun w hF => (hfiled w hF.1).1) fun w hF => ?_
    exact ⟨(hfiled w hF.1).2, receipt, hF.2, by simpa using hbad⟩

theorem reconcileBurn_learns (hid : ctx.order.id = id)
    (hfiled : ∀ w, F w → w.paidOrder id ∧ w.sent id .burn h) :
    LearnsOrders cfg f i (fun _ _ => True) F (reconcileBurn ctx h) := by
  refine .bind receipt_learns fun receipt => ?_
  rw [hid]
  split
  · rename_i hgood
    refine updateById_learns (fun w hF => (hfiled w hF.1).1) (fun st hst => ?_) (fun _ hh => ?_)
      fun _ hh => ?_
    · cases hst
      refine ⟨by simp, by simp, fun w hF => ?_⟩
      exact ⟨h, (hfiled w hF.1).2, receipt, hF.2, hgood⟩
    · cases hh
    · cases hh
  · rename_i hbad
    refine failOrder_learns _ .burn (fun w hF => (hfiled w hF.1).1) fun w hF => ?_
    exact ⟨(hfiled w hF.1).2, receipt, hF.2, by simpa using hbad⟩

theorem landSetup_beside (sender : Address) (setup : WalletCall) (reverted : Hash → String) :
    (landSetup sender setup reverted).Only (Op.beside orderAreas) := by
  refine .bind (.request trivial) fun txHash => .bind (.request trivial) fun receipt => ?_
  split <;> trivial

theorem ensurePaymentGasBudget_beside (address : Address) :
    (ensurePaymentGasBudget cfg address).Only (Op.beside orderAreas) := by
  refine .bind (.request trivial) fun balance => ?_
  split
  · trivial
  · exact .bind (.ofExcept _) fun _ => landSetup_beside _ _ _

theorem ensureUsdcAllowance_beside (amount : Int) :
    (ensureUsdcAllowance ctx amount).Only (Op.beside orderAreas) := by
  refine .bind (.request trivial) fun allowance => ?_
  split
  · trivial
  · exact landSetup_beside _ _ _

theorem beside_after {α β : Type} {M : α → World → Prop} {p : Promise β}
    {k : β → Promise α} (hp : p.Only (Op.beside orderAreas))
    (hk : ∀ b, LearnsOrders cfg f i M F (k b)) : LearnsOrders cfg f i M F (p.bind k) :=
  .after hp (fun _ => allowed_beside) hk

theorem beside_learns {α : Type} {p : Promise α} (hp : p.Only (Op.beside orderAreas)) :
    LearnsOrders cfg f i (fun _ _ => True) F p :=
  (Progress.Learns.only hp fun _ => allowed_beside).post fun _ _ _ _ => trivial

theorem executeSwap_learns (hid : ctx.order.id = id) (hpaid : ∀ w, F w → w.paidOrder id) :
    LearnsOrders cfg f i (fun _ w => w.landedFor id .swap) F (executeSwap cfg ctx) := by
  refine beside_after (.request trivial) fun balance => ?_
  split
  · trivial
  · refine beside_after (ensurePaymentGasBudget_beside _) fun _ => ?_
    refine beside_after (ensureUsdcAllowance_beside _) fun _ => ?_
    refine beside_after (.request trivial) fun expected => ?_
    rw [hid]
    refine .bind (send_learns (b := .swap) (fun w _ => hpaid w) fun hb => by cases hb) fun h => ?_
    refine .bind (updateById_learns (fun w hF => hpaid w hF.1) (fun _ hst => ?_)
      (fun x hx w hF => ?_) fun _ hx => ?_) fun _ => ?_
    · cases hst
    · cases hx
      exact hF.2
    · cases hx
    · refine .bind (reconcileSwap_learns hid fun w hF => ⟨hpaid w hF.1.1, hF.1.2⟩) fun out => ?_
      refine .bind (updateById_learns (fun w hF => hpaid w hF.1.1.1) (fun _ hst => ?_)
        (fun _ hx => ?_) fun _ hx => ?_) fun _ w _ hF => hF.1.2
      · cases hst
      · cases hx
      · cases hx

theorem executeBurn_learns (hid : ctx.order.id = id) (wfairAmount : Int)
    (hpaid : ∀ w, F w → w.paidOrder id) (hswap : ∀ w, F w → w.landedFor id .swap) :
    LearnsOrders cfg f i (fun _ _ => True) F (executeBurn ctx wfairAmount) := by
  rw [executeBurn, hid]
  refine .bind (send_learns (b := .burn) (fun w _ => hpaid w) fun _ w _ => hswap w) fun h => ?_
  refine .bind (updateById_learns (fun w hF => hpaid w hF.1) (fun _ hst => ?_)
    (fun _ hx => ?_) fun x hx w hF => ?_) fun _ => ?_
  · cases hst
  · cases hx
  · cases hx
    exact hF.2
  · exact reconcileBurn_learns hid fun w hF => ⟨hpaid w hF.1.1, hF.1.2⟩

/-- Whatever order a run goes on with, it was so on file. -/
theorem claimUnlessFiled_learns {filed : Bool} {claim : Promise (Option BuyOrderDoc)}
    {order : BuyOrderDoc} (hseen : ∀ w, F w → Seen id order w)
    (hclaim : LearnsOrders cfg f i (fun r w => ∀ o, r = some o → Seen id o w) F claim) :
    LearnsOrders cfg f i (fun r w => ∀ o, r = some o → Seen id o w) F
      (claimUnlessFiled filed claim order id) := by
  rw [claimUnlessFiled]
  split
  · intro w _ hF o ho
    cases ho
    exact hseen w hF
  · refine .bind hclaim fun claimed => ?_
    cases claimed with
    | some o => exact fun w _ hF => hF.2
    | none => exact findById_learns

theorem swapStep_learns (ctx : BuyContext) (hseen : ∀ w, F w → Seen id ctx.order w) :
    LearnsOrders cfg f i (fun r w => r.isSome = true → w.landedFor id .swap) F
      (swapStep cfg ctx) := by
  refine .fact (A := ctx.order.id = id) (fun w _ hF => (hseen w hF).id_eq) fun hid => ?_
  rw [swapStep]
  split
  · rename_i h hh
    refine .bind (reconcileSwap_learns hid fun w hF => (hseen w hF).filed (b := .swap) hh)
      fun _ w _ hF _ => hF.2
  · split
    · rename_i hst
      refine .bind (executeSwap_learns hid fun w hF => (hseen w hF).paid ?_)
        fun _ w _ hF _ => hF.2
      simp [BuyOrderDoc.paid, hst]
    · intro w _ _ hsome
      cases hsome

theorem burnStep_learns (ctx : BuyContext) (wfairOut : Int)
    (hseen : ∀ w, F w → Seen id ctx.order w) :
    LearnsOrders cfg f i (fun _ _ => True) F (burnStep ctx wfairOut) := by
  refine .fact (A := ctx.order.id = id) (fun w _ hF => (hseen w hF).id_eq) fun hid => ?_
  rw [burnStep]
  split
  · rename_i h hh
    exact .bind (reconcileBurn_learns hid fun w hF => (hseen w hF).filed (b := .burn) hh)
      fun _ _ _ _ => trivial
  · split
    · rename_i hst
      refine .bind (executeBurn_learns hid wfairOut (fun w hF => (hseen w hF).paid ?_)
        fun w hF => (hseen w hF).burning hst) fun _ _ _ _ => trivial
      simp [BuyOrderDoc.paid, hst]
    · exact fun _ _ _ => trivial

theorem alert_beside (message : String) : (alert cfg message).Only (Op.beside orderAreas) :=
  alert_only (fun _ => trivial) message

theorem burnAfterSwap_learns (order : BuyOrderDoc) (wfairOut : Int)
    (hseen : ∀ w, F w → Seen id order w) (hswap : ∀ w, F w → w.landedFor id .swap) :
    LearnsOrders cfg f i (fun _ _ => True) F (burnAfterSwap cfg ctx order id wfairOut) := by
  refine .bind findById_learns fun found => ?_
  have hfound : ∀ w, F w ∧ (∀ o, found = some o → Seen id o w) →
      Seen id (found.getD order) w := by
    intro w hF
    cases hf : found with
    | none => exact hseen w hF.1
    | some o => exact hF.2 o hf
  refine .bind (claimUnlessFiled_learns hfound ?_) fun claimed => ?_
  · exact claim_learns (claimBurning_moves fun w hF => hswap w hF.1)
  · cases claimed with
    | none => exact fun _ _ _ => trivial
    | some o =>
        refine .bind (burnStep_learns { ctx with order := o } wfairOut fun w hF => hF.2 o rfl)
          fun done => ?_
        split
        · exact beside_learns (.tryCatch (.request trivial) fun _ => alert_beside _)
        · exact fun _ _ _ => trivial

theorem processBuy_learns : LearnsOrders cfg f i (fun _ _ => True) F (processBuy cfg id) := by
  have hcontext : LearnsOrders cfg f i (fun r w => ∀ ctx, r = some ctx → Seen id ctx.order w) F
      (loadContext cfg id) := by
    refine .bind findById_learns fun found => ?_
    cases found with
    | none => exact fun w _ _ ctx hctx => by cases hctx
    | some order =>
        simp only
        split
        · trivial
        · refine .bind (.ofExcept _) fun key => ?_
          split
          · intro w _ hF ctx hctx
            cases hctx
            exact hF.1.2 order rfl
          · trivial
  refine .bind hcontext fun found => ?_
  cases found with
  | none => exact fun _ _ _ => trivial
  | some ctx =>
      simp only
      split
      · exact fun _ _ _ => trivial
      · split
        · trivial
        · refine .bind (claimUnlessFiled_learns (fun w hF => hF.2 ctx rfl)
            (claim_learns claimSwapping_moves)) fun claimed => ?_
          cases claimed with
          | none => exact fun _ _ _ => trivial
          | some order =>
              have hseen : ∀ w, (F w ∧ ∀ c, some ctx = some c → Seen id c.order w) ∧
                  (∀ o, some order = some o → Seen id o w) → Seen id order w :=
                fun w hF => hF.2 order rfl
              refine .bind (swapStep_learns { ctx with order := order } hseen) fun out => ?_
              cases out with
              | none => exact fun _ _ _ => trivial
              | some wfairOut =>
                  exact burnAfterSwap_learns order wfairOut (fun w hF => hseen w hF.1)
                    fun w hF => hF.2 rfl

theorem attemptBuy_learns : LearnsOrders cfg f i (fun _ _ => True) F
    (attempt (.buy id) (buyProcessor cfg id)) := by
  refine beside_after (.request trivial) fun _ => ?_
  refine .bind (N := fun _ _ => True) ?_ fun raised => ?_
  · refine .tryCatch ?_ fun e => fun _ _ _ => trivial
    refine .bind (.tryCatch processBuy_learns fun e => ?_) fun _ _ _ _ => trivial
    dsimp only
    split
    · exact beside_after (alert_beside _) fun _ => trivial
    · trivial
  · exact .request (allowed_beside trivial) fun _ _ _ _ _ => trivial

theorem detectOrders_learns (orders : List BuyOrderDoc) :
    LearnsOrders cfg f i (fun _ _ => True) F (detectOrders orders) := by
  induction orders with
  | nil => exact fun _ _ _ => trivial
  | cons order orders ih =>
      rw [detectOrders]
      split
      · exact ih
      · refine beside_after (.tryCatch (.bind (.request trivial) fun _ => trivial)
          fun _ => trivial) fun balance => ?_
        cases balance with
        | none => exact ih
        | some balance =>
            simp only
            split
            · exact ih
            · refine .bind (.request (M := fun _ _ => True) (allowed_findOneAndUpdate
                (movesOn_awaiting (fun o ho => ?_) (Or.inl rfl) ⟨rfl, rfl⟩))
                fun _ _ _ _ _ => trivial) fun claimed => ?_
              · simp only [payable, Bool.and_eq_true, beq_iff_eq] at ho
                exact ho.2
              · cases claimed with
                | none => exact ih.pre fun _ _ hF => hF.1
                | some claimed =>
                    exact beside_after (.request trivial) fun _ => ih.pre fun _ _ hF => hF.1

theorem startBuyWatcher_learns (rounds : Nat) :
    LearnsOrders cfg f i (fun _ _ => True) F (startBuyWatcher cfg rounds) := by
  rw [startBuyWatcher]
  split
  · induction rounds generalizing F with
    | zero => exact fun _ _ _ => trivial
    | succ rounds ih =>
        refine beside_after (.request trivial) fun aborted => ?_
        split
        · exact fun _ _ _ => trivial
        · refine .bind (N := fun _ _ => True) (.tryCatch ?_ fun _ _ _ _ => trivial) fun _ => ih
          refine .bind (N := fun _ _ => True) ?_ fun _ => ?_
          · refine beside_after (.request trivial) fun now => ?_
            refine .request (allowed_updateMany (movesOn_awaiting (fun o ho => ?_)
              (Or.inr rfl) ⟨rfl, rfl⟩)) fun _ _ _ _ _ => trivial
            simp only [staleOrder, Bool.and_eq_true, beq_iff_eq] at ho
            exact ho.1
          · refine beside_after (.request trivial) fun now => ?_
            exact beside_after (.request trivial) fun orders => detectOrders_learns orders
  · exact fun _ _ _ => trivial

theorem linkRelease_learns (baseBurnTxHash : Hash) (txid : Txid) :
    LearnsOrders cfg f i (fun _ _ => True) F (linkReleaseToBuyOrder baseBurnTxHash txid) := by
  refine .bind (N := fun _ _ => True) (.request (allowed_findOneAndUpdate
    (movesOn_paid (fun v o _ _ hfilter => ?_) (fun st hst => ?_) (fun _ hh => ?_)
      fun _ hh => ?_)) fun _ _ _ _ _ => trivial) fun _ _ _ _ => trivial
  · simp only [Bool.and_eq_true, Bool.or_eq_true, beq_iff_eq] at hfilter
    obtain ⟨_, hst | hst⟩ := hfilter <;> simp [BuyOrderDoc.paid, hst]
  · cases hst
    refine ⟨by simp, by simp, fun v o hi _ ho hfilter => ?_⟩
    simp only [Bool.and_eq_true, beq_iff_eq] at hfilter
    exact ⟨_, (hi.standing _ o ho).filed .burn _ hfilter.1⟩
  · cases hh
  · cases hh

/-- The release signer touches the orders only to mark one delivered. -/
theorem signRelease_learns (job : ReleaseJob) :
    LearnsOrders cfg f i (fun _ _ => True) F (signRelease cfg job) := by
  refine beside_after (.request trivial) fun initial => ?_
  cases initial with
  | none => exact fun _ _ _ => trivial
  | some initial =>
      simp only
      split
      · exact fun _ _ _ => trivial
      split
      · trivial
      split
      · trivial
      refine beside_after ?_ fun _ => beside_after ?_ fun found => ?_
      · rw [rejectInvalidAddress]
        split
        · refine .bind (.request trivial) fun valid => ?_
          split
          · trivial
          · exact .bind (.request trivial) fun _ => trivial
        · trivial
      · rw [claimReleaseOrReread]
        split
        · refine .bind (.request trivial) fun claimed => ?_
          cases claimed with
          | some _ => trivial
          | none => exact .request trivial
        · trivial
      · cases found with
        | none => exact fun _ _ _ => trivial
        | some d =>
            simp only
            split
            · refine beside_after (within_beside rfl
                (signNodeWallet_within job d)) fun txid => ?_
              refine beside_after (.request trivial) fun _ => ?_
              exact .tryCatch (linkRelease_learns _ _) fun _ _ _ _ => trivial
            · exact fun _ _ _ => trivial

theorem program_learns (t : Task) :
    LearnsOrders cfg f i (fun _ _ => True) F (t.program cfg) := by
  have hbeside : (orderAreas.all fun b => b != .nowhere && !t.areas.contains b) = true →
      LearnsOrders cfg f i (fun _ _ => True) F (t.program cfg) := by
    exact fun h => beside_learns (within_beside h t.program_within)
  cases t with
  | signRelease job => exact signRelease_learns job
  | processBuy id => exact processBuy_learns
  | startBuyWatcher rounds => exact startBuyWatcher_learns rounds
  | attemptBuy id => exact attemptBuy_learns
  | _ => exact hbeside rfl

end Programs

def orderLearner {ι : Type} (cfg : Config) (f : Faults ι) : Learner (service cfg f) where
  toProgress := orderProgress
  env hi he := OrderBooks.env hi (service_env he).2
  tasks _ _ := .of_learns _ (program_learns _)

/-- No order has been quoted, and nothing sent for one. -/
structure World.WithoutOrders (w : World) : Prop where
  rows : ∀ id, w.buyOrders.get id = none
  sent : ∀ id (b : Broadcast), w.sentFor (b.purpose id) = []

theorem World.WithoutOrders.books {w : World} (h : w.WithoutOrders) : OrderBooks w where
  standing id o ho := by cases (h.rows id).symm.trans ho
  unknown id b _ := h.sent id b
  burned id x hx := by
    obtain ⟨tx, htx, _⟩ := hx
    rw [h.sent id .burn] at htx
    cases htx

/-- Whatever runs at once, and whatever faults strike: an order has behind it what its
status says, its hashes were sent for it, and a burn is sent only where a swap has landed. -/
theorem orders_backed {ι : Type} [DecidableEq ι] (cfg : Config) (f : Faults ι) {w : World}
    (hw : w.WithoutOrders) {es : List (Event JsError ι Task EnvEvent)}
    {q : Pool Op JsError World ι} (hq : (service cfg f).exec (.init w) es = some q) :
    OrderBooks q.world :=
  ((Learner.Sound.init (orderLearner cfg f) hw.books).exec _ hq).1.inv

/-- An order that has expired stays as it is, and nothing is ever sent for it; one whose
payment was seen stays paid, and one that still waits is as it was. -/
theorem order_goes_on {ι : Type} [DecidableEq ι] (cfg : Config) (f : Faults ι) {w : World}
    (hw : OrderBooks w) {es es' : List (Event JsError ι Task EnvEvent)}
    {p q : Pool Op JsError World ι} (hp : (service cfg f).exec (.init w) es = some p)
    {id : ObjectId} {o : BuyOrderDoc} (ho : p.world.buyOrders.get id = some o)
    (hq : (service cfg f).exec p es' = some q) :
    ∃ o', q.world.buyOrders.get id = some o' ∧ o.Advances o' ∧
      (o.status = .expired → ∀ b : Broadcast, q.world.sentFor (b.purpose id) = []) := by
  obtain ⟨hsound, _⟩ := (Learner.Sound.init (orderLearner cfg f) hw).exec _ hp
  obtain ⟨hsound', hk⟩ := hsound.exec _ hq
  have hk : OrdersAdvance p.world q.world := hk
  have hbooks : OrderBooks q.world := hsound'.inv
  obtain ⟨o', ho', hadv⟩ := hk.rows id o ho
  refine ⟨o', ho', hadv, fun hst => ?_⟩
  have hstatus := (hbooks.standing id o' ho').status
  rw [hadv.expired hst, hst] at hstatus
  exact hstatus

namespace Sample

/-- Any task may run, any request may fail or lose its answer, and any run may die. -/
def anyFault : Faults Bool where
  ready _ _ _ := true
  may _ _ _ _ := true
  mayKill _ _ _ := true
  row _ := none

def watchedConfig : Config := { buyConfig with buyPaymentHdXprv := some "xprv" }

def quotedOrder : BuyOrderDoc where
  fairDestinationAddress := "fAddress"
  paymentAddress := some ⟨5⟩
  paymentAmount := 10
  paymentHdIndex := some 0
  paymentExpiresAt := 9

/-- An order is quoted, and its payment arrives. -/
def quotedAndPaid : List (Event JsError Bool Task EnvEvent) :=
  [.env (.quote quotedOrder), .env (.market buyWorld.base.tokens)]

/-- The payment is detected, two runs take the order up at once and both swap; the answer of
one swap is lost, and the other goes on to the burn. -/
def twoSwaps : List (Event JsError Bool Task EnvEvent) :=
  quotedAndPaid ++ [.start true (.startBuyWatcher 1)] ++ List.replicate 8 (.step true .done) ++
  [.start true (.processBuy 0), .start false (.processBuy 0)] ++
  List.replicate 6 (.step true .done) ++ List.replicate 6 (.step false .done) ++
  [.step true .done, .step false (.lost (.error "socket hang up")), .step true .done,
    .env (.foreignReceipt ⟨0⟩ ⟨true, 1⟩)] ++
  List.replicate 7 (.step true .done)

/-- The time of the order is over before the first tick. -/
def lateTicks : List (Event JsError Bool Task EnvEvent) :=
  quotedAndPaid ++ [.env (.wait 20), .start true (.startBuyWatcher 1)] ++
  List.replicate 5 (.step true .done)

end Sample

theorem two_swaps_backed : ∃ q,
    (service Sample.watchedConfig Sample.anyFault).exec (.init {}) Sample.twoSwaps = some q ∧
    ((q.world.buyOrders.get 0).map BuyOrderDoc.status = some .burning ∧
      (q.world.sentFor (.orderSwap 0)).length = 2 ∧
      (q.world.sentFor (.orderBurn 0)).length = 1) ∧ OrderBooks q.world := by
  have h : ((service Sample.watchedConfig Sample.anyFault).exec (.init {})
      Sample.twoSwaps).map (fun q => ((q.world.buyOrders.get 0).map BuyOrderDoc.status,
        (q.world.sentFor (.orderSwap 0)).length, (q.world.sentFor (.orderBurn 0)).length)) =
      some (some .burning, 2, 1) := by
    decide +kernel
  obtain ⟨q, hq, hres⟩ := Option.map_eq_some_iff.mp h
  simp only [Prod.mk.injEq] at hres
  exact ⟨q, hq, hres, orders_backed Sample.watchedConfig Sample.anyFault
    ⟨fun _ => rfl, fun _ _ => rfl⟩ hq⟩

theorem late_order_final : ∃ p q o,
    (service Sample.watchedConfig Sample.anyFault).exec (.init {}) Sample.lateTicks = some p ∧
    p.world.buyOrders.get 0 = some o ∧ o.status = .expired ∧
    (service Sample.watchedConfig Sample.anyFault).exec p
      [.start false (.processBuy 0), .step false .done] = some q ∧
    ∃ o', q.world.buyOrders.get 0 = some o' ∧ o.Advances o' ∧
      (o.status = .expired → ∀ b : Broadcast, q.world.sentFor (b.purpose 0) = []) := by
  have h : ((service Sample.watchedConfig Sample.anyFault).exec (.init {})
      Sample.lateTicks).map (fun p => ((p.world.buyOrders.get 0).map BuyOrderDoc.status,
        ((service Sample.watchedConfig Sample.anyFault).exec p
          [.start false (.processBuy 0), .step false .done]).isSome)) =
      some (some .expired, true) := by
    decide +kernel
  obtain ⟨p, hp, hres⟩ := Option.map_eq_some_iff.mp h
  obtain ⟨hst, hq⟩ := Prod.mk.inj hres
  obtain ⟨o, ho, hst⟩ := Option.map_eq_some_iff.mp hst
  obtain ⟨q, hq⟩ := Option.isSome_iff_exists.mp hq
  have hbooks : OrderBooks {} := World.WithoutOrders.books ⟨fun _ => rfl, fun _ _ => rfl⟩
  exact ⟨p, q, o, hp, ho, hst, hq,
    order_goes_on Sample.watchedConfig Sample.anyFault hbooks hp ho hq⟩

end FairBridge

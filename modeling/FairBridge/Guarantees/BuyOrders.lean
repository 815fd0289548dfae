import FairBridge.Async.Section
import FairBridge.Signer.BuyOutline

/-!
One swap and one burn for an order. From its claim until the hash of its broadcast is
on the row a run is in a section of its own. The claims do not keep a second run out
of it, so that nobody else is inside has to be known where a run claims a row that is
claimed already: because the runs do not overlap, or because no run claims such a row
while another is inside.
-/

namespace FairBridge
open Store Async Async.Rules

/-- Claimed, and the hash of the broadcast is not on file. -/
def BuyOrderDoc.unfiled (o : BuyOrderDoc) : Bool :=
  match o.status with
  | .swapping => o.swapTxHash.isNone
  | .burning => o.burnTxHash.isNone
  | _ => false

/-- The request claims the order as it is claimed already. -/
def Op.reclaims (id : ObjectId) {β : Type} : Op β → World → Bool
  | .buyOrder (.findOneAndUpdate _ _ u), w =>
      (w.buyOrders.get id).any fun o => u.status == some o.status && o.unfiled
  | _, _ => false

/-- The requests a run can be at although the order is claimed by another: before the
swap only those around the claim, before the burn all but the burn and its filing. -/
def Op.outside (id : ObjectId) {β : Type} (op : Op β) (w : World) : Bool :=
  (w.buyOrders.get id).all fun o => !o.unfiled ||
    match op with
    | .buyOrder (.findOne _ _) | .buyOrder (.findOneAndUpdate _ _ _) => true
    | .buyOrder (.updateOne _ u) => o.status == .burning && u.burnTxHash.isNone
    | .sendWallet _ _ _ => false
    | _ => o.status == .burning

/-- The update that puts the hash of a broadcast on the order. -/
def Op.filesOrderHash {β : Type} : Op β → Bool
  | .buyOrder (.updateOne _ u) => u.swapTxHash.isSome || u.burnTxHash.isSome
  | _ => false

/-- Any number of slots that run the orchestrator for one order. No swap or burn raises
and takes effect all the same, and no hash of one is lost; every other request may raise.
A run that has the slots to itself may die anywhere but where it is to file a hash. -/
def buyRuns (ι : Type) (id : ObjectId) (alone : Bool) : Faults ι where
  ready _ _ t := match t with
    | .processBuy buyOrderId => buyOrderId == id
    | _ => false
  may _ op out _ := match op with
    | .sendWallet _ _ purpose => purpose == .setup || !out.isLost
    | op => !op.filesOrderHash || out.isDone
  mayKill _ op w := if alone then !op.filesOrderHash else op.outside id w
  row _ := none

namespace World

def sentFor (w : World) (purpose : Purpose) : List WalletTx :=
  w.base.walletTxs.filter fun tx => tx.purpose == purpose

def succeeded (w : World) (h : Hash) : Prop :=
  ∃ r, w.base.receipts h = some r ∧ r.success = true

def reverted (w : World) (h : Hash) : Prop :=
  ∃ r, w.base.receipts h = some r ∧ r.success = false

theorem reverted_not_succeeded {w : World} {h : Hash} (hr : w.reverted h) : ¬ w.succeeded h := by
  intro hs
  obtain ⟨r, hr, hbad⟩ := hr
  obtain ⟨r', hr', hgood⟩ := hs
  cases hr.symm.trans hr'
  rw [hgood] at hbad
  cases hbad

end World

/-- No run of the orchestrator works on the order any more. -/
def BuyOrderDoc.closed (o : BuyOrderDoc) : Bool :=
  o.status == .failed || o.status == .expired

/-- How far an order has come. `inside` tells whether a run is between its claim and the
filing of its hash. -/
inductive OrderPhase (id : ObjectId) (w : World) (o : BuyOrderDoc) (inside : Bool) : Prop
  | unswapped (swap : o.swapTxHash = none) (burn : o.burnTxHash = none)
      (swaps : w.sentFor (.orderSwap id) = []) (burns : w.sentFor (.orderBurn id) = [])
      (status : o.status ≠ .burning ∧ o.status ≠ .delivering ∧ o.status ≠ .delivered)
      (claimed : inside = true → o.status = .swapping)
  | swapSent (tx : WalletTx) (swap : o.swapTxHash = none) (burn : o.burnTxHash = none)
      (swaps : w.sentFor (.orderSwap id) = [tx]) (burns : w.sentFor (.orderBurn id) = []) (status : o.status = .swapping)
      (claimed : inside = true)
  | swapped (tx : WalletTx) (swap : o.swapTxHash = some tx.hash) (burn : o.burnTxHash = none)
      (swaps : w.sentFor (.orderSwap id) = [tx]) (burns : w.sentFor (.orderBurn id) = [])
      (status : o.status = .swapping ∨ o.status = .burning ∧ w.succeeded tx.hash ∨
        o.status = .failed ∧ w.reverted tx.hash)
      (claimed : inside = true → o.status = .burning)
  | burnSent (tx burnTx : WalletTx) (swap : o.swapTxHash = some tx.hash)
      (burn : o.burnTxHash = none) (swaps : w.sentFor (.orderSwap id) = [tx]) (burns : w.sentFor (.orderBurn id) = [burnTx])
      (success : w.succeeded tx.hash) (status : o.status = .burning) (claimed : inside = true)
  | burned (tx burnTx : WalletTx) (swap : o.swapTxHash = some tx.hash)
      (burn : o.burnTxHash = some burnTx.hash) (swaps : w.sentFor (.orderSwap id) = [tx])
      (burns : w.sentFor (.orderBurn id) = [burnTx]) (success : w.succeeded tx.hash)
      (status : o.status = .burning ∨ o.status = .delivered ∨
        o.status = .delivering ∧ w.succeeded burnTx.hash ∨
        o.status = .failed ∧ w.reverted burnTx.hash)
      (unclaimed : inside = false)

variable {ι : Type} {id : ObjectId} {alone : Bool}

/-- Where runs may overlap, the order was paid before. -/
structure BuyInv (id : ObjectId) (alone : Bool) (s : World × Option ι) : Prop where
  row : ∃ o, s.1.buyOrders.get id = some o ∧ OrderPhase id s.1 o s.2.isSome
  paid : alone = false → ∀ o, s.1.buyOrders.get id = some o → o.status ≠ .awaitingPayment

/-- `claimSwapping` cannot take the row any more. -/
def BuyOrderDoc.swapRefused (o : BuyOrderDoc) : Prop :=
  o.swapTxHash ≠ none ∨
    o.status ≠ .awaitingPayment ∧ o.status ≠ .paymentDetected ∧ o.status ≠ .swapping

/-- `claimBurning` cannot take the row of a swapped order any more. -/
def BuyOrderDoc.burnRefused (o : BuyOrderDoc) : Prop :=
  o.burnTxHash ≠ none ∨ o.status = .failed

theorem Broadcast.hash_status (b : Broadcast) (o : BuyOrderDoc) (status : BuyOrderStatus) :
    b.hash { o with status := status } = b.hash o := by
  cases b <;> rfl

/-- What is never undone on a row. -/
structure BuyOrderDoc.Kept (o o' : BuyOrderDoc) : Prop where
  hash : ∀ (b : Broadcast) h, b.hash o = some h → b.hash o' = some h
  swapRefused : o.swapRefused → o'.swapRefused
  burnRefused : o.burnRefused → o'.burnRefused
  closed : o.closed = true → o'.closed = true

/-- What is never undone in the world. Nothing is sent for an order that is closed. -/
structure OrderKept (id : ObjectId) (w w' : World) : Prop where
  row : ∀ o, w.buyOrders.get id = some o → ∃ o', w'.buyOrders.get id = some o' ∧ o.Kept o'
  receipts : ∀ h r, w.base.receipts h = some r → w'.base.receipts h = some r
  closed : ∀ o, w.buyOrders.get id = some o → o.closed = true →
    w'.base.walletTxs = w.base.walletTxs

/-- What a run that is inside finds as it left it. -/
structure OrderMine (id : ObjectId) (w w' : World) : Prop where
  row : ∀ o, w.buyOrders.get id = some o → ∃ o', w'.buyOrders.get id = some o' ∧
    o'.status = o.status ∧ ∀ b : Broadcast, b.hash o' = b.hash o
  sent : ∀ b : Broadcast, w'.sentFor (b.purpose id) = w.sentFor (b.purpose id)

/-- Where runs do not overlap, an order does not come to be claimed from outside. -/
def NotClaimed (id : ObjectId) (alone : Bool) (w w' : World) : Prop :=
  alone = true → ∀ o, w.buyOrders.get id = some o → o.status ≠ .swapping →
    ∃ o', w'.buyOrders.get id = some o' ∧ o'.status ≠ .swapping

/-- Every broadcast for the order is on file. -/
def World.orderFiled (w : World) (id : ObjectId) : Prop :=
  ∃ o, w.buyOrders.get id = some o ∧
    ∀ b : Broadcast, b.hash o = none → w.sentFor (b.purpose id) = []

theorem BuyOrderDoc.Kept.refl (o : BuyOrderDoc) : o.Kept o :=
  ⟨fun _ _ h => h, fun h => h, fun h => h, fun h => h⟩

theorem BuyOrderDoc.Kept.trans {a b c : BuyOrderDoc} (hab : a.Kept b) (hbc : b.Kept c) :
    a.Kept c :=
  ⟨fun x h ha => hbc.hash x h (hab.hash x h ha),
    fun h => hbc.swapRefused (hab.swapRefused h), fun h => hbc.burnRefused (hab.burnRefused h),
    fun h => hbc.closed (hab.closed h)⟩

namespace OrderKept
variable {u v w : World}

theorem refl (w : World) : OrderKept id w w :=
  ⟨fun o ho => ⟨o, ho, .refl o⟩, fun _ _ h => h, fun _ _ _ => rfl⟩

theorem trans (huv : OrderKept id u v) (hvw : OrderKept id v w) : OrderKept id u w where
  row o ho := by
    obtain ⟨o', ho', hk⟩ := huv.row o ho
    obtain ⟨o'', ho'', hk'⟩ := hvw.row o' ho'
    exact ⟨o'', ho'', hk.trans hk'⟩
  receipts h r hr := hvw.receipts h r (huv.receipts h r hr)
  closed o ho hc := by
    obtain ⟨o', ho', hk⟩ := huv.row o ho
    rw [hvw.closed o' ho' (hk.closed hc), huv.closed o ho hc]

theorem succeeded {h : Hash} (hk : OrderKept id v w) (hs : v.succeeded h) : w.succeeded h := by
  obtain ⟨r, hr, hgood⟩ := hs
  exact ⟨r, hk.receipts h r hr, hgood⟩

/-- The order gets a row that undoes nothing. -/
theorem set {o : BuyOrderDoc} {u : BuyOrderSet} (ho : w.buyOrders.get id = some o)
    (hk : o.Kept (u.apply o)) : OrderKept id w (w.setBuyOrder id u) where
  row o' ho' := by
    cases ho.symm.trans ho'
    exact ⟨_, World.get_setBuyOrder ho u, hk⟩
  receipts _ _ h := h
  closed _ _ _ := rfl

theorem send {o : BuyOrderDoc} {sender : Address} {c : WalletCall} {purpose : Purpose}
    (ho : w.buyOrders.get id = some o) (hc : o.closed = false) :
    OrderKept id w (w.sendWallet sender c purpose) where
  row o' ho' := ⟨o', ho', .refl o'⟩
  receipts _ _ h := h
  closed o' ho' hc' := by
    cases ho.symm.trans ho'
    rw [hc] at hc'
    cases hc'

end OrderKept

namespace OrderMine
variable {u v w : World}

theorem refl (w : World) : OrderMine id w w :=
  ⟨fun o ho => ⟨o, ho, rfl, fun _ => rfl⟩, fun _ => rfl⟩

theorem trans (huv : OrderMine id u v) (hvw : OrderMine id v w) : OrderMine id u w where
  row o ho := by
    obtain ⟨o', ho', hst, hh⟩ := huv.row o ho
    obtain ⟨o'', ho'', hst', hh'⟩ := hvw.row o' ho'
    exact ⟨o'', ho'', hst'.trans hst, fun b => (hh' b).trans (hh b)⟩
  sent b := (hvw.sent b).trans (huv.sent b)

theorem orderFiled (hm : OrderMine id v w) (h : v.orderFiled id) : w.orderFiled id := by
  obtain ⟨o, ho, hsent⟩ := h
  obtain ⟨o', ho', _, hh⟩ := hm.row o ho
  refine ⟨o', ho', fun b hb => ?_⟩
  rw [hm.sent b]
  exact hsent b ((hh b).symm.trans hb)

end OrderMine

theorem NotClaimed.trans {u v w : World} (huv : NotClaimed id alone u v)
    (hvw : NotClaimed id alone v w) : NotClaimed id alone u w := by
  intro ha o ho hst
  obtain ⟨o', ho', hst'⟩ := huv ha o ho hst
  exact hvw ha o' ho' hst'

/-- A phase stays where neither the row nor what was sent changes. -/
theorem OrderPhase.mono {w w' : World} {o : BuyOrderDoc} {inside : Bool}
    (h : OrderPhase id w o inside) (ht : w'.base.walletTxs = w.base.walletTxs)
    (hr : ∀ h r, w.base.receipts h = some r → w'.base.receipts h = some r) :
    OrderPhase id w' o inside := by
  have hs : ∀ p, w'.sentFor p = w.sentFor p := fun p => by
    rw [World.sentFor, World.sentFor, ht]
  have good : ∀ h, w.succeeded h → w'.succeeded h := by
    intro h hg
    obtain ⟨r, hrec, hgood⟩ := hg
    exact ⟨r, hr h r hrec, hgood⟩
  have bad : ∀ h, w.reverted h → w'.reverted h := by
    intro h hb
    obtain ⟨r, hrec, hbad⟩ := hb
    exact ⟨r, hr h r hrec, hbad⟩
  cases h with
  | unswapped swap burn swaps burns status claimed =>
      exact .unswapped swap burn ((hs _).trans swaps) ((hs _).trans burns) status claimed
  | swapSent tx swap burn swaps burns status claimed =>
      exact .swapSent tx swap burn ((hs _).trans swaps) ((hs _).trans burns) status claimed
  | swapped tx swap burn swaps burns status claimed =>
      refine .swapped tx swap burn ((hs _).trans swaps) ((hs _).trans burns) ?_ claimed
      exact status.imp_right fun h => h.imp (fun h => ⟨h.1, good _ h.2⟩) fun h => ⟨h.1, bad _ h.2⟩
  | burnSent tx burnTx swap burn swaps burns success status claimed =>
      exact .burnSent tx burnTx swap burn ((hs _).trans swaps) ((hs _).trans burns)
        (good _ success) status claimed
  | burned tx burnTx swap burn swaps burns success status unclaimed =>
      refine .burned tx burnTx swap burn ((hs _).trans swaps) ((hs _).trans burns)
        (good _ success) ?_ unclaimed
      exact status.imp_right fun h => h.imp_right fun h =>
        h.imp (fun h => ⟨h.1, good _ h.2⟩) fun h => ⟨h.1, bad _ h.2⟩

/-- An order moves on by itself before it is swapped and after it is burned only. -/
theorem movesTo_cases {o : BuyOrderDoc} {status : BuyOrderStatus}
    (h : o.movesTo status = true) :
    (o.status = .awaitingPayment ∧ (status = .paymentDetected ∨ status = .expired)) ∨
    (status = .delivered ∧ o.burnTxHash ≠ none ∧
      (o.status = .burning ∨ o.status = .delivering)) := by
  cases status with
  | paymentDetected =>
      exact Or.inl ⟨by simpa [BuyOrderDoc.movesTo] using h, Or.inl rfl⟩
  | expired => exact Or.inl ⟨by simpa [BuyOrderDoc.movesTo] using h, Or.inr rfl⟩
  | delivered =>
      simp only [BuyOrderDoc.movesTo, Bool.and_eq_true, Bool.or_eq_true, beq_iff_eq] at h
      refine Or.inr ⟨rfl, ?_, h.2⟩
      intro hn
      rw [hn] at h
      cases h.1
  | _ => cases h

/-- What an order's own moves do to its phase. -/
theorem OrderPhase.move {w : World} {o : BuyOrderDoc} {inside : Bool}
    {status : BuyOrderStatus} (h : OrderPhase id w o inside) (hm : o.movesTo status = true) :
    OrderPhase id w { o with status := status } inside ∧ inside = false ∧
      o.Kept { o with status := status } ∧ status ≠ .swapping ∧ status ≠ .awaitingPayment := by
  cases movesTo_cases hm with
  | inl hm =>
      obtain ⟨hst, hto⟩ := hm
      have hkept : o.swapTxHash = none → o.burnTxHash = none →
          o.Kept { o with status := status } := by
        intro hs hb
        refine ⟨fun b _ h => (b.hash_status o _).trans h, ?_, ?_, ?_⟩
        · intro hr
          simp [BuyOrderDoc.swapRefused, hs, hst] at hr
        · intro hr
          simp [BuyOrderDoc.burnRefused, hb, hst] at hr
        · intro hc
          simp [BuyOrderDoc.closed, hst] at hc
      cases h with
      | unswapped swap burn swaps burns _ claimed =>
          have hout : inside = false := by
            cases inside with
            | false => rfl
            | true => exact absurd (hst.symm.trans (claimed rfl)) (by decide)
          refine ⟨.unswapped swap burn swaps burns ?_ ?_, hout, hkept swap burn, ?_, ?_⟩
          · cases hto with
            | inl hto => simp [hto]
            | inr hto => simp [hto]
          · intro hin
            rw [hout] at hin
            cases hin
          · cases hto with
            | inl hto => simp [hto]
            | inr hto => simp [hto]
          · cases hto with
            | inl hto => simp [hto]
            | inr hto => simp [hto]
      | swapSent _ _ _ _ _ status _ => simp [hst] at status
      | swapped _ _ _ _ _ status _ => simp [hst] at status
      | burnSent _ _ _ _ _ _ _ status _ => simp [hst] at status
      | burned _ _ _ _ _ _ _ status _ => simp [hst] at status
  | inr hm =>
      obtain ⟨rfl, hburn, hst⟩ := hm
      cases h with
      | unswapped _ burn _ _ _ _ => exact absurd burn hburn
      | swapSent _ _ burn _ _ _ _ => exact absurd burn hburn
      | swapped _ _ burn _ _ _ _ => exact absurd burn hburn
      | burnSent _ _ _ burn _ _ _ _ _ => exact absurd burn hburn
      | burned tx burnTx swap burn swaps burns success _ unclaimed =>
          refine ⟨.burned tx burnTx swap burn swaps burns success (Or.inr (Or.inl rfl)) unclaimed,
            unclaimed, ⟨fun b _ h => (b.hash_status o _).trans h, ?_, ?_, ?_⟩, by decide,
            by decide⟩
          · intro _
            exact Or.inl (by simp [swap])
          · intro _
            exact Or.inl hburn
          · intro hc
            cases hst with
            | inl hst => simp [BuyOrderDoc.closed, hst] at hc
            | inr hst => simp [BuyOrderDoc.closed, hst] at hc

theorem BuyInv.env {e : EnvEvent} {s : World × Option ι} {w : World} (hi : BuyInv id alone s)
    (he : e.occur s.1 = some w) :
    BuyInv id alone (w, s.2) ∧ (s.2 ≠ none → OrderMine id s.1 w) ∧ OrderKept id s.1 w ∧
      NotClaimed id alone s.1 w := by
  have hsur := EnvEvent.occur_surroundings he
  obtain ⟨o, ho, hphase⟩ := hi.row
  obtain ⟨o', ho', hmove⟩ := hsur.buyOrders id o ho
  have hsent : ∀ p, w.sentFor p = s.1.sentFor p := fun p => by
    rw [World.sentFor, World.sentFor, hsur.walletTxs]
  have hkept : o.Kept o' → OrderKept id s.1 w := by
    refine fun hk => ⟨?_, hsur.receipts, fun _ _ _ => hsur.walletTxs⟩
    intro o'' ho''
    cases ho.symm.trans ho''
    exact ⟨o', ho', hk⟩
  have hnot : (o.status ≠ .swapping → o'.status ≠ .swapping) → NotClaimed id alone s.1 w := by
    intro hst _ o'' ho'' hne
    cases ho.symm.trans ho''
    exact ⟨o', ho', hst hne⟩
  cases hmove with
  | inl hsame =>
      subst hsame
      refine ⟨⟨⟨_, ho', hphase.mono hsur.walletTxs hsur.receipts⟩, ?_⟩, ?_, hkept (.refl _),
        hnot fun h => h⟩
      · intro ha o'' ho''
        cases ho'.symm.trans ho''
        exact hi.paid ha _ ho
      · refine fun _ => ⟨?_, fun _ => hsent _⟩
        intro o'' ho''
        cases ho.symm.trans ho''
        exact ⟨_, ho', rfl, fun _ => rfl⟩
  | inr hmove =>
      obtain ⟨status, hm, rfl⟩ := hmove
      obtain ⟨hphase', hout, hk, hto, hpaid⟩ := hphase.move hm
      refine ⟨⟨⟨_, ho', hphase'.mono hsur.walletTxs hsur.receipts⟩, ?_⟩, ?_, hkept hk,
        hnot fun _ => hto⟩
      · intro _ o'' ho''
        cases ho'.symm.trans ho''
        exact hpaid
      · intro hs
        rw [Option.isSome_eq_false_iff, Option.isNone_iff_eq_none] at hout
        exact absurd hout hs

/-- The rules of the orchestrator for one order. -/
def buySection (cfg : Config) (ι : Type) (id : ObjectId) (alone : Bool) :
    Section (service cfg (buyRuns ι id alone)) where
  inv := BuyInv id alone
  idle w := alone = true ∧ w.orderFiled id
  mine := OrderMine id
  kept := OrderKept id
  others := NotClaimed id alone
  enters op w := op.reclaims id w = true
  mine_refl := .refl
  mine_trans := .trans
  kept_refl := .refl
  kept_trans := .trans
  others_refl _ _ o ho hst := ⟨o, ho, hst⟩
  others_trans := .trans
  idle_mine hm h := ⟨h.1, hm.orderFiled h.2⟩
  env hi he := hi.env (service_env he).2

section Outline
variable {cfg : Config} {i : ι} {s : World × Option ι} {o : BuyOrderDoc}

namespace World

/-- The hash of a broadcast stands on the row. -/
def onFile (id : ObjectId) (b : Broadcast) (h : Hash) (w : World) : Prop :=
  ∃ o, w.buyOrders.get id = some o ∧ b.hash o = some h

/-- What has been sent for a broadcast that is not on file. -/
def sentUnfiled (id : ObjectId) (b : Broadcast) (txs : List WalletTx) (w : World) : Prop :=
  ∃ o, w.buyOrders.get id = some o ∧ b.hash o = none ∧ w.sentFor (b.purpose id) = txs

def swapDone (id : ObjectId) (w : World) : Prop :=
  ∃ h, w.onFile id .swap h ∧ w.succeeded h

theorem onFile_kept {v w : World} {b : Broadcast} {h : Hash} (hk : OrderKept id v w)
    (hf : v.onFile id b h) : w.onFile id b h := by
  obtain ⟨o, ho, hh⟩ := hf
  obtain ⟨o', ho', hk⟩ := hk.row o ho
  exact ⟨o', ho', hk.hash b h hh⟩

theorem sentUnfiled_mine {v w : World} {b : Broadcast} {txs : List WalletTx}
    (hm : OrderMine id v w) (h : v.sentUnfiled id b txs) : w.sentUnfiled id b txs := by
  obtain ⟨o, ho, hh, ht⟩ := h
  obtain ⟨o', ho', _, hh'⟩ := hm.row o ho
  exact ⟨o', ho', (hh' b).trans hh, (hm.sent b).trans ht⟩

theorem swapDone_kept {v w : World} (hk : OrderKept id v w) (h : v.swapDone id) :
    w.swapDone id := by
  obtain ⟨h, hf, hs⟩ := h
  exact ⟨h, onFile_kept hk hf, hk.succeeded hs⟩

theorem sentFor_sendWallet (w : World) (sender : Address) (c : WalletCall) {p : Purpose}
    (h : w.sentFor p = []) : (w.sendWallet sender c p).sentFor p =
      [⟨w.base.walletHashOf w.base.walletTxs.length, sender, c, p⟩] := by
  have happ : (w.sendWallet sender c p).sentFor p =
      w.sentFor p ++ [⟨w.base.walletHashOf w.base.walletTxs.length, sender, c, p⟩] := by
    simp [sentFor, sendWallet, List.filter_append]
  rw [happ, h, List.nil_append]

theorem sentFor_sendWallet_other (w : World) (sender : Address) (c : WalletCall) {p q : Purpose}
    (h : p ≠ q) : (w.sendWallet sender c p).sentFor q = w.sentFor q := by
  simp [sentFor, sendWallet, List.filter_append, h]

end World

/-- A claimed order for which nothing was sent yet since the claim. -/
inductive AtBroadcast (id : ObjectId) (w : World) (o : BuyOrderDoc) : Broadcast → Prop
  | swap (swap : o.swapTxHash = none) (burn : o.burnTxHash = none)
      (swaps : w.sentFor (.orderSwap id) = []) (burns : w.sentFor (.orderBurn id) = [])
      (status : o.status = .swapping) : AtBroadcast id w o .swap
  | burn (tx : WalletTx) (swap : o.swapTxHash = some tx.hash) (burn : o.burnTxHash = none)
      (swaps : w.sentFor (.orderSwap id) = [tx]) (burns : w.sentFor (.orderBurn id) = [])
      (success : w.succeeded tx.hash) (status : o.status = .burning) : AtBroadcast id w o .burn

theorem BuyInv.ready (hi : BuyInv id alone s) {b : Broadcast} (hs : s.2 = some i)
    (h : s.1.sentUnfiled id b []) (hb : b = .burn → s.1.swapDone id) :
    ∃ o, s.1.buyOrders.get id = some o ∧ AtBroadcast id s.1 o b := by
  obtain ⟨o, ho, hh, ht⟩ := h
  obtain ⟨o', ho', hphase⟩ := hi.row
  cases ho.symm.trans ho'
  have hin : s.2.isSome = true := by rw [hs]; rfl
  rw [hin] at hphase
  refine ⟨o, ho, ?_⟩
  cases b with
  | swap =>
      have hnone : o.swapTxHash = none := hh
      have hempty : s.1.sentFor (.orderSwap id) = [] := ht
      cases hphase with
      | unswapped swap burn swaps burns _ claimed => exact .swap swap burn swaps burns (claimed rfl)
      | swapSent _ _ _ swaps _ _ _ => simp [hempty] at swaps
      | swapped _ swap _ _ _ _ _ => simp [hnone] at swap
      | burnSent _ _ swap _ _ _ _ _ _ => simp [hnone] at swap
      | burned _ _ swap _ _ _ _ _ _ => simp [hnone] at swap
  | burn =>
      have hnone : o.burnTxHash = none := hh
      have hempty : s.1.sentFor (.orderBurn id) = [] := ht
      obtain ⟨h, ⟨o', ho', hswap⟩, hgood⟩ := hb rfl
      cases ho.symm.trans ho'
      have hswap : o.swapTxHash = some h := hswap
      cases hphase with
      | unswapped swap _ _ _ _ _ => simp [hswap] at swap
      | swapSent _ swap _ _ _ _ _ => simp [hswap] at swap
      | swapped tx swap burn swaps burns _ claimed =>
          cases hswap.symm.trans swap
          exact .burn tx swap burn swaps burns hgood (claimed rfl)
      | burnSent _ _ _ _ _ burns _ _ _ => simp [hempty] at burns
      | burned _ _ _ burn _ _ _ _ _ => simp [hnone] at burn

namespace AtBroadcast
variable {w : World} {b : Broadcast}

theorem status (h : AtBroadcast id w o b) : o.status = b.claimed := by
  cases h with
  | swap _ _ _ _ status => exact status
  | burn _ _ _ _ _ _ status => exact status

theorem not_closed (h : AtBroadcast id w o b) : o.closed = false := by
  cases h with
  | swap _ _ _ _ status => simp [BuyOrderDoc.closed, status]
  | burn _ _ _ _ _ _ status => simp [BuyOrderDoc.closed, status]

theorem unfiled (h : AtBroadcast id w o b) : o.unfiled = true := by
  cases h with
  | swap swap _ _ _ status => simp [BuyOrderDoc.unfiled, status, swap]
  | burn _ _ burn _ _ _ status => simp [BuyOrderDoc.unfiled, status, burn]

theorem orderFiled (h : AtBroadcast id w o b) (ho : w.buyOrders.get id = some o) :
    w.orderFiled id := by
  refine ⟨o, ho, ?_⟩
  intro b' hn
  cases h with
  | swap _ _ swaps burns _ =>
      cases b' with
      | swap => exact swaps
      | burn => exact burns
  | burn tx swap _ _ burns _ _ =>
      cases b' with
      | swap => exact absurd (swap.symm.trans hn) (by simp)
      | burn => exact burns

/-- Whether a run is inside or not. -/
theorem phase (h : AtBroadcast id w o b) (inside : Bool) : OrderPhase id w o inside := by
  cases h with
  | swap swap burn swaps burns status =>
      exact .unswapped swap burn swaps burns (by simp [status]) fun _ => status
  | burn tx swap burn swaps burns success status =>
      exact .swapped tx swap burn swaps burns (Or.inr (Or.inl ⟨status, success⟩)) fun _ => status

/-- A setup changes nothing that counts. -/
theorem setup (h : AtBroadcast id w o b) (sender : Address) (c : WalletCall) :
    AtBroadcast id (w.sendWallet sender c .setup) o b := by
  have hs := w.sentFor_sendWallet_other sender c (p := .setup) (q := .orderSwap id) (by simp)
  have hb := w.sentFor_sendWallet_other sender c (p := .setup) (q := .orderBurn id) (by simp)
  cases h with
  | swap swap burn swaps burns status =>
      exact .swap swap burn (hs.trans swaps) (hb.trans burns) status
  | burn tx swap burn swaps burns success status =>
      exact .burn tx swap burn (hs.trans swaps) (hb.trans burns) success status

/-- Nothing was sent for what is to be broadcast. -/
theorem ready (h : AtBroadcast id w o b) {v : World} (ho : v.buyOrders.get id = some o)
    (hv : v.base = w.base) : v.sentUnfiled id b [] ∧ (b = .burn → v.swapDone id) := by
  have hs : ∀ p, v.sentFor p = w.sentFor p := fun p => by
    rw [World.sentFor, World.sentFor, hv]
  cases h with
  | swap swap _ swaps _ _ =>
      exact ⟨⟨o, ho, swap, (hs _).trans swaps⟩, fun h => by cases h⟩
  | burn tx swap burn _ burns success _ =>
      refine ⟨⟨o, ho, burn, (hs _).trans burns⟩, fun _ => ⟨tx.hash, ⟨o, ho, swap⟩, ?_⟩⟩
      rw [World.succeeded, hv]
      exact success

theorem send (h : AtBroadcast id w o b) (sender : Address) (c : WalletCall) :
    OrderPhase id (w.sendWallet sender c (b.purpose id)) o true := by
  cases h with
  | swap swap burn swaps burns status =>
      exact .swapSent _ swap burn (w.sentFor_sendWallet sender c swaps)
        ((w.sentFor_sendWallet_other sender c (by simp [Broadcast.purpose])).trans burns)
        status rfl
  | burn tx swap burn swaps burns success status =>
      exact .burnSent tx _ swap burn
        ((w.sentFor_sendWallet_other sender c (by simp [Broadcast.purpose])).trans swaps)
        (w.sentFor_sendWallet sender c burns) success status rfl

end AtBroadcast

/-- What a run that is to broadcast knows. -/
def BuyReady (i : ι) (id : ObjectId) (b : Broadcast) : World × Option ι → Prop :=
  Section.Inside i fun w => w.sentUnfiled id b [] ∧ (b = .burn → w.swapDone id)

theorem BuyReady.stable (b : Broadcast) :
    (buySection cfg ι id alone).rules.Stable i (BuyReady i id b) :=
  Section.Inside.stable fun _ _ hk hm h =>
    ⟨World.sentUnfiled_mine hm h.1, fun hb => World.swapDone_kept hk (h.2 hb)⟩

abbrev buyRules (cfg : Config) (ι : Type) (id : ObjectId) (alone : Bool) :=
  (buySection cfg ι id alone).rules

theorem notClaimed_others (halone : alone = true → Subsingleton ι) {v w : World} (j : ι)
    (hij : i ≠ j) : NotClaimed id alone v w := by
  intro ha
  have := halone ha
  exact absurd (Subsingleton.elim i j) hij

/-- A run that is inside and has sent nothing may leave. -/
theorem BuyReady.release (halone : alone = true → Subsingleton ι) {b : Broadcast}
    (hi : BuyInv id alone s) (hr : BuyReady i id b s) :
    ∃ t, t.1 = s.1 ∧ BuyInv id alone t ∧ (buyRules cfg ι id alone).guar i s t ∧
      (buyRules cfg ι id alone).rest i t := by
  obtain ⟨o, ho, hat⟩ := hi.ready hr.1 hr.2.1 hr.2.2
  exact ⟨(s.1, none), rfl, ⟨⟨o, ho, hat.phase false⟩, hi.paid⟩,
    (buySection cfg ι id alone).guar_own (Or.inr hr.1) (Or.inl rfl) (.refl s.1)
      (notClaimed_others halone), fun h => by cases h⟩

/-- Before the swap the run that is inside does all the wallet work. -/
theorem outside_swap {β : Type} {op : Op β} {w : World} (ho : w.buyOrders.get id = some o)
    (hat : AtBroadcast id w o .swap) (hop : op.walletWork = true) : op.outside id w = false := by
  have hu := hat.unfiled
  have hst : o.status = .swapping := hat.status
  simp only [Op.outside, ho, Option.all_some, hu, Bool.not_true, Bool.false_or]
  cases op <;> first | (cases hop; done) | rfl | simp [hst]

theorem outside_send {w : World} {b : Broadcast} (ho : w.buyOrders.get id = some o)
    (hat : AtBroadcast id w o b) (sender : Address) (c : WalletCall) (purpose : Purpose) :
    (Op.sendWallet sender c purpose).outside id w = false := by
  have hu := hat.unfiled
  simp [Op.outside, ho, hu]

theorem mayKill_buyRuns {β : Type} {op : Op β}
    (h : (service cfg (buyRuns ι id alone)).mayKill i op ((buyRules cfg ι id alone).world s) =
      true) : (if alone then !op.filesOrderHash else op.outside id s.1) = true := by
  simp only [service, Bool.and_eq_true] at h
  exact h.2

/-- A run that is ready dies with nothing left unfiled, or it does not die here. -/
theorem BuyReady.settled {β : Type} {b : Broadcast} {op : Op β}
    (hop : ∀ w o, w.buyOrders.get id = some o → AtBroadcast id w o b →
      op.outside id w = false) :
    (buyRules cfg ι id alone).Settled i (BuyReady i id b) op := by
  intro s hi hr hkill _
  obtain ⟨o, ho, hat⟩ := BuyInv.ready hi hr.1 hr.2.1 hr.2.2
  have hmay := mayKill_buyRuns hkill
  cases ha : alone with
  | true => exact ⟨rfl, hat.orderFiled ho⟩
  | false =>
      rw [ha] at hmay
      exact absurd ((hop s.1 o ho hat).symm.trans hmay) (by decide)

/-- What a run knows between the broadcast and the filing of its hash. -/
def BuySent (i : ι) (id : ObjectId) (b : Broadcast) (h : Hash) : World × Option ι → Prop :=
  Section.Inside i fun w => ∃ tx, w.sentUnfiled id b [tx] ∧ tx.hash = h

theorem BuySent.stable (b : Broadcast) (h : Hash) :
    (buyRules cfg ι id alone).Stable i (BuySent i id b h) :=
  Section.Inside.stable fun _ _ _ hm hw => by
    obtain ⟨tx, hs, hh⟩ := hw
    exact ⟨tx, World.sentUnfiled_mine hm hs, hh⟩

/-- What was sent stands alone, so the order is just past its broadcast. -/
theorem BuyInv.sent {b : Broadcast} {h : Hash} (hi : BuyInv id alone s) (hs : BuySent i id b h s) :
    ∃ o, s.1.buyOrders.get id = some o ∧ o.status = b.claimed ∧ o.unfiled = true ∧
      o.Kept ((b.file h).apply o) ∧
      OrderPhase id (s.1.setBuyOrder id (b.file h)) ((b.file h).apply o) false := by
  obtain ⟨hin, tx, ⟨o, ho, hh, ht⟩, rfl⟩ := hs
  obtain ⟨o', ho', hphase⟩ := hi.row
  cases ho.symm.trans ho'
  refine ⟨o, ho, ?_⟩
  cases b with
  | swap =>
      have hnone : o.swapTxHash = none := hh
      have hone : s.1.sentFor (.orderSwap id) = [tx] := ht
      cases hphase with
      | unswapped _ _ swaps _ _ _ => simp [hone] at swaps
      | swapSent tx' swap burn swaps burns status claimed =>
          cases hone.symm.trans swaps
          refine ⟨status, by simp [BuyOrderDoc.unfiled, status, swap], ⟨?_, ?_, ?_, ?_⟩, ?_⟩
          · intro b h hb
            cases b with
            | swap => exact absurd (swap.symm.trans hb) (by simp)
            | burn => exact absurd (burn.symm.trans hb) (by simp)
          · exact fun _ => Or.inl (by simp [Broadcast.file, BuyOrderSet.apply])
          · intro hr
            simp [BuyOrderDoc.burnRefused, burn, status] at hr
          · intro hc
            simp [BuyOrderDoc.closed, status] at hc
          · exact .swapped tx rfl burn swaps burns (Or.inl status) fun h => by cases h
      | swapped _ swap _ _ _ _ _ => simp [hnone] at swap
      | burnSent _ _ swap _ _ _ _ _ _ => simp [hnone] at swap
      | burned _ _ swap _ _ _ _ _ _ => simp [hnone] at swap
  | burn =>
      have hnone : o.burnTxHash = none := hh
      have hone : s.1.sentFor (.orderBurn id) = [tx] := ht
      cases hphase with
      | unswapped _ _ _ burns _ _ => simp [hone] at burns
      | swapSent _ _ _ _ burns _ _ => simp [hone] at burns
      | swapped _ _ _ _ burns _ _ => simp [hone] at burns
      | burnSent tx' burnTx swap burn swaps burns success status claimed =>
          cases hone.symm.trans burns
          refine ⟨status, by simp [BuyOrderDoc.unfiled, status, burn], ⟨?_, ?_, ?_, ?_⟩, ?_⟩
          · intro b h hb
            cases b with
            | swap => exact hb
            | burn => exact absurd (burn.symm.trans hb) (by simp)
          · exact fun _ => Or.inl (by simp [Broadcast.file, BuyOrderSet.apply, swap])
          · exact fun _ => Or.inl (by simp [Broadcast.file, BuyOrderSet.apply])
          · intro hc
            simp [BuyOrderDoc.closed, status] at hc
          · exact .burned tx' tx swap rfl swaps burns success (Or.inl status) rfl
      | burned _ _ _ burn _ _ _ _ _ => simp [hnone] at burn

/-- A row with the status and hashes of another is as far. -/
theorem OrderPhase.congr {w : World} {o' : BuyOrderDoc} {inside : Bool}
    (h : OrderPhase id w o inside) (hst : o'.status = o.status)
    (hs : o'.swapTxHash = o.swapTxHash) (hb : o'.burnTxHash = o.burnTxHash) :
    OrderPhase id w o' inside := by
  cases h with
  | unswapped swap burn swaps burns status claimed =>
      exact .unswapped (hs.trans swap) (hb.trans burn) swaps burns (hst ▸ status)
        fun h => hst.trans (claimed h)
  | swapSent tx swap burn swaps burns status claimed =>
      exact .swapSent tx (hs.trans swap) (hb.trans burn) swaps burns (hst.trans status) claimed
  | swapped tx swap burn swaps burns status claimed =>
      exact .swapped tx (hs.trans swap) (hb.trans burn) swaps burns (hst ▸ status)
        fun h => hst.trans (claimed h)
  | burnSent tx burnTx swap burn swaps burns success status claimed =>
      exact .burnSent tx burnTx (hs.trans swap) (hb.trans burn) swaps burns success
        (hst.trans status) claimed
  | burned tx burnTx swap burn swaps burns success status unclaimed =>
      exact .burned tx burnTx (hs.trans swap) (hb.trans burn) swaps burns success
        (hst ▸ status) unclaimed

/-- The claim cannot take the row any more. -/
def Broadcast.refused (alone : Bool) : Broadcast → BuyOrderDoc → Prop
  | .swap, o => o.swapRefused ∨ alone = true ∧ o.status ≠ .swapping
  | .burn, o => o.burnRefused

/-- What a run knows of the row as it read it before the claim. -/
def BuySeen (cfg : Config) (i : ι) (id : ObjectId) (alone : Bool) (b : Broadcast) (o : BuyOrderDoc) :
    World × Option ι → Prop :=
  (buySection cfg ι id alone).Known i fun w => o.id = id ∧ (∀ h, b.hash o = some h → w.onFile id b h) ∧
    (b = .burn → w.swapDone id)

def BuyRefused (cfg : Config) (i : ι) (id : ObjectId) (alone : Bool) (b : Broadcast) : World × Option ι → Prop :=
  (buySection cfg ι id alone).Known i fun w => ∃ o, w.buyOrders.get id = some o ∧ b.refused alone o

def BuyFiled (cfg : Config) (i : ι) (id : ObjectId) (alone : Bool) (b : Broadcast) (h : Hash) :
    World × Option ι → Prop :=
  (buySection cfg ι id alone).Known i (World.onFile id b h)

def BuyMined (cfg : Config) (i : ι) (id : ObjectId) (alone : Bool) (b : Broadcast) (h : Hash) (r : Receipt) :
    World × Option ι → Prop :=
  (buySection cfg ι id alone).Known i fun w => w.onFile id b h ∧ w.base.receipts h = some r

theorem BuySeen.stable (b : Broadcast) (o : BuyOrderDoc) :
    (buyRules cfg ι id alone).Stable i (BuySeen cfg i id alone b o) :=
  Section.Known.stable fun _ _ hk _ h => ⟨h.1, fun x hx => World.onFile_kept hk (h.2.1 x hx),
    fun hb => World.swapDone_kept hk (h.2.2 hb)⟩

theorem BuyRefused.stable (b : Broadcast) :
    (buyRules cfg ι id alone).Stable i (BuyRefused cfg i id alone b) := by
  refine Section.Known.stable fun v w hk hn h => ?_
  obtain ⟨o, ho, href⟩ := h
  obtain ⟨o', ho', hkept⟩ := hk.row o ho
  cases b with
  | burn => exact ⟨o', ho', hkept.burnRefused href⟩
  | swap =>
      cases href with
      | inl href => exact ⟨o', ho', Or.inl (hkept.swapRefused href)⟩
      | inr href =>
          obtain ⟨o'', ho'', hst⟩ := hn href.1 o ho href.2
          exact ⟨o'', ho'', Or.inr ⟨href.1, hst⟩⟩

theorem BuyFiled.stable (b : Broadcast) (h : Hash) :
    (buyRules cfg ι id alone).Stable i (BuyFiled cfg i id alone b h) :=
  Section.Known.stable fun _ _ hk _ h => World.onFile_kept hk h

theorem BuyMined.stable (b : Broadcast) (h : Hash) (r : Receipt) :
    (buyRules cfg ι id alone).Stable i (BuyMined cfg i id alone b h r) :=
  Section.Known.stable fun _ _ hk _ h => ⟨World.onFile_kept hk h.1, hk.receipts _ _ h.2⟩

/-- A run that may claim the row is alone with it, unless it is a claim of a row that is
claimed already. -/
theorem BuyInv.free (hi : BuyInv id alone s) {b : Broadcast}
    (ho : s.1.buyOrders.get id = some o) (hc : b.claimable o = true)
    (hperm : o.status = b.claimed → o.unfiled = true → s.2 = none ∨ s.2 = some i) :
    s.2 = none ∨ s.2 = some i := by
  obtain ⟨o', ho', hphase⟩ := hi.row
  cases ho.symm.trans ho'
  have hout : s.2.isSome = false → s.2 = none := fun h => by
    rwa [Option.isSome_eq_false_iff, Option.isNone_iff_eq_none] at h
  cases b with
  | swap =>
      simp only [Broadcast.claimable, swapClaimable, Bool.and_eq_true, Bool.or_eq_true,
        beq_iff_eq] at hc
      obtain ⟨hst, hnone⟩ := hc
      cases hst with
      | inr hst => exact hperm hst (by simp [BuyOrderDoc.unfiled, hst, hnone])
      | inl hst =>
          refine Or.inl (hout (Bool.eq_false_iff.mpr ?_))
          intro hin
          cases hphase with
          | unswapped _ _ _ _ _ claimed => simp [hst] at claimed; simp [claimed] at hin
          | swapSent _ _ _ _ _ status _ => simp [hst] at status
          | swapped _ swap _ _ _ _ _ => simp [hnone] at swap
          | burnSent _ _ swap _ _ _ _ _ _ => simp [hnone] at swap
          | burned _ _ swap _ _ _ _ _ _ => simp [hnone] at swap
  | burn =>
      simp only [Broadcast.claimable, burnClaimable, Bool.and_eq_true, Bool.or_eq_true,
        beq_iff_eq, bne_iff_ne] at hc
      obtain ⟨⟨hst, hnone⟩, hswap⟩ := hc
      cases hst with
      | inr hst => exact hperm hst (by simp [BuyOrderDoc.unfiled, hst, hnone])
      | inl hst =>
          refine Or.inl (hout (Bool.eq_false_iff.mpr ?_))
          intro hin
          cases hphase with
          | unswapped swap _ _ _ _ _ => exact hswap swap
          | swapSent _ swap _ _ _ _ _ => exact hswap swap
          | swapped _ _ _ _ _ _ claimed => simp [hst] at claimed; simp [claimed] at hin
          | burnSent _ _ _ _ _ _ _ status _ => simp [hst] at status
          | burned _ _ _ burn _ _ _ _ _ => simp [hnone] at burn

/-- A claimed order is ready for its broadcast. -/
theorem BuyInv.claim (hi : BuyInv id alone s) {b : Broadcast}
    (ho : s.1.buyOrders.get id = some o) (hc : b.claimable o = true)
    (hs : s.2 = none ∨ s.2 = some i) (hrest : s.2 = some i → alone = true ∧ s.1.orderFiled id)
    (hdone : b = .burn → s.1.swapDone id) :
    o.Kept { o with status := b.claimed } ∧
      AtBroadcast id s.1 { o with status := b.claimed } b := by
  obtain ⟨o', ho', hphase⟩ := hi.row
  cases ho.symm.trans ho'
  have hfiled : s.2.isSome = true → s.1.orderFiled id := by
    intro hin
    cases hs with
    | inl hs =>
        rw [hs] at hin
        cases hin
    | inr hs => exact (hrest hs).2
  cases b with
  | swap =>
      simp only [Broadcast.claimable, swapClaimable, Bool.and_eq_true, Bool.or_eq_true,
        beq_iff_eq] at hc
      obtain ⟨hst, hnone⟩ := hc
      have hkept : o.burnTxHash = none → o.Kept { o with status := .swapping } := by
        intro hburn
        refine ⟨fun b _ h => (b.hash_status o _).trans h, ?_, ?_, ?_⟩
        · intro hr
          cases hst with
          | inl hst => simp [BuyOrderDoc.swapRefused, hnone, hst] at hr
          | inr hst => simp [BuyOrderDoc.swapRefused, hnone, hst] at hr
        · intro hr
          cases hst with
          | inl hst => simp [BuyOrderDoc.burnRefused, hburn, hst] at hr
          | inr hst => simp [BuyOrderDoc.burnRefused, hburn, hst] at hr
        · intro hcl
          cases hst with
          | inl hst => simp [BuyOrderDoc.closed, hst] at hcl
          | inr hst => simp [BuyOrderDoc.closed, hst] at hcl
      cases hphase with
      | unswapped swap burn swaps burns _ _ =>
          exact ⟨hkept burn, .swap swap burn swaps burns rfl⟩
      | swapSent _ swap _ swaps _ _ claimed =>
          obtain ⟨o', ho', hempty⟩ := hfiled claimed
          cases ho.symm.trans ho'
          exact absurd (swaps.symm.trans (hempty .swap swap)) (by simp)
      | swapped _ swap _ _ _ _ _ => simp [hnone] at swap
      | burnSent _ _ swap _ _ _ _ _ _ => simp [hnone] at swap
      | burned _ _ swap _ _ _ _ _ _ => simp [hnone] at swap
  | burn =>
      simp only [Broadcast.claimable, burnClaimable, Bool.and_eq_true, Bool.or_eq_true,
        beq_iff_eq, bne_iff_ne] at hc
      obtain ⟨⟨hst, hnone⟩, hswap⟩ := hc
      have hkept : o.Kept { o with status := .burning } := by
        refine ⟨fun b _ h => (b.hash_status o _).trans h, fun _ => Or.inl hswap, ?_, ?_⟩
        · intro hr
          cases hst with
          | inl hst => simp [BuyOrderDoc.burnRefused, hnone, hst] at hr
          | inr hst => simp [BuyOrderDoc.burnRefused, hnone, hst] at hr
        · intro hcl
          cases hst with
          | inl hst => simp [BuyOrderDoc.closed, hst] at hcl
          | inr hst => simp [BuyOrderDoc.closed, hst] at hcl
      cases hphase with
      | unswapped swap _ _ _ _ _ => exact absurd swap hswap
      | swapSent _ swap _ _ _ _ _ => exact absurd swap hswap
      | swapped tx swap burn swaps burns _ _ =>
          obtain ⟨h, ⟨o', ho', hh⟩, hgood⟩ := hdone rfl
          cases ho.symm.trans ho'
          cases swap.symm.trans hh
          exact ⟨hkept, .burn tx swap burn swaps burns hgood rfl⟩
      | burnSent _ _ _ burn _ burns _ _ claimed =>
          obtain ⟨o', ho', hempty⟩ := hfiled claimed
          cases ho.symm.trans ho'
          exact absurd (burns.symm.trans (hempty .burn burn)) (by simp)
      | burned _ _ _ burn _ _ _ _ _ => simp [hnone] at burn

/-- A row that a claim has refused stays refused. -/
theorem BuyInv.refuse (hi : BuyInv id alone s) {b : Broadcast}
    (ho : s.1.buyOrders.get id = some o) (hc : b.claimable o = false)
    (hdone : b = .burn → s.1.swapDone id) : b.refused alone o := by
  cases b with
  | swap =>
      by_cases hnone : o.swapTxHash = none
      · simp only [Broadcast.claimable, swapClaimable, hnone, BEq.rfl, Bool.and_true,
          Bool.or_eq_false_iff, beq_eq_false_iff_ne] at hc
        cases ha : alone with
        | true => exact Or.inr ⟨rfl, hc.2⟩
        | false => exact Or.inl (Or.inr ⟨hi.paid ha o ho, hc.1, hc.2⟩)
      · exact Or.inl (Or.inl hnone)
  | burn =>
      by_cases hnone : o.burnTxHash = none
      · obtain ⟨h, ⟨o', ho', hh⟩, _⟩ := hdone rfl
        cases ho.symm.trans ho'
        have hswap : o.swapTxHash = some h := hh
        simp only [Broadcast.claimable, burnClaimable, hnone, hswap, BEq.rfl, Bool.and_true,
          bne_iff_ne, ne_eq, reduceCtorEq, not_false_eq_true, Bool.and_eq_false_iff,
          Bool.or_eq_false_iff, beq_eq_false_iff_ne] at hc
        have hst := hc.resolve_right (by simp)
        obtain ⟨o', ho', hphase⟩ := hi.row
        cases ho.symm.trans ho'
        cases hphase with
        | unswapped swap _ _ _ _ _ => simp [hswap] at swap
        | swapSent _ swap _ _ _ _ _ => simp [hswap] at swap
        | swapped _ _ _ _ _ status _ =>
            refine Or.inr ?_
            cases status with
            | inl h => exact absurd h hst.1
            | inr h =>
                cases h with
                | inl h => exact absurd h.1 hst.2
                | inr h => exact h.1
        | burnSent _ _ _ _ _ _ _ status _ => exact absurd status hst.2
        | burned _ _ _ burn _ _ _ _ _ => simp [hnone] at burn
      · exact Or.inl hnone

/-- A broadcast on file whose transaction reverted has not gone on. -/
theorem BuyInv.fail (hi : BuyInv id alone s) {b : Broadcast} {h : Hash} {r : Receipt}
    {message : String} (hf : s.1.onFile id b h) (hr : s.1.base.receipts h = some r)
    (hbad : r.success = false) :
    s.2 = none ∧ ∃ o, s.1.buyOrders.get id = some o ∧
      o.Kept { o with status := .failed, errorMessage := some message } ∧
      OrderPhase id s.1 { o with status := .failed, errorMessage := some message } false := by
  have hrev : s.1.reverted h := ⟨r, hr, hbad⟩
  obtain ⟨o, ho, hh⟩ := hf
  obtain ⟨o', ho', hphase⟩ := hi.row
  cases ho.symm.trans ho'
  have hout : s.2.isSome = false → s.2 = none := fun h => by
    rwa [Option.isSome_eq_false_iff, Option.isNone_iff_eq_none] at h
  have hkept : o.swapTxHash ≠ none →
      o.Kept { o with status := .failed, errorMessage := some message } := by
    refine fun hs => ⟨?_, fun _ => Or.inl hs, fun _ => Or.inr rfl, fun _ => rfl⟩
    intro b _ h
    cases b with
    | swap => exact h
    | burn => exact h
  cases b with
  | swap =>
      have hswap : o.swapTxHash = some h := hh
      cases hphase with
      | unswapped swap _ _ _ _ _ => simp [hswap] at swap
      | swapSent _ swap _ _ _ _ _ => simp [hswap] at swap
      | swapped tx swap burn swaps burns status claimed =>
          cases hswap.symm.trans swap
          refine ⟨hout (Bool.eq_false_iff.mpr ?_), o, ho, hkept (by simp [swap]),
            .swapped tx swap burn swaps burns (Or.inr (Or.inr ⟨rfl, hrev⟩)) fun h => by cases h⟩
          intro hin
          have hst := claimed hin
          rw [hst] at status
          refine World.reverted_not_succeeded hrev ?_
          cases status with
          | inl h => cases h
          | inr h =>
              cases h with
              | inl h => exact h.2
              | inr h => cases h.1
      | burnSent _ _ swap _ _ _ success _ _ =>
          cases hswap.symm.trans swap
          exact absurd success (World.reverted_not_succeeded hrev)
      | burned _ _ swap _ _ _ success _ _ =>
          cases hswap.symm.trans swap
          exact absurd success (World.reverted_not_succeeded hrev)
  | burn =>
      have hburn : o.burnTxHash = some h := hh
      cases hphase with
      | unswapped _ burn _ _ _ _ => simp [hburn] at burn
      | swapSent _ _ burn _ _ _ _ => simp [hburn] at burn
      | swapped _ _ burn _ _ _ _ => simp [hburn] at burn
      | burnSent _ _ _ burn _ _ _ _ _ => simp [hburn] at burn
      | burned tx burnTx swap burn swaps burns success _ unclaimed =>
          cases hburn.symm.trans burn
          exact ⟨hout unclaimed, o, ho, hkept (by simp [swap]),
            .burned tx burnTx swap burn swaps burns success
              (Or.inr (Or.inr (Or.inr ⟨rfl, hrev⟩))) rfl⟩

theorem BuyInv.deliver (hi : BuyInv id alone s) {h : Hash} {r : Receipt}
    (hf : s.1.onFile id .burn h) (hr : s.1.base.receipts h = some r)
    (hgood : r.success = true) :
    s.2 = none ∧ ∃ o, s.1.buyOrders.get id = some o ∧
      o.Kept { o with status := .delivering } ∧
      OrderPhase id s.1 { o with status := .delivering } false := by
  have hsuc : s.1.succeeded h := ⟨r, hr, hgood⟩
  obtain ⟨o, ho, hh⟩ := hf
  have hburn : o.burnTxHash = some h := hh
  obtain ⟨o', ho', hphase⟩ := hi.row
  cases ho.symm.trans ho'
  cases hphase with
  | unswapped _ burn _ _ _ _ => simp [hburn] at burn
  | swapSent _ _ burn _ _ _ _ => simp [hburn] at burn
  | swapped _ _ burn _ _ _ _ => simp [hburn] at burn
  | burnSent _ _ _ burn _ _ _ _ _ => simp [hburn] at burn
  | burned tx burnTx swap burn swaps burns success status unclaimed =>
      cases hburn.symm.trans burn
      rw [Option.isSome_eq_false_iff, Option.isNone_iff_eq_none] at unclaimed
      refine ⟨unclaimed, o, ho, ⟨fun b _ h => (b.hash_status o _).trans h,
        fun _ => Or.inl (by simp [swap]), fun _ => Or.inl (by simp [burn]), ?_⟩,
        .burned tx burnTx swap burn swaps burns success (Or.inr (Or.inr (Or.inl ⟨rfl, hsuc⟩)))
          rfl⟩
      intro hc
      cases status with
      | inl h => simp [BuyOrderDoc.closed, h] at hc
      | inr h =>
          cases h with
          | inl h => simp [BuyOrderDoc.closed, h] at hc
          | inr h =>
              cases h with
              | inl h => simp [BuyOrderDoc.closed, h.1] at hc
              | inr h => exact absurd hsuc (World.reverted_not_succeeded h.2)

/-- The row of the order is rewritten as it may be while nobody is inside. -/
theorem BuyInv.set (cfg : Config) (halone : alone = true → Subsingleton ι) (hi : BuyInv id alone s)
    {u : BuyOrderSet} {t : Option ι} (hs : s.2 = none ∨ s.2 = some i)
    (ht : t = none ∨ t = some i) (ho : s.1.buyOrders.get id = some o)
    (hk : o.Kept (u.apply o)) (hphase : OrderPhase id s.1 (u.apply o) t.isSome)
    (hpaid : u.status ≠ some .awaitingPayment) :
    BuyInv id alone (s.1.setBuyOrder id u, t) ∧
      (buyRules cfg ι id alone).guar i s (s.1.setBuyOrder id u, t) := by
  have hrow := World.get_setBuyOrder ho u
  refine ⟨⟨⟨_, hrow, hphase.mono rfl fun _ _ h => h⟩, ?_⟩,
    (buySection cfg ι id alone).guar_own hs ht (.set ho hk) (notClaimed_others halone)⟩
  intro ha o' ho'
  cases hrow.symm.trans ho'
  have hold := hi.paid ha o ho
  cases hu : u.status with
  | none => simpa [BuyOrderSet.apply, hu] using hold
  | some status =>
      rw [hu] at hpaid
      simpa [BuyOrderSet.apply, hu] using hpaid

theorem buyStage_claim (halone : alone = true → Subsingleton ι) (b : Broadcast)
    (o : BuyOrderDoc) :
    (buyRules cfg ι id alone).Performs i (BuySeen cfg i id alone b o)
      (.buyOrder (.findOneAndUpdate (fun o => o.id == id && b.claimable o) none
        { status := some b.claimed }))
      (Answered (Found (fun o s => o.id = id ∧ b.hash o = none ∧ o.status = b.claimed ∧
        BuyReady i id b s) (BuyRefused cfg i id alone b))
        ((buyRules cfg ι id alone).rest i)) := by
  refine BuyOrder.performs_claim ?_ ?_ fun _ _ hs => hs.1
  · intro s o hi hs hperm ho hc
    have hfree : s.2 = none ∨ s.2 = some i := by
      refine BuyInv.free hi ho hc fun hst hu => hperm ?_
      change (s.1.buyOrders.get id).any _ = true
      rw [show s.1.buyOrders.get id = some o from ho]
      simp [hst, hu]
    obtain ⟨hk, hat⟩ := BuyInv.claim hi ho hc hfree hs.1 hs.2.2.2
    have hpaid : (some b.claimed : Option BuyOrderStatus) ≠ some .awaitingPayment := by
      cases b <;> simp [Broadcast.claimed]
    obtain ⟨hit, hg⟩ := BuyInv.set (u := { status := some b.claimed }) cfg halone hi
      hfree (Or.inr rfl) ho hk (hat.phase _) hpaid
    have hready := hat.ready (v := s.1.setBuyOrder id { status := some b.claimed })
      (World.get_setBuyOrder ho _) rfl
    refine ⟨⟨_, rfl, hit, hg, Collection.get_id ho, ?_, rfl, rfl, hready⟩, ?_⟩
    · obtain ⟨o', ho', hh, _⟩ := hready.1
      cases (World.get_setBuyOrder ho _).symm.trans ho'
      exact hh
    · obtain ⟨hit, hg⟩ := BuyInv.set (u := { status := some b.claimed }) cfg halone hi
        hfree (Or.inl rfl) ho hk (hat.phase _) hpaid
      exact ⟨_, rfl, hit, hg, fun h => by cases h⟩
  · intro s hi hs hnone
    refine ⟨hs.1, ?_⟩
    obtain ⟨o, ho, _⟩ := hi.row
    refine ⟨o, ho, BuyInv.refuse hi ho ?_ hs.2.2.2⟩
    have hnone : (s.1.buyOrders.get id).filter b.claimable = none := hnone
    simpa [Option.filter, ho] using hnone

theorem buyStage_broadcast (halone : alone = true → Subsingleton ι) (b : Broadcast)
    (sender : Address) (c : WalletCall) :
    (buyRules cfg ι id alone).Performs i (BuyReady i id b)
      (.sendWallet sender c (b.purpose id))
      (Answered (BuySent i id b) ((buyRules cfg ι id alone).rest i)) := by
  refine performs_sendWallet ?_ fun s hi hr => BuyReady.release halone hi hr
  intro s out hi hr hmay
  have hlost : out.isLost = false := by
    have hmay : ((b.purpose id == Purpose.setup) || !out.isLost) = true := hmay
    cases b <;> simpa [Broadcast.purpose] using hmay
  obtain ⟨o, ho, hat⟩ := BuyInv.ready hi hr.1 hr.2.1 hr.2.2
  have hin : s.2.isSome = true := by rw [hr.1]; rfl
  refine ⟨(s.1.sendWallet sender c (b.purpose id), s.2), rfl,
    ⟨⟨o, ho, hin ▸ hat.send sender c⟩, hi.paid⟩,
    (buySection cfg ι id alone).guar_own (Or.inr hr.1) (Or.inr hr.1) (.send ho hat.not_closed)
      (notClaimed_others halone), fun _ => ?_, fun h => ?_⟩
  · obtain ⟨o', ho', hh, hempty⟩ := hr.2.1
    exact ⟨hr.1, _, ⟨o', ho', hh, World.sentFor_sendWallet _ sender c hempty⟩, rfl⟩
  · rw [hlost] at h
    cases h

theorem buyStage_persist (halone : alone = true → Subsingleton ι) (b : Broadcast) (h : Hash) :
    (buyRules cfg ι id alone).Performs i (BuySent i id b h)
      (.buyOrder (.updateOne (fun o => o.id == id && true) (b.file h)))
      (Answered (fun _ => BuyFiled cfg i id alone b h) ((buyRules cfg ι id alone).rest i)) := by
  refine BuyOrder.performs_updateById ?_ ?_
  · intro s hi hs
    obtain ⟨o, ho, _, _, hk, hphase⟩ := BuyInv.sent hi hs
    have hpaid : (b.file h).status ≠ some .awaitingPayment := by
      cases b <;> simp [Broadcast.file]
    obtain ⟨hit, hg⟩ := BuyInv.set (u := b.file h) cfg halone hi (Or.inr hs.1) (Or.inl rfl) ho hk
      (hphase.mono rfl fun _ _ h => h) hpaid
    have hrest : (buyRules cfg ι id alone).rest i (s.1.setBuyOrder id (b.file h), none) :=
      fun h => by cases h
    refine ⟨_, rfl, hit, hg, ⟨hrest, _, World.get_setBuyOrder ho _, ?_⟩, hrest⟩
    cases b <;> rfl
  · intro s e _ _ hmay
    have hmay : (!(Op.buyOrder (.updateOne (fun o => o.id == id && true) (b.file h)) :
        Op Unit).filesOrderHash || (Outcome.isDone (.fail e : Outcome))) = true := hmay
    cases b <;> cases hmay

/-- A run does not die where it is to file the hash of a broadcast. -/
theorem BuySent.settled (b : Broadcast) (h : Hash) :
    (buyRules cfg ι id alone).Settled i (BuySent i id b h)
      (.buyOrder (.updateOne (fun o => o.id == id && true) (b.file h)) : Op Unit) := by
  intro s hi hs hkill
  obtain ⟨o, ho, hst, hu, _⟩ := BuyInv.sent hi hs
  have hmay := mayKill_buyRuns hkill
  cases ha : alone with
  | true =>
      rw [ha] at hmay
      cases b <;> cases hmay
  | false =>
      rw [ha] at hmay
      cases b <;> simp [Op.outside, ho, hu, hst, Broadcast.claimed, Broadcast.file] at hmay

/-- The stages of both broadcasts. -/
def buyStage (cfg : Config) (halone : alone = true → Subsingleton ι) (i : ι) (b : Broadcast) :
    OrderStage (buyRules cfg ι id alone) i id b where
  seen := BuySeen cfg i id alone b
  refused := BuyRefused cfg i id alone b
  ready := BuyReady i id b
  sent := BuySent i id b
  filed := BuyFiled cfg i id alone b
  mined := BuyMined cfg i id alone b
  seen_stable := BuySeen.stable b
  refused_stable := BuyRefused.stable b
  ready_stable := BuyReady.stable b
  sent_stable := BuySent.stable b
  filed_stable := BuyFiled.stable b
  mined_stable := BuyMined.stable b
  seen_rest _ _ _ h := h.1
  refused_rest _ _ h := h.1
  filed_rest _ _ _ h := h.1
  mined_rest _ _ _ _ h := h.1
  ready_settled sender c := BuyReady.settled fun _ _ ho hat => outside_send ho hat sender c _
  sent_settled := BuySent.settled b
  seen_id _ _ _ h := h.2.1
  resume _ h _ _ hs hh := ⟨hs.1, hs.2.2.1 h hh⟩
  claim o _ := buyStage_claim halone b o
  reread := by
    refine BuyOrder.performs_findById ?_ fun _ _ hs => hs.1
    intro s hi hs
    obtain ⟨o, ho, href⟩ := hs.2
    change Found _ _ (s.1.buyOrders.get id) s
    rw [ho]
    refine ⟨Collection.get_id ho, fun h hh => ⟨hs.1, o, ho, hh⟩, ?_, hs.1⟩
    intro hnone hst
    cases b with
    | swap =>
        cases href with
        | inl href =>
            cases href with
            | inl href => exact href hnone
            | inr href => exact href.2.2 hst
        | inr href => exact href.2 hst
    | burn =>
        cases href with
        | inl href => exact href hnone
        | inr href => simp [href, Broadcast.claimed] at hst
  broadcast := buyStage_broadcast halone b
  persist := buyStage_persist halone b
  receipt h := performs_waitForTransactionReceipt
    (fun _ _ _ hs hr => ⟨hs.1, hs.2, hr⟩) fun _ _ hs => hs.1
  revert h r message hr := by
    refine BuyOrder.performs_updateById ?_ fun _ _ _ hs _ => hs.1
    intro s hi hs
    obtain ⟨hnone, o, ho, hk, hphase⟩ := BuyInv.fail hi hs.2.1 hs.2.2 hr
    obtain ⟨hit, hg⟩ := BuyInv.set
      (u := { status := some .failed, errorMessage := some message }) cfg halone hi
      (Or.inl hnone) (Or.inl rfl) ho hk hphase (by simp)
    exact ⟨_, rfl, hit, hg, fun h => (by cases h), fun h => by cases h⟩

theorem buyOutline_setup (halone : alone = true → Subsingleton ι) (sender : Address)
    (c : WalletCall) :
    (buyRules cfg ι id alone).Performs i (BuyReady i id .swap) (.sendWallet sender c .setup)
      (Answered (fun _ => BuyReady i id .swap) ((buyRules cfg ι id alone).rest i)) := by
  refine performs_sendWallet ?_ fun s hi hr => BuyReady.release halone hi hr
  intro s out hi hr _
  obtain ⟨o, ho, hat⟩ := BuyInv.ready hi hr.1 hr.2.1 hr.2.2
  have hat' := hat.setup sender c
  have hgo : ∀ {t : Option ι}, t = none ∨ t = some i →
      BuyInv id alone (s.1.sendWallet sender c .setup, t) ∧
        (buyRules cfg ι id alone).guar i s (s.1.sendWallet sender c .setup, t) :=
    fun ht => ⟨⟨⟨o, ho, hat'.phase _⟩, hi.paid⟩,
      (buySection cfg ι id alone).guar_own (Or.inr hr.1) ht (.send ho hat.not_closed)
        (notClaimed_others halone)⟩
  cases out with
  | done | fail _ =>
      obtain ⟨hit, hg⟩ := hgo (Or.inr rfl)
      exact ⟨_, rfl, hit, hg, fun _ => ⟨rfl, hat'.ready ho rfl⟩, fun h => by cases h⟩
  | lost _ =>
      obtain ⟨hit, hg⟩ := hgo (Or.inl rfl)
      exact ⟨_, rfl, hit, hg, fun h => (by cases h), fun _ h => by cases h⟩

/-- Nothing that counts for the order changes. -/
theorem BuyInv.aside (cfg : Config) (halone : alone = true → Subsingleton ι)
    (hi : BuyInv id alone s) {o o' : BuyOrderDoc} {w : World}
    (ho : s.1.buyOrders.get id = some o) (ho' : w.buyOrders.get id = some o')
    (hb : w.base = s.1.base) (hst : o'.status = o.status) (hs : o'.swapTxHash = o.swapTxHash)
    (hburn : o'.burnTxHash = o.burnTxHash) :
    BuyInv id alone (w, s.2) ∧ (buyRules cfg ι id alone).guar i s (w, s.2) ∧
      ((buyRules cfg ι id alone).rest i s → (buyRules cfg ι id alone).rest i (w, s.2)) := by
  have hhash : ∀ b : Broadcast, b.hash o' = b.hash o := by
    intro b
    cases b with
    | swap => exact hs
    | burn => exact hburn
  have hsent : ∀ p, w.sentFor p = s.1.sentFor p := fun p => by
    rw [World.sentFor, World.sentFor, hb]
  have hmine : OrderMine id s.1 w := by
    refine ⟨?_, fun _ => hsent _⟩
    intro e he
    cases ho.symm.trans he
    exact ⟨o', ho', hst, hhash⟩
  obtain ⟨e, he, hphase⟩ := hi.row
  cases ho.symm.trans he
  refine ⟨⟨⟨o', ho', ((hphase.congr hst hs hburn).mono (by rw [hb]) fun h r hr => ?_)⟩, ?_⟩,
    (buySection cfg ι id alone).guar_outside (fun _ _ => hmine) ⟨?_, ?_, ?_⟩
      (notClaimed_others halone), fun hr h => ⟨(hr h).1, hmine.orderFiled (hr h).2⟩⟩
  · rw [hb]
    exact hr
  · intro ha e he
    cases ho'.symm.trans he
    rw [hst]
    exact hi.paid ha o ho
  · intro e he
    cases ho.symm.trans he
    refine ⟨o', ho', fun b h hb => (hhash b).trans hb, ?_, ?_, ?_⟩
    · simp [BuyOrderDoc.swapRefused, hst, hs]
    · simp [BuyOrderDoc.burnRefused, hst, hburn]
    · simp [BuyOrderDoc.closed, hst]
  · intro h r hr
    rw [hb]
    exact hr
  · intro _ _ _
    rw [hb]

def buyOutline (cfg : Config) (halone : alone = true → Subsingleton ι) (i : ι) :
    BuyOutline (buyRules cfg ι id alone) i id where
  swap := buyStage cfg halone i .swap
  burn := buyStage cfg halone i .burn
  swapped := (buySection cfg ι id alone).Known i (World.swapDone id)
  swapped_stable := Section.Known.stable fun _ _ hk _ h => World.swapDone_kept hk h
  swapped_rest _ _ h := h.1
  work_settled _ hop := BuyReady.settled fun _ _ ho hat => outside_swap ho hat hop
  read := by
    refine BuyOrder.performs_findById ?_ fun _ _ hs => hs
    intro s hi hs
    obtain ⟨o, ho, _⟩ := hi.row
    change Found _ _ (s.1.buyOrders.get id) s
    rw [ho]
    exact ⟨hs, Collection.get_id ho, fun h hh => ⟨o, ho, hh⟩, fun h => by cases h⟩
  look op keep hop := by
    refine performs_readsChain hop ?_ fun s hi hr => BuyReady.release halone hi hr
    intro s x hi hr
    cases keep x with
    | true => exact ⟨s, rfl, hi, (buyRules cfg ι id alone).guar_refl i s, hr⟩
    | false => exact BuyReady.release halone hi hr
  setup := buyOutline_setup halone
  succeed h r _ _ hr hs := ⟨hs.1, h, hs.2.1, r, hs.2.2, hr⟩
  proceeds owner := performs_idle (fun _ => rfl) (fun _ _ _ hx => by cases hx; rfl)
    fun _ _ hs => hs.1
  recordOut n := by
    refine BuyOrder.performs_updateById ?_ fun _ _ _ hs _ => hs.1
    intro s hi hs
    obtain ⟨o, ho, _⟩ := hi.row
    obtain ⟨hit, hg, hrest⟩ := BuyInv.aside (i := i) cfg halone hi ho
      (World.get_setBuyOrder ho { swapWfairOut := some n }) rfl rfl rfl rfl
    exact ⟨_, rfl, hit, hg, ⟨hrest hs.1, World.swapDone_kept hg.1 hs.2⟩, hrest hs.1⟩
  reload := by
    refine BuyOrder.performs_findById ?_ fun _ _ hs => hs.1
    intro s hi hs
    obtain ⟨o, ho, _⟩ := hi.row
    change Found _ _ (s.1.buyOrders.get id) s
    rw [ho]
    exact ⟨hs.1, Collection.get_id ho, fun h hh => ⟨o, ho, hh⟩, fun _ => hs.2⟩
  deliver h r hr := by
    refine BuyOrder.performs_updateById ?_ fun _ _ _ hs _ => hs.1
    intro s hi hs
    obtain ⟨hnone, o, ho, hk, hphase⟩ := BuyInv.deliver hi hs.2.1 hs.2.2 hr
    obtain ⟨hit, hg⟩ := BuyInv.set (u := { status := some .delivering }) cfg halone hi
      (Or.inl hnone) (Or.inl rfl) ho hk hphase (by simp)
    exact ⟨_, rfl, hit, hg, fun h => (by cases h), fun h => by cases h⟩
  record entry := by
    refine performs_audit ?_
    intro s hi hs
    obtain ⟨o, ho, _⟩ := hi.row
    obtain ⟨hit, hg, hrest⟩ := BuyInv.aside (i := i) cfg halone hi ho
      (w := { s.1 with audit := s.1.audit ++ [entry] }) ho rfl rfl rfl rfl
    exact ⟨_, rfl, hit, hg, hrest hs⟩
  notify _ := performs_webhook fun _ _ h => h

theorem buy_starts (cfg : Config) (halone : alone = true → Subsingleton ι) :
    (buyRules cfg ι id alone).Starts := by
  intro i t s hi hs hready
  cases t with
  | processBuy buyOrderId =>
      have hid : buyOrderId = id := by
        simpa [service, buyRuns] using hready
      subst hid
      exact (buyOutline cfg halone i).processBuy s hi hs
  | _ => cases hready

/-- A quoted order for which nothing has been sent. -/
structure FreshOrder (w : World) (id : ObjectId) (o : BuyOrderDoc) : Prop where
  row : w.buyOrders.get id = some o
  swap : o.swapTxHash = none
  burn : o.burnTxHash = none
  swaps : w.sentFor (.orderSwap id) = []
  burns : w.sentFor (.orderBurn id) = []

theorem FreshOrder.good {w : World} (hnew : FreshOrder w id o)
    (hst : o.status = .paymentDetected ∨ alone = true ∧ o.status = .awaitingPayment) :
    (buyRules cfg ι id alone).Good (.init w) (w, none) := by
  refine .init rfl ⟨⟨o, hnew.row, .unswapped hnew.swap hnew.burn hnew.swaps hnew.burns ?_ ?_⟩, ?_⟩
    fun _ h => by cases h
  · cases hst with
    | inl h => simp [h]
    | inr h => simp [h.2]
  · intro h
    cases h
  · intro ha o' ho'
    cases hnew.row.symm.trans ho'
    cases hst with
    | inl h => simp [h]
    | inr h =>
        rw [ha] at h
        cases h.1

end Outline

/-- What an order may ever show: one swap, one burn, the burn after the recorded swap has
succeeded, and delivery after the recorded burn has. -/
structure OrderSafe (id : ObjectId) (w : World) : Prop where
  swaps : (w.sentFor (.orderSwap id)).length ≤ 1
  burns : (w.sentFor (.orderBurn id)).length ≤ 1
  burnAfterSwap : w.sentFor (.orderBurn id) ≠ [] →
    ∃ o h, w.buyOrders.get id = some o ∧ o.swapTxHash = some h ∧ w.succeeded h
  delivery : ∀ o, w.buyOrders.get id = some o → o.status = .delivering →
    ∃ h, o.burnTxHash = some h ∧ w.succeeded h
  failure : ∀ o, w.buyOrders.get id = some o → o.status = .failed →
    ¬ ((∃ tx ∈ w.sentFor (.orderSwap id), w.succeeded tx.hash) ∧
      ∃ tx ∈ w.sentFor (.orderBurn id), w.succeeded tx.hash)

theorem BuyInv.safe {s : World × Option ι} (hi : BuyInv id alone s) : OrderSafe id s.1 := by
  obtain ⟨o, ho, hphase⟩ := hi.row
  cases hphase with
  | unswapped swap burn swaps burns status claimed =>
      refine ⟨by simp [swaps], by simp [burns], fun h => absurd burns h, ?_, ?_⟩
      · intro o' ho' hst
        cases ho.symm.trans ho'
        exact absurd hst status.2.1
      · intro o' ho' hst h
        obtain ⟨⟨tx, htx, _⟩, _⟩ := h
        rw [swaps] at htx
        cases htx
  | swapSent tx swap burn swaps burns status claimed =>
      refine ⟨by simp [swaps], by simp [burns], fun h => absurd burns h, ?_, ?_⟩
      · intro o' ho' hst
        cases ho.symm.trans ho'
        simp [status] at hst
      · intro o' ho' hst
        cases ho.symm.trans ho'
        simp [status] at hst
  | swapped tx swap burn swaps burns status claimed =>
      refine ⟨by simp [swaps], by simp [burns], fun h => absurd burns h, ?_, ?_⟩
      · intro o' ho' hst
        cases ho.symm.trans ho'
        simp [hst] at status
      · intro o' ho' hst h
        obtain ⟨_, tx', htx, _⟩ := h
        rw [burns] at htx
        cases htx
  | burnSent tx burnTx swap burn swaps burns success status claimed =>
      refine ⟨by simp [swaps], by simp [burns], fun _ => ⟨o, tx.hash, ho, swap, success⟩, ?_, ?_⟩
      · intro o' ho' hst
        cases ho.symm.trans ho'
        simp [status] at hst
      · intro o' ho' hst
        cases ho.symm.trans ho'
        simp [status] at hst
  | burned tx burnTx swap burn swaps burns success status unclaimed =>
      refine ⟨by simp [swaps], by simp [burns], fun _ => ⟨o, tx.hash, ho, swap, success⟩, ?_, ?_⟩
      · intro o' ho' hst
        cases ho.symm.trans ho'
        simp only [hst, reduceCtorEq, false_and, true_and, false_or, or_false] at status
        exact ⟨burnTx.hash, burn, status⟩
      · intro o' ho' hst h
        cases ho.symm.trans ho'
        simp only [hst, reduceCtorEq, false_and, true_and, false_or] at status
        obtain ⟨_, tx', htx, hgood⟩ := h
        rw [burns, List.mem_singleton] at htx
        subst htx
        exact World.reverted_not_succeeded status hgood

/-- A run claims a row that is claimed already only while every other run has ended or is
at a request outside its own claimed section. -/
def claimsApart {ι : Type} (id : ObjectId) {β : Type} (p : Pool Op JsError World ι) (i : ι)
    (op : Op β) : Prop :=
  op.reclaims id p.world = true → ∀ j, j ≠ i → (p.slot j).Awaiting fun op =>
    op.synchronous = false ∧ op.outside id p.world = true

instance {β : Type} (id : ObjectId) (p : Pool Op JsError World Bool) (i : Bool) (op : Op β) :
    Decidable (claimsApart id p i op) :=
  inferInstanceAs (Decidable (op.reclaims id p.world = true → ∀ j, j ≠ i →
    (p.slot j).Awaiting fun op => op.synchronous = false ∧ op.outside id p.world = true))

/-- Overlapping runs do no more than that if none claims the paid order while another is
between its claim and the filing of its hash. -/
theorem overlapping_runs_send_once (cfg : Config) {ι : Type} [DecidableEq ι] (id : ObjectId)
    {w : World} {o : BuyOrderDoc} (hnew : FreshOrder w id o)
    (hst : o.status = .paymentDetected) {q : Pool Op JsError World ι}
    {es : List (Event JsError ι Task EnvEvent)}
    (hq : (service cfg (buyRuns ι id false)).exec (.init w) es = some q)
    (hes : (service cfg (buyRuns ι id false)).Along (claimsApart id) (.init w) es) :
    OrderSafe id q.world := by
  have hgood : (buyRules cfg ι id false).Good (.init w) (w, none) := hnew.good (Or.inl hst)
  have hpermits : ∀ {β : Type} p s i (op : Op β), (buyRules cfg ι id false).Good p s →
      claimsApart id p i op → (buyRules cfg ι id false).permits i op s := by
    intro β p s i op hp hc henters
    refine (buySection cfg ι id false).free (fun _ h => by cases h.1) hp fun j hj => ?_
    have hop : op.reclaims id p.world = true := by
      rw [← hp.world]
      exact henters
    have hawait := hc hop j hj
    cases hslot : p.slot j with
    | pure _ | throw _ => trivial
    | await op' k =>
        rw [hslot] at hawait
        have hout : op'.synchronous = false ∧ op'.outside id p.world = true := hawait
        simp [Program.Awaiting, service, buyRuns, hout]
  obtain ⟨t, ht, _⟩ := hgood.exec_along hpermits (buy_starts cfg fun h => by cases h) hq hes
  rw [← ht.world]
  exact BuyInv.safe ht.inv

namespace Sample

def buyConfig : Config := { config with deriveBuyPaymentKey := fun _ => .ok ⟨5⟩ }

/-- A paid order whose payment address holds 10 USDC, gas and an allowance. -/
def buyWorld : World where
  buyOrders := Collection.empty.insert 0
    { fairDestinationAddress := "fAddress", paymentAddress := some ⟨5⟩,
      paymentHdIndex := some 0, status := .paymentDetected }
  base := { tokens := {
    usdc := fun _ => 10
    eth := fun _ => 300000000000000
    allowance := fun _ => 10
    wfair := fun _ => 990
    quote := fun _ => some 1000 } }

end Sample

/-- Two runs that both read the order before either claims it both swap. -/
def overlappingBuys : List (Event JsError Bool Task EnvEvent) :=
  [.start true (.processBuy 0), .start false (.processBuy 0),
    .step true .done, .step false .done, .step true .done, .step false .done] ++
  List.flatten (List.replicate 5 [.step true .done, .step false .done])

theorem overlapping_buys_swap_twice : ∃ q,
    (service Sample.buyConfig (buyRuns Bool 0 false)).exec (.init Sample.buyWorld)
      overlappingBuys = some q ∧
    (q.world.sentFor (.orderSwap 0)).length = 2 := by
  have h : ((service Sample.buyConfig (buyRuns Bool 0 false)).exec (.init Sample.buyWorld)
      overlappingBuys).map (fun q => (q.world.sentFor (.orderSwap 0)).length) = some 2 := by
    decide +kernel
  obtain ⟨q, hq, hlen⟩ := Option.map_eq_some_iff.mp h
  exact ⟨q, hq, hlen⟩

theorem Sample.buyWorld_fresh : ∃ o, FreshOrder Sample.buyWorld 0 o ∧
    o.status = .paymentDetected :=
  ⟨_, ⟨rfl, rfl, rfl, rfl, rfl⟩, rfl⟩

/-- From the reading of the balance to the filing of the swap, its receipt, and on to the
filing of the burn, its receipt and the audit row. -/
def swapAndBurn {ι : Type} (i : ι) : List (Event JsError ι Task EnvEvent) :=
  List.replicate 6 (.step i .done) ++ [.env (.foreignReceipt ⟨0⟩ ⟨true, 1⟩)] ++
  List.replicate 7 (.step i .done) ++ [.env (.foreignReceipt ⟨1⟩ ⟨true, 2⟩)] ++
  List.replicate 3 (.step i .done)

/-- A run that dies after its claim, and the run that takes its place. -/
def resumedBuy : List (Event JsError Unit Task EnvEvent) :=
  [.start () (.processBuy 0), .step () .done, .step () .done, .step () .done, .kill (),
    .start () (.processBuy 0), .step () .done, .step () .done] ++ swapAndBurn ()

/-- Two runs that read the order together, one of which claims it once the other has
filed its swap. -/
def staggeredBuys : List (Event JsError Bool Task EnvEvent) :=
  [.start true (.processBuy 0), .start false (.processBuy 0),
    .step true .done, .step false .done, .step true .done] ++
  swapAndBurn true ++ [.step false .done, .step false .done]

theorem staggered_buys_send_once : ∃ q,
    (service Sample.buyConfig (buyRuns Bool 0 false)).exec (.init Sample.buyWorld)
      staggeredBuys = some q ∧
    (q.world.sentFor (.orderSwap 0)).length = 1 ∧ OrderSafe 0 q.world := by
  have h : ((service Sample.buyConfig (buyRuns Bool 0 false)).exec (.init Sample.buyWorld)
      staggeredBuys).map (fun q => (q.world.sentFor (.orderSwap 0)).length) = some 1 := by
    decide +kernel
  have hapart : (service Sample.buyConfig (buyRuns Bool 0 false)).Along (claimsApart 0)
      (.init Sample.buyWorld) staggeredBuys := by
    decide +kernel
  obtain ⟨q, hq, hlen⟩ := Option.map_eq_some_iff.mp h
  obtain ⟨o, hnew, hst⟩ := Sample.buyWorld_fresh
  exact ⟨q, hq, hlen, overlapping_runs_send_once Sample.buyConfig 0 hnew hst hq hapart⟩

end FairBridge

import FairBridge.Model.World

/-!
What happens around the service: time passes, the chains grow, transactions are
mined, users deposit and burn. Blocks, receipts and credits never change once
they are there.
-/

namespace FairBridge
open Store Async

def burned (logs : List Log) : Int :=
  (logs.map fun l => match l.burn with
    | some b => (b.amount : Int)
    | none => 0).sum

/-- How an order moves on while no run of its own is at work on it. -/
def BuyOrderDoc.movesTo (o : BuyOrderDoc) : BuyOrderStatus → Bool
  | .paymentDetected | .expired => o.status == .awaitingPayment
  | .delivered => o.burnTxHash.isSome && (o.status == .burning || o.status == .delivering)
  | _ => false

inductive EnvEvent where
  | wait (ms : Nat)
  | mine (hash : Hash) (success : Bool)
  | foreignReceipt (hash : Hash) (receipt : Receipt)
  | baseBlock (logs : List Log)
  | fairBlock (b : Block)
  | market (tokens : TokenState)
  | order (id : ObjectId) (status : BuyOrderStatus)
  | quote (o : BuyOrderDoc)
  | intent (baseAddress : Address) (fairAddress : String) (hdIndex : Nat)
      (clientIp : Option String)
  | transactionKnown (txid : Txid) (known : Bool)
  | credit (sats : Nat)
  | confirm (sats : Nat)
  | masternodes (list : List MasternodeListEntry)
  | abort
  | restart
  | serveFirst (first : Bool)

def EnvEvent.occur : EnvEvent → World → Option World
  | .wait ms, w => some { w with now := w.now + ms }
  | .mine hash success, w =>
      match w.base.txs.find? (fun tx => tx.hash == hash), w.base.receipts hash with
      | some tx, none => some { w with
          base := { w.base with
            totalSupply := w.base.totalSupply + if success then tx.call.amount else 0
            receipts := Function.update w.base.receipts hash
              (some ⟨success, w.base.tip⟩) }
          minedSinceRead := w.minedSinceRead.map fun hs => hs ++ [hash] }
      | _, _ => none
  | .foreignReceipt hash receipt, w =>
      match w.base.txs.find? (fun tx => tx.hash == hash), w.base.receipts hash with
      | none, none => some { w with base := { w.base with
          receipts := Function.update w.base.receipts hash (some receipt) } }
      | _, _ => none
  | .baseBlock logs, w =>
      -- mined logs carry their identifiers, and burns come out of the supply
      if (logs.all fun l => l.transactionHash.isSome && l.logIndex.isSome &&
            l.blockNumber == some (w.base.tip + 1)) && burned logs ≤ w.base.totalSupply then
        some { w with base := { w.base with
          blocks := w.base.blocks ++ [logs]
          totalSupply := w.base.totalSupply - burned logs } }
      else none
  | .fairBlock b, w =>
      if b.vouts.all fun v => decide (0 ≤ v.2.value) then
        some { w with fair := { w.fair with
          blocks := w.fair.blocks ++ [b]
          custodySats := w.fair.custodySats + w.fair.credits b } }
      else none
  | .intent baseAddress fairAddress hdIndex clientIp, w =>
      if w.fair.owned fairAddress then
        some { w with
          deposits := w.deposits.insert w.now
            { baseAddress, fairAddress, hdIndex, clientIp }
          addressCache := fairAddress :: w.addressCache }
      else none
  | .market tokens, w => some { w with base := { w.base with tokens := tokens } }
  | .order id status, w =>
      -- the buy watcher detects or expires a payment, and a release delivers a burn
      if (w.buyOrders.get id).any fun o => o.movesTo status then
        some { w with buyOrders := w.buyOrders.modify id { status := some status } }
      else none
  | .quote o, w =>
      -- a new order has a payment address of its own
      if o.status = .awaitingPayment ∧ o.swapTxHash = none ∧ o.burnTxHash = none ∧
          o.paymentAddress.isSome ∧
          w.buyOrders.docs.all (fun e => e.paymentAddress != o.paymentAddress) then
        some { w with buyOrders := w.buyOrders.insert w.now o }
      else none
  | .transactionKnown txid known, w =>
      some { w with fair := { w.fair with
        known := Function.update w.fair.known txid known } }
  | .credit sats, w =>
      some { w with fair := { w.fair with
        received := w.fair.received + sats
        custodySats := w.fair.custodySats + sats } }
  | .confirm sats, w =>
      if w.fair.confirmed + sats ≤ w.fair.received then
        some { w with fair := { w.fair with confirmed := w.fair.confirmed + sats } }
      else none
  | .masternodes list, w => some { w with fair := { w.fair with masternodes := list } }
  | .abort, w => some { w with aborted := true }
  | .restart, w =>
      some { w with aborted := false, addressCache := [], addressCacheLoaded := false }
  | .serveFirst first, w => some { w with firstServed := first }

/-- What the environment leaves alone: it only adds to the blocks and receipts of
the chains and to the deposits. -/
structure Surroundings (w w' : World) : Prop where
  deposits : ∀ id d, w.deposits.get id = some d → w'.deposits.get id = some d
  withdrawals : w'.withdrawals = w.withdrawals
  cursor : w'.cursor = w.cursor
  mintQueue : w'.mintQueue = w.mintQueue
  releaseQueue : w'.releaseQueue = w.releaseQueue
  blocks : w.base.blocks <+: w'.base.blocks
  txs : w'.base.txs = w.base.txs
  calls : w'.base.calls = w.base.calls
  receipts : ∀ h r, w.base.receipts h = some r → w'.base.receipts h = some r
  proposals : w'.safe = w.safe
  walletTxs : w'.base.walletTxs = w.base.walletTxs
  buyOrders : ∀ id o, w.buyOrders.get id = some o → ∃ o', w'.buyOrders.get id = some o' ∧
    (o' = o ∨ ∃ status, o.movesTo status = true ∧ o' = { o with status := status })
  buybackCycles : w'.buybackCycles = w.buybackCycles
  rewardCycles : w'.rewardCycles = w.rewardCycles
  sends : w'.fair.sends = w.fair.sends
  sendCalls : w'.fair.calls = w.fair.calls
  fairBlocks : w.fair.blocks <+: w'.fair.blocks
  lookups : w'.lookups = w.lookups

theorem update_receipts {receipts : Hash → Option Receipt} {hash : Hash} {v : Receipt}
    (hnone : receipts hash = none) (h : Hash) (r : Receipt) (hr : receipts h = some r) :
    Function.update receipts hash (some v) h = some r := by
  by_cases hh : h = hash
  · subst hh
    rw [hnone] at hr
    cases hr
  · rw [Function.update_of_ne hh, hr]

section Occur

-- the equations of `occur` are derived here, once for all the lemmas below
attribute [local simp] EnvEvent.occur

theorem EnvEvent.occur_surroundings {e : EnvEvent} {w w' : World}
    (h : e.occur w = some w') : Surroundings w w' := by
  have same : ∀ id d, w.deposits.get id = some d → w.deposits.get id = some d :=
    fun _ _ h => h
  have kept : ∀ h r, w.base.receipts h = some r → w.base.receipts h = some r :=
    fun _ _ h => h
  have orders : ∀ id o, w.buyOrders.get id = some o → ∃ o', w.buyOrders.get id = some o' ∧
      (o' = o ∨ ∃ status, o.movesTo status = true ∧ o' = { o with status := status }) :=
    fun _ o h => ⟨o, h, Or.inl rfl⟩
  cases e with
  | wait _ | transactionKnown _ _ | credit _ | masternodes _ | abort | restart
  | serveFirst _ | market _ =>
      cases h
      exact ⟨same, rfl, rfl, rfl, rfl, List.prefix_rfl, rfl, rfl, kept, rfl, rfl, orders,
        rfl, rfl, rfl, rfl, List.prefix_rfl, rfl⟩
  | mine hash success =>
      simp only [occur] at h
      split at h <;> cases h
      rename_i hnone
      exact ⟨same, rfl, rfl, rfl, rfl, List.prefix_rfl, rfl, rfl, update_receipts hnone, rfl, rfl,
        orders, rfl, rfl, rfl, rfl, List.prefix_rfl, rfl⟩
  | foreignReceipt hash receipt =>
      simp only [occur] at h
      split at h <;> cases h
      rename_i hnone
      exact ⟨same, rfl, rfl, rfl, rfl, List.prefix_rfl, rfl, rfl, update_receipts hnone, rfl, rfl,
        orders, rfl, rfl, rfl, rfl, List.prefix_rfl, rfl⟩
  | baseBlock logs =>
      simp only [occur] at h
      split at h <;> cases h
      exact ⟨same, rfl, rfl, rfl, rfl, List.prefix_append _ _, rfl, rfl, kept, rfl, rfl, orders,
        rfl, rfl, rfl, rfl, List.prefix_rfl, rfl⟩
  | fairBlock _ =>
      simp only [occur] at h
      split at h <;> cases h
      exact ⟨same, rfl, rfl, rfl, rfl, List.prefix_rfl, rfl, rfl, kept, rfl, rfl, orders,
        rfl, rfl, rfl, rfl, List.prefix_append _ _, rfl⟩
  | order moved status =>
      simp only [occur] at h
      split at h <;> cases h
      rename_i hmove
      refine ⟨same, rfl, rfl, rfl, rfl, List.prefix_rfl, rfl, rfl, kept, rfl, rfl, ?_,
        rfl, rfl, rfl, rfl, List.prefix_rfl, rfl⟩
      intro id o ho
      rw [Collection.get_modify]
      split
      · rename_i hid
        subst hid
        rw [ho] at hmove ⊢
        refine ⟨_, rfl, Or.inr ⟨status, hmove, ?_⟩⟩
        simp [buyOrderSchema, BuyOrderSet.apply]
      · exact ⟨o, ho, Or.inl rfl⟩
  | quote _ =>
      simp only [occur] at h
      split at h <;> cases h
      refine ⟨same, rfl, rfl, rfl, rfl, List.prefix_rfl, rfl, rfl, kept, rfl, rfl, ?_,
        rfl, rfl, rfl, rfl, List.prefix_rfl, rfl⟩
      intro id o ho
      rw [Collection.get_insert, if_neg (Nat.ne_of_lt (Collection.get_lt ho)), ho]
      exact ⟨o, rfl, Or.inl rfl⟩
  | confirm _ =>
      simp only [occur] at h
      split at h <;> cases h
      exact ⟨same, rfl, rfl, rfl, rfl, List.prefix_rfl, rfl, rfl, kept, rfl, rfl, orders,
        rfl, rfl, rfl, rfl, List.prefix_rfl, rfl⟩
  | intent baseAddress fairAddress hdIndex clientIp =>
      simp only [occur] at h
      split at h <;> cases h
      refine ⟨?_, rfl, rfl, rfl, rfl, List.prefix_rfl, rfl, rfl, kept, rfl, rfl, orders,
        rfl, rfl, rfl, rfl, List.prefix_rfl, rfl⟩
      intro id d hd
      rw [Collection.get_insert, if_neg (Nat.ne_of_lt (Collection.get_lt hd)), hd]

/-- An order is moved on, or a new one is quoted. -/
theorem EnvEvent.occur_order {e : EnvEvent} {w w' : World} (h : e.occur w = some w')
    (id : ObjectId) :
    w'.buyOrders.get id = w.buyOrders.get id ∨
    (∃ o st, e = .order id st ∧ w.buyOrders.get id = some o ∧ o.movesTo st = true ∧
      w'.buyOrders.get id = some { o with status := st }) ∨
    (w.buyOrders.get id = none ∧ ∃ o, w'.buyOrders.get id = some o ∧
      o.status = .awaitingPayment ∧ o.swapTxHash = none) := by
  cases e with
  | wait _ | transactionKnown _ _ | credit _ | masternodes _ | abort | restart
  | serveFirst _ | market _ =>
      cases h
      exact Or.inl rfl
  | mine _ _ | foreignReceipt _ _ | baseBlock _ | fairBlock _ | confirm _ | intent _ _ _ _ =>
      simp only [occur] at h
      split at h <;> cases h
      exact Or.inl rfl
  | order moved status =>
      simp only [occur] at h
      split at h <;> cases h
      rename_i hmove
      by_cases hid : id = moved
      · subst hid
        cases ho : w.buyOrders.get id with
        | none => rw [ho] at hmove; cases hmove
        | some o =>
            rw [ho] at hmove
            refine Or.inr (Or.inl ⟨o, status, rfl, rfl, hmove, ?_⟩)
            rw [Collection.get_modify_self, ho]
            simp [buyOrderSchema, BuyOrderSet.apply]
      · exact Or.inl (Collection.get_modify_other _ _ hid)
  | quote n =>
      simp only [occur] at h
      split at h <;> cases h
      rename_i hquote
      by_cases hid : id = w.buyOrders.nextId
      · subst hid
        exact Or.inr (Or.inr ⟨Collection.get_nextId w.buyOrders, _,
          (Collection.get_insert _ _ _ _).trans (if_pos rfl), hquote.1, hquote.2.1⟩)
      · exact Or.inl ((Collection.get_insert _ _ _ _).trans (if_neg hid))

theorem EnvEvent.occur_buyQueue {e : EnvEvent} {w w' : World} (h : e.occur w = some w') :
    w'.buyQueue = w.buyQueue := by
  cases e with
  | wait _ | transactionKnown _ _ | credit _ | masternodes _ | abort | restart
  | serveFirst _ | market _ =>
      cases h
      rfl
  | mine _ _ | foreignReceipt _ _ | baseBlock _ | fairBlock _ | confirm _ | order _ _ | quote _
  | intent _ _ _ _ =>
      simp only [occur] at h
      split at h <;> cases h
      rfl

/-- Which addresses are valid is up to the node. -/
theorem EnvEvent.occur_isvalid {e : EnvEvent} {w w' : World} (h : e.occur w = some w') :
    w'.fair.isvalid = w.fair.isvalid := by
  cases e with
  | wait _ | transactionKnown _ _ | credit _ | masternodes _ | abort | restart
  | serveFirst _ | market _ =>
      cases h
      rfl
  | mine _ _ | foreignReceipt _ _ | baseBlock _ | fairBlock _ | confirm _ | order _ _ | quote _
  | intent _ _ _ _ =>
      simp only [occur] at h
      split at h <;> cases h
      rfl

/-- The clock does not go back. -/
theorem EnvEvent.occur_now {e : EnvEvent} {w w' : World} (h : e.occur w = some w') :
    w.now ≤ w'.now := by
  cases e with
  | wait ms =>
      cases h
      exact Nat.le_add_right w.now ms
  | transactionKnown _ _ | credit _ | masternodes _ | abort | restart | serveFirst _ | market _ =>
      cases h
      exact Nat.le_refl _
  | mine _ _ | foreignReceipt _ _ | baseBlock _ | fairBlock _ | confirm _ | order _ _ | quote _
  | intent _ _ _ _ =>
      simp only [occur] at h
      split at h <;> cases h
      exact Nat.le_refl _

end Occur

end FairBridge

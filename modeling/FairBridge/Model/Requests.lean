import FairBridge.Model.World

/-!
The awaited calls of the service, under the names they have in its code.
-/

namespace FairBridge
open Store Async

namespace World

def setDeposit (w : World) (id : ObjectId) (u : DepositSet) : World :=
  { w with deposits := w.deposits.modify id u }

def setWithdrawal (w : World) (id : ObjectId) (u : WithdrawalSet) : World :=
  { w with withdrawals := w.withdrawals.modify id u }

def setBuyOrder (w : World) (id : ObjectId) (u : BuyOrderSet) : World :=
  { w with buyOrders := w.buyOrders.modify id u }

/-- The update of all the orders that the filter accepts. -/
def setBuyOrders (w : World) (filter : BuyOrderDoc → Bool) (u : BuyOrderSet) : World :=
  { w with buyOrders := w.buyOrders.modifyAll filter u }

def setBuybackCycle (w : World) (id : ObjectId) (u : BuybackCycleSet) : World :=
  { w with buybackCycles := w.buybackCycles.modify id u }

def insertBuybackCycle (w : World) (d : BuybackCycleDoc) : World :=
  { w with buybackCycles := w.buybackCycles.insert w.now d }

def setRewardCycle (w : World) (id : ObjectId) (u : RewardCycleSet) : World :=
  { w with rewardCycles := w.rewardCycles.modify id u }

def insertRewardCycle (w : World) (d : RewardCycleDoc) : World :=
  { w with rewardCycles := w.rewardCycles.insert w.now d }

def insertDeposit (w : World) (d : DepositDoc) : World :=
  { w with deposits := w.deposits.insert w.now d }

def insertWithdrawal (w : World) (d : WithdrawalDoc) : World :=
  { w with withdrawals := w.withdrawals.insert w.now d }

def enqueueMint (w : World) (job : MintJob) : World :=
  { w with mintQueue := w.mintQueue.add (job.fairTxid, job.fairVout) job }

def enqueueRelease (w : World) (job : ReleaseJob) : World :=
  { w with releaseQueue := w.releaseQueue.add job.key job }

/-- A mint transaction reaches the chain. -/
def broadcast (w : World) (row : Option ObjectId) (call : MintCall) : World :=
  { w with base := { w.base with
    txs := w.base.txs ++ [⟨w.base.hashOf w.base.txs.length, call, row⟩] } }

/-- A transaction of a wallet reaches the chain. -/
def sendWallet (w : World) (sender : Address) (call : WalletCall) (purpose : Purpose) : World :=
  { w with base := { w.base with
    walletTxs := w.base.walletTxs ++
      [⟨w.base.walletHashOf w.base.walletTxs.length, sender, call, purpose⟩] } }

/-- A payment leaves the wallet. -/
def send (w : World) (row : Option ObjectId) (address : String) (sats : Int)
    (payout : Option (ObjectId × Nat)) : World :=
  { w with fair := { w.fair with
    sends := w.fair.sends ++ [⟨w.fair.txidOf w.fair.sends.length, address, sats, row, payout⟩]
    custodySats := w.fair.custodySats - sats } }

/-- An address is looked up for a vout. -/
def lookUp (w : World) (address : String) (vout : Nat × Txid × Nat) : World :=
  { w with lookups := Function.update w.lookups vout (some (w.addressCache.contains address)) }

section Frame
variable (w : World) (id : ObjectId)

@[simp] theorem setDeposit_base (u : DepositSet) : (w.setDeposit id u).base = w.base := rfl

@[simp] theorem setDeposit_fair (u : DepositSet) : (w.setDeposit id u).fair = w.fair := rfl

@[simp] theorem setDeposit_withdrawals (u : DepositSet) :
    (w.setDeposit id u).withdrawals = w.withdrawals := rfl

@[simp] theorem setWithdrawal_base (u : WithdrawalSet) :
    (w.setWithdrawal id u).base = w.base := rfl

@[simp] theorem setWithdrawal_fair (u : WithdrawalSet) :
    (w.setWithdrawal id u).fair = w.fair := rfl

@[simp] theorem setWithdrawal_deposits (u : WithdrawalSet) :
    (w.setWithdrawal id u).deposits = w.deposits := rfl

end Frame

theorem get_setDeposit {w : World} {id : ObjectId} {d : DepositDoc}
    (h : w.deposits.get id = some d) (u : DepositSet) :
    (w.setDeposit id u).deposits.get id = some (u.apply d) := by
  rw [setDeposit, Collection.get_modify_self, h]
  rfl

theorem get_setWithdrawal {w : World} {id : ObjectId} {d : WithdrawalDoc}
    (h : w.withdrawals.get id = some d) (u : WithdrawalSet) :
    (w.setWithdrawal id u).withdrawals.get id = some (u.apply d) := by
  rw [setWithdrawal, Collection.get_modify_self, h]
  rfl

theorem get_setBuyOrder {w : World} {id : ObjectId} {d : BuyOrderDoc}
    (h : w.buyOrders.get id = some d) (u : BuyOrderSet) :
    (w.setBuyOrder id u).buyOrders.get id = some (u.apply d) := by
  rw [setBuyOrder, Collection.get_modify_self, h]
  rfl

theorem get_setBuyOrders {w : World} {id : ObjectId} {d : BuyOrderDoc}
    (h : w.buyOrders.get id = some d) (filter : BuyOrderDoc → Bool) (u : BuyOrderSet) :
    (w.setBuyOrders filter u).buyOrders.get id = some (if filter d then u.apply d else d) := by
  rw [setBuyOrders, Collection.get_modifyAll, h]
  rfl

theorem get_setBuybackCycle {w : World} {id : ObjectId} {d : BuybackCycleDoc}
    (h : w.buybackCycles.get id = some d) (u : BuybackCycleSet) :
    (w.setBuybackCycle id u).buybackCycles.get id = some (u.apply d) := by
  rw [setBuybackCycle, Collection.get_modify_self, h]
  rfl

theorem get_setRewardCycle {w : World} {id : ObjectId} {d : RewardCycleDoc}
    (h : w.rewardCycles.get id = some d) (u : RewardCycleSet) :
    (w.setRewardCycle id u).rewardCycles.get id = some (u.apply d) := by
  rw [setRewardCycle, Collection.get_modify_self, h]
  rfl

theorem get_insertDeposit (w : World) (d : DepositDoc) (id : ObjectId) :
    (w.insertDeposit d).deposits.get id =
      if id = w.deposits.nextId then
        some { d with id := w.deposits.nextId, createdAt := w.now }
      else w.deposits.get id :=
  w.deposits.get_insert w.now d id

theorem get_insertDeposit_new (w : World) (d : DepositDoc) :
    (w.insertDeposit d).deposits.get w.deposits.nextId =
      some { d with id := w.deposits.nextId, createdAt := w.now } := by
  rw [get_insertDeposit, if_pos rfl]

theorem get_insertDeposit_old {w : World} {d e : DepositDoc} {id : ObjectId}
    (h : w.deposits.get id = some e) : (w.insertDeposit d).deposits.get id = some e := by
  rw [get_insertDeposit, if_neg (Nat.ne_of_lt (Collection.get_lt h)), h]

theorem get_insertWithdrawal (w : World) (d : WithdrawalDoc) (id : ObjectId) :
    (w.insertWithdrawal d).withdrawals.get id =
      if id = w.withdrawals.nextId then
        some { d with id := w.withdrawals.nextId, createdAt := w.now }
      else w.withdrawals.get id :=
  w.withdrawals.get_insert w.now d id

theorem get_insertWithdrawal_new (w : World) (d : WithdrawalDoc) :
    (w.insertWithdrawal d).withdrawals.get w.withdrawals.nextId =
      some { d with id := w.withdrawals.nextId, createdAt := w.now } := by
  rw [get_insertWithdrawal, if_pos rfl]

/-- A new row leaves the others where they are. -/
theorem get_insertWithdrawal_old {w : World} {d e : WithdrawalDoc} {id : ObjectId}
    (h : w.withdrawals.get id = some e) : (w.insertWithdrawal d).withdrawals.get id = some e := by
  rw [get_insertWithdrawal, if_neg (Nat.ne_of_lt (Collection.get_lt h)), h]

end World

section Effect

-- the equations of `effect` are derived here, once for all the lemmas below
attribute [local simp] effect

/-- A mint call is refused for its arguments, or is broadcast under a new hash. -/
theorem effect_writeContract {row : Option ObjectId} {call : MintCall} {w w' : World}
    {x : Except JsError Hash} (h : effect row (.writeContract call) w = some (x, w')) :
    (∃ e, x = .error e ∧ w' = w) ∨
    (x = .ok (w.base.hashOf w.base.txs.length) ∧ w' = w.broadcast row call ∧
      ∀ tx ∈ w.base.txs, tx.hash ≠ w.base.hashOf w.base.txs.length) := by
  simp only [effect] at h
  split at h
  · cases h
    exact Or.inl ⟨_, rfl, rfl⟩
  · split at h <;> cases h
    rename_i hnew
    exact Or.inr ⟨rfl, rfl, by simpa using hnew⟩

theorem encodable_of_effect {row : Option ObjectId} {call : MintCall} {w w' : World} {h : Hash}
    (heff : effect row (.writeContract call) w = some (.ok h, w')) : call.encodable = true := by
  simp only [effect] at heff
  split at heff
  · cases heff
  · rename_i hne
    simpa using hne

/-- A wallet's call is refused for its arguments, or is sent under a new hash. -/
theorem effect_sendWallet {row : Option ObjectId} {sender : Address} {call : WalletCall}
    {purpose : Purpose} {w w' : World} {x : Except JsError Hash}
    (h : effect row (.sendWallet sender call purpose) w = some (x, w')) :
    (∃ e, x = .error e ∧ w' = w) ∨
    (x = .ok (w.base.walletHashOf w.base.walletTxs.length) ∧
      w' = w.sendWallet sender call purpose ∧
      ∀ tx ∈ w.base.walletTxs, tx.hash ≠ w.base.walletHashOf w.base.walletTxs.length) := by
  simp only [effect] at h
  split at h
  · cases h
    exact Or.inl ⟨_, rfl, rfl⟩
  · split at h <;> cases h
    rename_i hnew
    exact Or.inr ⟨rfl, rfl, by simpa using hnew⟩

theorem MintCall.nonneg {call : MintCall} (h : call.encodable = true) : 0 ≤ call.amount := by
  simp only [encodable, Bool.and_eq_true, decide_eq_true_eq] at h
  exact h.1.1

/-- The upsert answers the cursor it finds, or puts it in place. -/
theorem effect_cursorUpsert {id : EventCursorId} {v : Int} {row : Option ObjectId} {w w' : World}
    {x : Except JsError Int} (h : effect row (.cursorUpsert id v) w = some (x, w')) :
    (∃ last, w.cursor id = some last ∧ x = .ok last ∧ w' = w) ∨
    w.cursor id = none ∧ x = .ok v ∧
      w' = { w with cursor := Function.update w.cursor id (some v) } := by
  simp only [effect] at h
  split at h
  · rename_i last hlast
    cases h
    exact Or.inl ⟨last, hlast, rfl, rfl⟩
  · rename_i hnone
    cases h
    exact Or.inr ⟨hnone, rfl, rfl⟩

/-- A payment is refused, or it leaves the wallet, which could afford it. -/
theorem effect_sendToAddress {row : Option ObjectId} {address : String} {amountFair : ℚ}
    {payout : Option (ObjectId × Nat)} {w w' : World} {x : Except JsError Txid}
    (h : effect row (.sendToAddress address amountFair payout) w = some (x, w')) :
    (∃ e, x = .error e ∧ w' = w) ∨
    (x = .ok (w.fair.txidOf w.fair.sends.length) ∧
      w' = w.send row address (fairValueToSats amountFair) payout ∧
      0 < fairValueToSats amountFair ∧
      fairValueToSats amountFair ≤ w.fair.custodySats) := by
  simp only [effect] at h
  split at h
  · cases h
    exact Or.inl ⟨_, rfl, rfl⟩
  · rename_i hpos
    split at h
    · cases h
      exact Or.inl ⟨_, rfl, rfl⟩
    · split at h <;> cases h
      · exact Or.inl ⟨_, rfl, rfl⟩
      · rename_i hfunds
        exact Or.inr ⟨rfl, rfl, by omega, by omega⟩

end Effect

/-- A row is refused, or created with the identifier and the time the store gives.
It is refused as a duplicate only where a row has its vout. -/
theorem effect_createDeposit {row : Option ObjectId} {d : DepositDoc} {w w' : World}
    {x : Except JsError DepositDoc}
    (h : effect row (.deposit (.create d)) w = some (x, w')) :
    (∃ e, x = .error e ∧ w' = w ∧ (e.includes "E11000" = true →
      ∃ b ∈ w.deposits.docs, b.fairTxid = d.fairTxid ∧ b.fairVout = d.fairVout)) ∨
    (x = .ok { d with id := w.deposits.nextId, createdAt := w.now } ∧
      w' = w.insertDeposit d ∧
      ∀ e ∈ w.deposits.docs, ¬ (e.fairTxid = d.fairTxid ∧ e.fairVout = d.fairVout)) := by
  have heff : ∀ r, w.deposits.create refusals w.now d = r →
      effect row (.deposit (.create d)) w = some (r.1, { w with deposits := r.2 }) := by
    intro r hr
    rw [← hr]
    rfl
  cases w.deposits.create_cases refusals w.now d with
  | inl hc =>
      obtain ⟨e, hc, hwhy⟩ := hc
      cases (heff _ hc).symm.trans h
      refine Or.inl ⟨e, rfl, rfl, ?_⟩
      intro hdup
      cases hwhy with
      | inl hinv =>
          rw [hinv] at hdup
          exact absurd hdup (by decide +kernel)
      | inr hclash =>
          obtain ⟨b, hb, hk⟩ := Collection.clashes_true hclash.2
          have hk : (b.fairTxid, b.fairVout) = (d.fairTxid, d.fairVout) := Option.some.inj hk
          exact ⟨b, hb, congrArg Prod.fst hk, congrArg Prod.snd hk⟩
  | inr hc =>
      obtain ⟨_, hclash, hc⟩ := hc
      cases (heff _ hc).symm.trans h
      refine Or.inr ⟨rfl, rfl, ?_⟩
      intro e he hk
      have hid : e.id = w.deposits.nextId :=
        Collection.clashes_false hclash (k := (d.fairTxid, d.fairVout)) rfl he
          (congrArg some (Prod.ext hk.1 hk.2))
      exact absurd hid (Nat.ne_of_lt (w.deposits.below e he))

/-- A vout is put on the row with the given identifier, if no row has it yet. -/
theorem update_vout {w : World} {id : ObjectId} {cond : DepositDoc → Bool} {u : DepositSet}
    {txid : Txid} {n : Nat} (htxid : u.fairTxid = some txid) (hvout : u.fairVout = some n)
    (hnone : ∀ d, w.deposits.get id = some d → d.fairTxid = none) :
    ((w.deposits.get id).filter cond = none ∧
      w.deposits.update refusals.duplicate (fun d => d.id == id && cond d) none u =
        (.ok none, w.deposits)) ∨
    (w.deposits.update refusals.duplicate (fun d => d.id == id && cond d) none u =
        (.error refusals.duplicate, w.deposits)) ∨
    ∃ d, w.deposits.get id = some d ∧ cond d = true ∧
      w.deposits.update refusals.duplicate (fun d => d.id == id && cond d) none u =
        (.ok (some (u.apply d)), w.deposits.modify id u) ∧
      ∀ e ∈ w.deposits.docs, ¬ (e.fairTxid = some txid ∧ e.fairVout = some n) := by
  have hcases : _ ∨ _ ∨ _ := w.deposits.update_byId_cases refusals.duplicate id cond u
  cases hcases with
  | inl h => exact Or.inl h
  | inr h =>
      refine Or.inr ?_
      cases h with
      | inl h => exact Or.inl h
      | inr h =>
          obtain ⟨d, hd, hc, hkey, hup⟩ := h
          refine Or.inr ⟨d, hd, hc, hup, ?_⟩
          have hnew : depositSchema.key (depositSchema.set u d) = some (some txid, some n) := by
            simp [depositSchema, DepositSet.apply, htxid, hvout]
          have hold : depositSchema.key d ≠ some (some txid, some n) := by
            simp [depositSchema, hnone d hd]
          have hclash := hkey.resolve_left (hnew ▸ hold.symm)
          intro e he hk
          have hek : depositSchema.key e = some (some txid, some n) :=
            congrArg some (Prod.ext hk.1 hk.2)
          have hid : e.id = d.id := Collection.clashes_false hclash hnew he hek
          have hed : e = d := by
            have hget : w.deposits.get e.id = some e := Collection.get_of_mem he
            have hdid : d.id = id := Collection.get_id hd
            rw [hid, hdid, hd] at hget
            exact (Option.some.inj hget).symm
          rw [hed] at hek
          exact hold hek

/-- The row with the identifier gets its vout, or nothing changes. -/
theorem effect_setVout {row : Option ObjectId} {w w' : World} {id : ObjectId}
    {cond : DepositDoc → Bool} {u : DepositSet} {txid : Txid} {n : Nat}
    {x : Except JsError (Option DepositDoc)}
    (h : effect row (.deposit (.findOneAndUpdate (fun d => d.id == id && cond d) none u)) w =
      some (x, w'))
    (htxid : u.fairTxid = some txid) (hvout : u.fairVout = some n)
    (hnone : ∀ d, w.deposits.get id = some d → d.fairTxid = none) :
    (w' = w ∧ (x = .ok none ∧ (w.deposits.get id).filter cond = none ∨ ∃ e, x = .error e)) ∨
    ∃ d, w.deposits.get id = some d ∧ cond d = true ∧ x = .ok (some (u.apply d)) ∧
      w' = w.setDeposit id u ∧
      ∀ e ∈ w.deposits.docs, ¬ (e.fairTxid = some txid ∧ e.fairVout = some n) := by
  have heff : ∀ r, w.deposits.update refusals.duplicate (fun d => d.id == id && cond d) none u = r →
      effect row (.deposit (.findOneAndUpdate (fun d => d.id == id && cond d) none u)) w =
        some (r.1, { w with deposits := r.2 }) := by
    intro r hr
    rw [← hr]
    rfl
  cases @update_vout w id cond u txid n htxid hvout hnone with
  | inl hu =>
      cases (heff _ hu.2).symm.trans h
      exact Or.inl ⟨rfl, Or.inl ⟨rfl, hu.1⟩⟩
  | inr hu =>
      cases hu with
      | inl hu =>
          cases (heff _ hu).symm.trans h
          exact Or.inl ⟨rfl, Or.inr ⟨_, rfl⟩⟩
      | inr hu =>
          obtain ⟨d, hd, hc, hu, hnew⟩ := hu
          cases (heff _ hu).symm.trans h
          exact Or.inr ⟨d, hd, hc, rfl, rfl, hnew⟩

/-- A row is refused, or created with the identifier and the time the store gives. -/
theorem effect_createWithdrawal {row : Option ObjectId} {d : WithdrawalDoc} {w w' : World}
    {x : Except JsError WithdrawalDoc}
    (h : effect row (.withdrawal (.create d)) w = some (x, w')) :
    (∃ e, x = .error e ∧ w' = w) ∨
    (x = .ok { d with id := w.withdrawals.nextId, createdAt := w.now } ∧
      w' = w.insertWithdrawal d ∧
      ∀ e ∈ w.withdrawals.docs, e.key ≠ d.key) := by
  have heff : ∀ r, w.withdrawals.create refusals w.now d = r →
      effect row (.withdrawal (.create d)) w = some (r.1, { w with withdrawals := r.2 }) := by
    intro r hr
    rw [← hr]
    rfl
  cases w.withdrawals.create_cases refusals w.now d with
  | inl hc =>
      obtain ⟨e, hc, _⟩ := hc
      cases (heff _ hc).symm.trans h
      exact Or.inl ⟨e, rfl, rfl⟩
  | inr hc =>
      obtain ⟨_, hclash, hc⟩ := hc
      cases (heff _ hc).symm.trans h
      refine Or.inr ⟨rfl, rfl, ?_⟩
      intro e he hk
      have hid : e.id = w.withdrawals.nextId :=
        Collection.clashes_false hclash (k := d.key) rfl he (congrArg some hk)
      exact absurd hid (Nat.ne_of_lt (w.withdrawals.below e he))

def call {β : Type} (op : Op β) : Promise β := Program.request op

/-- Raise what a synchronous computation raises. -/
def Promise.of {α : Type} (x : Except JsError α) : Promise α := Program.ofExcept x

/-- Fire-and-forget webhook alert. Never throws. -/
def alert (cfg : Config) (message : String) : Promise Unit :=
  match cfg.discordWebhookUrl with
  | none => pure ()
  | some _ => tryCatch (call (.webhook message)) fun _ => pure ()

theorem alert_only {cfg : Config} {ok : {β : Type} → Op β → Prop} (h : ∀ m, ok (.webhook m))
    (message : String) : (alert cfg message).Only ok := by
  rw [alert]
  split
  · trivial
  · exact .tryCatch (.request (h _)) fun _ => trivial

namespace Deposit

def findById (id : ObjectId) : Promise (Option DepositDoc) :=
  call (.deposit (.findOne (fun d => d.id == id) none))

def updateById (id : ObjectId) (u : DepositSet) : Promise Unit :=
  call (.deposit (.updateOne (fun d => d.id == id && true) u))

theorem effect_updateById (row : Option ObjectId) (id : ObjectId) (u : DepositSet)
    (htxid : u.fairTxid = none) (hvout : u.fairVout = none) (w : World) :
    effect row (.deposit (.updateOne (fun d => d.id == id && true) u)) w =
      some (.ok (), w.setDeposit id u) := by
  have hkey : ∀ d, depositSchema.key (depositSchema.set u d) = depositSchema.key d := by
    intro d
    simp [depositSchema, DepositSet.apply, htxid, hvout]
  exact congrArg (fun r => some (r.1, { w with deposits := r.2 }))
    (Collection.run_updateById refusals w.now w.deposits id u hkey)

end Deposit

namespace Withdrawal

def findById (id : ObjectId) : Promise (Option WithdrawalDoc) :=
  call (.withdrawal (.findOne (fun d => d.id == id) none))

def updateById (id : ObjectId) (u : WithdrawalSet) : Promise Unit :=
  call (.withdrawal (.updateOne (fun d => d.id == id && true) u))

theorem effect_updateById (row : Option ObjectId) (id : ObjectId) (u : WithdrawalSet)
    (w : World) :
    effect row (.withdrawal (.updateOne (fun d => d.id == id && true) u)) w =
      some (.ok (), w.setWithdrawal id u) := by
  exact congrArg (fun r => some (r.1, { w with withdrawals := r.2 }))
    (Collection.run_updateById refusals w.now w.withdrawals id u fun _ => rfl)

end Withdrawal

namespace BuyOrder

def findById (id : ObjectId) : Promise (Option BuyOrderDoc) :=
  call (.buyOrder (.findOne (fun d => d.id == id) none))

def updateById (id : ObjectId) (u : BuyOrderSet) : Promise Unit :=
  call (.buyOrder (.updateOne (fun d => d.id == id && true) u))

theorem effect_updateById (row : Option ObjectId) (id : ObjectId) (u : BuyOrderSet) (w : World) :
    effect row (.buyOrder (.updateOne (fun d => d.id == id && true) u)) w =
      some (.ok (), w.setBuyOrder id u) := by
  exact congrArg (fun r => some (r.1, { w with buyOrders := r.2 }))
    (Collection.run_updateById refusals w.now w.buyOrders id u fun _ => rfl)

/-- A claim of a row with a given identifier. -/
theorem effect_claim (row : Option ObjectId) (id : ObjectId) (cond : BuyOrderDoc → Bool)
    (u : BuyOrderSet) (w : World) :
    effect row (.buyOrder (.findOneAndUpdate (fun d => d.id == id && cond d) none u)) w =
    match (w.buyOrders.get id).filter cond with
    | none => some (.ok none, w)
    | some d => some (.ok (some (u.apply d)), w.setBuyOrder id u) := by
  have h := Collection.update_byId (ε := JsError) w.buyOrders refusals.duplicate id cond u
    fun _ => rfl
  refine (congrArg (fun r => some (r.1, { w with buyOrders := r.2 })) h).trans ?_
  cases (w.buyOrders.get id).filter cond with
  | none => rfl
  | some d => rfl

end BuyOrder

namespace BuybackCycle

def findById (id : ObjectId) : Promise (Option BuybackCycleDoc) :=
  call (.buybackCycle (.findOne (fun d => d.id == id) none))

def updateById (id : ObjectId) (u : BuybackCycleSet) : Promise Unit :=
  call (.buybackCycle (.updateOne (fun d => d.id == id && true) u))

theorem effect_updateById (row : Option ObjectId) (id : ObjectId) (u : BuybackCycleSet)
    (w : World) :
    effect row (.buybackCycle (.updateOne (fun d => d.id == id && true) u)) w =
      some (.ok (), w.setBuybackCycle id u) := by
  exact congrArg (fun r => some (r.1, { w with buybackCycles := r.2 }))
    (Collection.run_updateById refusals w.now w.buybackCycles id u fun _ => rfl)

/-- A row is created; the store has no reason to refuse one. -/
theorem effect_create (row : Option ObjectId) (d : BuybackCycleDoc) (w : World) :
    effect row (.buybackCycle (.create d)) w =
      some (.ok { d with id := w.buybackCycles.nextId, createdAt := w.now },
        w.insertBuybackCycle d) :=
  rfl

end BuybackCycle

namespace MasternodeRewardCycle

def findById (id : ObjectId) : Promise (Option RewardCycleDoc) :=
  call (.rewardCycle (.findOne (fun d => d.id == id) none))

def updateById (id : ObjectId) (u : RewardCycleSet) : Promise Unit :=
  call (.rewardCycle (.updateOne (fun d => d.id == id && true) u))

/-- An update of the row with a given identifier, if it meets the condition. -/
theorem effect_updateWhere (row : Option ObjectId) (id : ObjectId) (cond : RewardCycleDoc → Bool)
    (u : RewardCycleSet) (w : World) :
    effect row (.rewardCycle (.updateOne (fun d => d.id == id && cond d) u)) w =
      some (.ok (), match (w.rewardCycles.get id).filter cond with
        | none => w
        | some _ => w.setRewardCycle id u) := by
  have h := Collection.update_byId (ε := JsError) w.rewardCycles refusals.duplicate id cond u
    fun _ => rfl
  refine (congrArg (fun r => some (r.1.map fun _ => (), { w with rewardCycles := r.2 })) h).trans ?_
  cases (w.rewardCycles.get id).filter cond with
  | none => rfl
  | some d => rfl

theorem effect_updateById (row : Option ObjectId) (id : ObjectId) (u : RewardCycleSet)
    (w : World) :
    effect row (.rewardCycle (.updateOne (fun d => d.id == id && true) u)) w =
      some (.ok (), w.setRewardCycle id u) := by
  exact congrArg (fun r => some (r.1, { w with rewardCycles := r.2 }))
    (Collection.run_updateById refusals w.now w.rewardCycles id u fun _ => rfl)

/-- The oldest row that the filter accepts is updated, if there is one. -/
theorem effect_findOneAndUpdate (row : Option ObjectId) (filter : RewardCycleDoc → Bool)
    (sort : Option (RewardCycleDoc → Nat)) (u : RewardCycleSet) (w : World) :
    effect row (.rewardCycle (.findOneAndUpdate filter sort u)) w =
      match pick filter sort w.rewardCycles.docs with
      | none => some (.ok none, w)
      | some d => some (.ok (some (u.apply d)), w.setRewardCycle d.id u) := by
  cases h : pick filter sort w.rewardCycles.docs with
  | none => simp only [effect, Query.run, Collection.update, h]
  | some d => simp [effect, Query.run, Collection.update, h, rewardCycleSchema,
      World.setRewardCycle]

/-- A row is created unless it lacks what it needs. -/
theorem effect_create_eq (row : Option ObjectId) (d : RewardCycleDoc) (w : World) :
    effect row (.rewardCycle (.create d)) w =
      if rewardCycleSchema.valid d then
        some (.ok { d with id := w.rewardCycles.nextId, createdAt := w.now },
          w.insertRewardCycle d)
      else some (.error refusals.invalid, w) := by
  have heff : ∀ r, w.rewardCycles.create refusals w.now d = r →
      effect row (.rewardCycle (.create d)) w = some (r.1, { w with rewardCycles := r.2 }) := by
    intro r hr
    rw [← hr]
    rfl
  split
  · rename_i hvalid
    refine heff (.ok _, w.rewardCycles.insert w.now d) ?_
    rw [Collection.create, hvalid]
    rfl
  · rename_i hvalid
    exact heff (.error refusals.invalid, w.rewardCycles) (if_pos (Bool.not_eq_true _ ▸ hvalid))

/-- A row is refused for what it lacks, or created. -/
theorem effect_create {row : Option ObjectId} {d : RewardCycleDoc} {w w' : World}
    {x : Except JsError RewardCycleDoc}
    (h : effect row (.rewardCycle (.create d)) w = some (x, w')) :
    (∃ e, x = .error e ∧ w' = w) ∨
    (x = .ok { d with id := w.rewardCycles.nextId, createdAt := w.now } ∧
      w' = w.insertRewardCycle d) := by
  rw [effect_create_eq] at h
  split at h <;> cases h
  · exact Or.inr ⟨rfl, rfl⟩
  · exact Or.inl ⟨_, rfl, rfl⟩

end MasternodeRewardCycle

/-- Convert sats into the FAIR amount `sendtoaddress` takes. -/
def satsToFair (sats : Int) : ℚ :=
  let whole := bigIntDiv sats satsPerFair
  let frac := Int.tmod sats satsPerFair
  (whole : ℚ) + (frac : ℚ) / (satsPerFair : ℚ)

theorem satsToFair_eq (sats : Int) : satsToFair sats = (sats : ℚ) / 100000000 := by
  have h := Int.mul_tdiv_add_tmod sats satsPerFair
  have hq : ((satsPerFair : Int) : ℚ) = 100000000 := by norm_num [satsPerFair]
  have hs : (sats : ℚ) =
      (satsPerFair : ℚ) * (bigIntDiv sats satsPerFair : ℚ) + (Int.tmod sats satsPerFair : ℚ) := by
    rw [bigIntDiv]
    exact_mod_cast h.symm
  rw [hs, satsToFair, hq]
  ring

/-- The node is asked for exactly the sats that are released. -/
theorem fairValueToSats_satsToFair (sats : Int) :
    fairValueToSats (satsToFair sats) = sats := by
  rw [satsToFair_eq, fairValueToSats, div_mul_cancel₀ _ (by norm_num), roundHalfUp_int]

/-- The transaction is known to the node. Every other error is passed on. -/
def fairTxExists (txid : Txid) : Promise Bool :=
  tryCatch (do call (.getRawTransaction txid); return true) fun err =>
    if err.includes "RPC -5" || err.includes "No such" then pure false else throw err

theorem fairTxExists_only {ok : {β : Type} → Op β → Prop} (h : ∀ t, ok (.getRawTransaction t))
    (txid : Txid) : (fairTxExists txid).Only ok := by
  refine .tryCatch (.bind (.request (h txid)) fun _ => trivial) fun err => ?_
  split <;> trivial

end FairBridge

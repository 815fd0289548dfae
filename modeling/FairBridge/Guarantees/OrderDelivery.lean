import FairBridge.Async.Steady
import FairBridge.Guarantees.BuyOrders
import FairBridge.Model.Frame

/-!
The delivery of an order. The release of its burn marks it DELIVERED, and asks for its
status when it does; the orchestrator asks for nothing when it writes DELIVERING or
FAILED after a receipt.
-/

namespace FairBridge
open Store Async

/-- Any number of runs of the orchestrator and of the release signer. Any request may
raise, and any run may die. -/
def deliveryRuns (ι : Type) : Faults ι where
  ready _ _ t := match t with
    | .processBuy _ | .signRelease _ => true
    | _ => false
  may _ _ _ _ := true
  mayKill _ _ _ := true
  row _ := none

/-- An update of the order's status that does not ask for it, served on a delivered
order. -/
def Op.overwritesDelivery (id : ObjectId) {β : Type} (op : Op β) (w : World) : Bool :=
  match op with
  | .buyOrder (.updateOne filter u) =>
      u.status.isSome && (w.buyOrders.get id).any fun o => o.status == .delivered && filter o
  | _ => false

/-- No update of the kind is performed. -/
def sparesDelivery {ι : Type} (id : ObjectId) {β : Type} (p : Pool Op JsError World ι) (_ : ι)
    (op : Op β) : Prop :=
  op.overwritesDelivery id p.world = false

instance {ι : Type} (id : ObjectId) {β : Type} (p : Pool Op JsError World ι) (i : ι)
    (op : Op β) : Decidable (sparesDelivery id p i op) :=
  inferInstanceAs (Decidable (_ = false))

/-- A claim passes over delivered orders, and an update says nothing of the release. -/
def Op.ordersAway {β : Type} : Op β → Prop
  | .buyOrder (.findOneAndUpdate filter _ _) =>
      ∀ o : BuyOrderDoc, o.status = .delivered → filter o = false
  | .buyOrder (.updateOne _ u) => u.releaseFairTxId = none
  | .buyOrder (.create _) | .buyOrderUpdateMany _ _ => False
  | _ => True

section Requests
variable {cfg : Config}

theorem alert_ordersAway (message : String) : (alert cfg message).Only Op.ordersAway :=
  alert_only (fun _ => trivial) message

theorem landSetup_ordersAway (sender : Address) (setup : WalletCall)
    (reverted : Hash → String) : (landSetup sender setup reverted).Only Op.ordersAway := by
  refine .bind (.request trivial) fun txHash => .bind (.request trivial) fun receipt => ?_
  split <;> trivial

theorem executeSwap_ordersAway (ctx : BuyContext)
    (hrec : ∀ h, (reconcileSwap ctx h).Only Op.ordersAway) :
    (executeSwap cfg ctx).Only Op.ordersAway := by
  refine .bind (.request trivial) fun balance => ?_
  split
  · trivial
  · refine .bind ?_ fun _ => .bind ?_ fun _ => ?_
    · refine .bind (.request trivial) fun currentBalance => ?_
      split
      · trivial
      · exact .bind (.ofExcept _) fun _ => landSetup_ordersAway _ _ _
    · refine .bind (.request trivial) fun allowance => ?_
      split
      · trivial
      · exact landSetup_ordersAway _ _ _
    · exact .bind (.request trivial) fun _ => .bind (.request trivial) fun txHash =>
        .bind (.request rfl) fun _ => .bind (hrec txHash) fun _ => .bind (.request rfl) fun _ => trivial

theorem failOrder_ordersAway {α : Type} (id : ObjectId) (what : String) (h : Hash) :
    (failOrder id what h : Promise α).Only Op.ordersAway :=
  .bind (.request rfl) fun _ => trivial

theorem reconcileSwap_ordersAway (ctx : BuyContext) (h : Hash) :
    (reconcileSwap ctx h).Only Op.ordersAway := by
  refine .bind (.request trivial) fun receipt => ?_
  split
  · exact .request trivial
  · exact failOrder_ordersAway _ _ _

theorem reconcileBurn_ordersAway (ctx : BuyContext) (h : Hash) :
    (reconcileBurn ctx h).Only Op.ordersAway := by
  refine .bind (.request trivial) fun receipt => ?_
  split
  · exact .request rfl
  · exact failOrder_ordersAway _ _ _

theorem burnStep_ordersAway (ctx : BuyContext) (wfairOut : Int) :
    (burnStep ctx wfairOut).Only Op.ordersAway := by
  rw [burnStep]
  split
  · exact .bind (reconcileBurn_ordersAway _ _) fun _ => trivial
  · split
    · exact .bind (.bind (.request trivial) fun txHash => .bind (.request rfl) fun _ =>
        reconcileBurn_ordersAway _ txHash) fun _ => trivial
    · trivial

theorem claimUnlessFiled_ordersAway {filed : Bool} {claim : Promise (Option BuyOrderDoc)}
    {order : BuyOrderDoc} {id : ObjectId} (hclaim : claim.Only Op.ordersAway) :
    (claimUnlessFiled filed claim order id).Only Op.ordersAway := by
  rw [claimUnlessFiled]
  split
  · trivial
  · refine .bind hclaim fun claimed => ?_
    cases claimed with
    | some _ => trivial
    | none => exact .request trivial

theorem burnAfterSwap_ordersAway (ctx : BuyContext) (swapped : BuyOrderDoc) (id : ObjectId)
    (wfairOut : Int) : (burnAfterSwap cfg ctx swapped id wfairOut).Only Op.ordersAway := by
  refine .bind (.request trivial) fun found => ?_
  refine .bind (claimUnlessFiled_ordersAway (.request ?_)) fun order => ?_
  · intro o ho
    simp [burnClaimable, ho]
  · cases order with
    | none => trivial
    | some order =>
        refine .bind (burnStep_ordersAway _ _) fun done => ?_
        split
        · exact .tryCatch (.request trivial) fun _ => alert_ordersAway _
        · trivial

theorem swapThenBurn_ordersAway (ctx : BuyContext) (id : ObjectId) :
    (swapThenBurn cfg ctx id).Only Op.ordersAway := by
  refine .bind (claimUnlessFiled_ordersAway (.request ?_)) fun order => ?_
  · intro o ho
    simp [swapClaimable, ho]
  · cases order with
    | none => trivial
    | some order =>
        refine .bind ?_ fun out => ?_
        · rw [swapStep]
          split
          · exact .bind (reconcileSwap_ordersAway _ _) fun _ => trivial
          · split
            · exact .bind (executeSwap_ordersAway _ (reconcileSwap_ordersAway _)) fun _ => trivial
            · trivial
        · cases out with
          | none => trivial
          | some wfairOut => exact burnAfterSwap_ordersAway _ _ _ _

theorem processBuy_ordersAway (id : ObjectId) : (processBuy cfg id).Only Op.ordersAway := by
  refine .bind ?_ fun ctx => ?_
  · refine .bind (.request trivial) fun order => ?_
    cases order with
    | none => trivial
    | some order =>
        simp only
        split
        · trivial
        · refine .bind (.ofExcept _) fun key => ?_
          split <;> trivial
  · cases ctx with
    | none => trivial
    | some ctx =>
        simp only
        split
        · trivial
        · split
          · trivial
          · exact swapThenBurn_ordersAway ctx id

theorem signNodeWallet_ordersAway (job : ReleaseJob) (d : WithdrawalDoc) :
    (signNodeWallet cfg job d).Only Op.ordersAway := by
  rw [signNodeWallet]
  split
  · refine .bind (fairTxExists_only (fun _ => trivial) _) fun known => ?_
    split
    · have hfile : ∀ t : Nat, (Withdrawal.updateById d.id
          { status := some .broadcast, fairBroadcastAt := some t }).Only Op.ordersAway :=
        fun t => .request trivial
      split
      · exact .bind (p := .pure _) trivial fun t => (hfile t).bind fun _ => trivial
      · exact .bind (.request trivial) fun t => (hfile t).bind fun _ => trivial
    · exact .bind (alert_ordersAway _) fun _ => trivial
  · exact .bind (.request trivial) fun _ => .bind (.request trivial) fun _ =>
      .bind (.request trivial) fun _ => .bind (.request trivial) fun _ => trivial

theorem releaseClaimed_ordersAway (job : ReleaseJob) (d : WithdrawalDoc) :
    (releaseClaimed cfg job d).Only Op.ordersAway := by
  refine .bind (signNodeWallet_ordersAway job d) fun txid => .bind (.request trivial) fun _ => ?_
  refine .tryCatch (.bind (.request ?_) fun _ => trivial) fun _ => trivial
  intro o ho
  simp [ho]

theorem signRelease_ordersAway (job : ReleaseJob) :
    (signRelease cfg job).Only Op.ordersAway := by
  refine .bind (.request trivial) fun initial => ?_
  cases initial with
  | none => trivial
  | some initial =>
      simp only
      split
      · trivial
      · split
        · trivial
        · split
          · trivial
          · refine .bind ?_ fun _ => .bind ?_ fun found => ?_
            · rw [rejectInvalidAddress]
              split
              · refine .bind (.request trivial) fun valid => ?_
                split
                · trivial
                · exact .bind (.request trivial) fun _ => trivial
              · trivial
            · rw [claimReleaseOrReread]
              split
              · refine .bind (.request trivial) fun claimed => ?_
                cases claimed with
                | some _ => trivial
                | none => exact .request trivial
              · trivial
            · cases found with
              | none => trivial
              | some d =>
                  simp only
                  split
                  · exact releaseClaimed_ordersAway job d
                  · trivial

end Requests

/-- The order was delivered before, and it is delivered still, by the same release. -/
def DeliveryKept (id : ObjectId) (w w' : World) : Prop :=
  ∀ o, w.buyOrders.get id = some o → o.status = .delivered →
    ∃ o', w'.buyOrders.get id = some o' ∧ o'.status = .delivered ∧
      o'.releaseFairTxId = o.releaseFairTxId

variable {ι : Type} {id : ObjectId} {w w' : World}

theorem DeliveryKept.of_same (h : w'.buyOrders = w.buyOrders) : DeliveryKept id w w' :=
  fun o ho hst => ⟨o, h ▸ ho, hst, rfl⟩

/-- An update either says nothing of the status, or does not reach a delivered order. -/
theorem DeliveryKept.update {filter : BuyOrderDoc → Bool} {sort : Option (BuyOrderDoc → Nat)}
    {u : BuyOrderSet}
    (h : ∀ o : BuyOrderDoc, w.buyOrders.get id = some o → o.status = .delivered →
      filter o = true → u.status = none ∧ u.releaseFairTxId = none) :
    DeliveryKept id w
      { w with buyOrders := (w.buyOrders.update refusals.duplicate filter sort u).2 } := by
  intro o ho hst
  obtain ⟨_, hc⟩ | ⟨_, _, _, _, _, hc⟩ | ⟨d, hd, hfilter, _, _, hc⟩ :=
    w.buyOrders.update_cases refusals.duplicate filter sort u
  · simp only [hc]
    exact ⟨o, ho, hst, rfl⟩
  · simp only [hc]
    exact ⟨o, ho, hst, rfl⟩
  · simp only [hc, Collection.get_modify]
    split
    · rename_i hid
      rw [← hid] at hd ⊢
      cases ho.symm.trans hd
      obtain ⟨hstatus, hrelease⟩ := h o ho hst hfilter
      refine ⟨_, by rw [ho]; rfl, ?_⟩
      simp [buyOrderSchema, BuyOrderSet.apply, hstatus, hrelease, hst]
    · exact ⟨o, ho, hst, rfl⟩

/-- What a request may do to a delivered order, it does by an update of its status. -/
theorem DeliveryKept.of_answer {β : Type} {op : Op β} {row : Option ObjectId} {out : Outcome}
    {r : Except JsError β} (hop : op.ordersAway) (hspares : op.overwritesDelivery id w = false)
    (h : answer row op out w = some (r, w')) : DeliveryKept id w w' := by
  by_cases hpart : op.part = .buyOrders
  · cases op with
    | buyOrder q =>
        obtain ⟨_, _, _, rfl⟩ | ⟨x, hx, _⟩ := answer_cases h
        · exact .of_same rfl
        · cases hx
          cases q with
          | findOne _ _ => exact .of_same rfl
          | find _ limit => cases limit <;> exact .of_same rfl
          | create _ => cases hop
          | findOneAndUpdate filter sort u =>
              refine .update fun o _ hst hfilter => ?_
              rw [hop o hst] at hfilter
              cases hfilter
          | updateOne filter u =>
              refine .update fun o ho hst hfilter => ⟨?_, hop⟩
              simp only [Op.overwritesDelivery, ho, Option.any_some, hst, hfilter, beq_self_eq_true,
                Bool.and_self, Bool.and_true] at hspares
              simpa using hspares
    | buyOrderUpdateMany _ _ => cases hop
    | _ => cases hpart
  · exact .of_same ((answer_frame h).buyOrders hpart)

theorem DeliveryKept.of_env {e : EnvEvent} (h : e.occur w = some w') : DeliveryKept id w w' := by
  intro o ho hst
  obtain ⟨o', ho', hcases⟩ := (EnvEvent.occur_surroundings h).buyOrders id o ho
  cases hcases with
  | inl hsame => exact ⟨o', ho', by rw [hsame]; exact hst, by rw [hsame]⟩
  | inr hmoved =>
      obtain ⟨status, hmoves, _⟩ := hmoved
      cases status <;> simp [BuyOrderDoc.movesTo, hst] at hmoves

def deliverySteady (cfg : Config) (ι : Type) (id : ObjectId) :
    Steady (service cfg (deliveryRuns ι)) where
  kept := DeliveryKept id
  ok _ op := op.ordersAway
  permits _ op w := op.overwritesDelivery id w = false
  refl _ := .of_same rfl
  trans h h' := by
    intro o ho hst
    obtain ⟨o', ho', hst', hrel⟩ := h o ho hst
    obtain ⟨o'', ho'', hst'', hrel'⟩ := h' o' ho' hst'
    exact ⟨o'', ho'', hst'', hrel'.trans hrel⟩
  env h := .of_env (service_env h).2
  tasks := by
    intro w i t h
    cases t with
    | processBuy buyOrderId => exact processBuy_ordersAway buyOrderId
    | signRelease job => exact signRelease_ordersAway job
    | _ => cases h
  step hop hspares _ hans := .of_answer hop hspares hans

namespace Sample

/-- An order whose swap and burn are filed and mined, and the withdrawal of its burn. -/
def burnedWorld : World where
  buyOrders := Collection.empty.insert 0
    { fairDestinationAddress := "fAddress", paymentAddress := some ⟨5⟩,
      paymentHdIndex := some 0, status := .burning,
      swapTxHash := some ⟨0⟩, burnTxHash := some ⟨1⟩ }
  withdrawals := Collection.empty.insert 0
    { baseBurnTxHash := ⟨1⟩, baseBlockNumber := 2, logIndex := 0, fromBaseAddress := ⟨5⟩,
      destinationFairAddress := "fAddress", amountWei := 990, amountSats := 10,
      status := .confirmed }
  base := { receipts := fun _ => some ⟨true, 1⟩ }
  fair := { custodySats := 100 }

def burnedJob : ReleaseJob where
  withdrawalId := 0
  destinationFairAddress := "fAddress"
  amountSats := 10
  baseBurnTxHash := ⟨1⟩
  logIndex := 0

/-- A run up to its last update of the order, with the receipt of the burn in hand, and
after it the whole release. -/
def releaseUnderRun : List (Event JsError Bool Task EnvEvent) :=
  .start true (.processBuy 0) :: List.replicate 5 (.step true .done) ++
    .start false (.signRelease burnedJob) :: List.replicate 9 (.step false .done)

/-- The run's update comes before the release does. -/
def releaseAfterRun : List (Event JsError Bool Task EnvEvent) :=
  .start true (.processBuy 0) :: List.replicate 7 (.step true .done) ++
    .start false (.signRelease burnedJob) :: List.replicate 9 (.step false .done)

/-- A later run reads the order. -/
def laterRun : List (Event JsError Bool Task EnvEvent) :=
  [.start true (.processBuy 0), .step true .done]

end Sample

end FairBridge

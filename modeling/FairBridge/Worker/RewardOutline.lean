import FairBridge.Worker.MasternodeReward

/-!
The requests of the reward worker: a property of all the requests it makes for the rows of a
cycle is a property of the programs that make them.
-/

namespace FairBridge
open Store Async

variable {ok : {β : Type} → Op β → Prop} {cfg : Config} {cycleId : ObjectId}

/-- The property holds of what is asked about the rows of the cycle, but for the payments. -/
structure RowRequests (ok : {β : Type} → Op β → Prop) (cycleId : ObjectId) : Prop where
  known : ∀ t, ok (.getRawTransaction t)
  webhook : ∀ m, ok (.webhook m)
  update : ∀ u, ok (.rewardCycle (.updateOne (fun d => d.id == cycleId && true)
    { payout := some u }))

namespace RowRequests
variable (h : RowRequests ok cycleId)
include h

theorem failRow (index : Nat) (message text : String) :
    ((do markPayoutFailed cycleId index message; alert cfg text; return true) :
      Promise Bool).Only ok :=
  .bind (.request (h.update _)) fun _ => .bind (alert_only h.webhook _) fun _ => trivial

theorem reconcilePayout (index : Nat) (payout : PayoutDoc) (existingTxid : Txid) :
    (reconcilePayout cfg cycleId index payout existingTxid).Only ok := by
  rw [FairBridge.reconcilePayout]
  split
  · trivial
  · refine .bind (fairTxExists_only h.known _) fun found => ?_
    split
    · exact .bind (.request (h.update _)) fun _ => trivial
    · exact h.failRow _ _ _

theorem payFresh (index : Nat) (payout : PayoutDoc)
    (hsend : ∀ address amount, ok (.sendToAddress address amount (some (cycleId, index)))) :
    (payFresh cfg cycleId index payout).Only ok :=
  .tryCatch (.bind (.request (hsend _ _)) fun _ => .bind (.request (h.update _)) fun _ =>
    .bind (.request (h.update _)) fun _ => trivial) fun _ => h.failRow _ _ _

theorem payoutStep (skip : List String) (index : Nat) (payout : PayoutDoc)
    (hsend : payout.txid = none → ∀ address amount,
      ok (.sendToAddress address amount (some (cycleId, index)))) :
    (payoutStep cfg cycleId skip index payout).Only ok := by
  rw [FairBridge.payoutStep]
  split
  · exact h.reconcilePayout _ _ _
  · rename_i hnone
    split
    · trivial
    · exact h.payFresh _ _ (hsend hnone)

/-- By induction on the rows. -/
theorem payoutSteps (skip : List String) (index : Nat) (anyFailed : Bool)
    (payouts : List PayoutDoc)
    (hsend : ∀ p ∈ payouts, p.txid = none → ∀ n address amount,
      ok (.sendToAddress address amount (some (cycleId, n)))) :
    (payoutSteps cfg cycleId skip index anyFailed payouts).Only ok := by
  induction payouts generalizing index anyFailed with
  | nil => trivial
  | cons p payouts ih =>
      refine .bind (h.payoutStep _ _ _ fun hnone => hsend p List.mem_cons_self hnone index)
        fun _ => ih _ _ ?_
      exact fun q hq => hsend q (List.mem_cons_of_mem p hq)

end RowRequests

theorem finaliseCycle_only (hread : ∀ filter, ok (.rewardCycle (.findOne filter none)))
    (haudit : ∀ e, ok (.auditLog e)) {anyFailed : Bool}
    (hfinal : ok (.rewardCycle (.updateOne
      (fun d => d.id == cycleId && d.status == .payingOut) (finalStatus anyFailed)))) :
    (finaliseCycle cycleId anyFailed).Only ok := by
  refine .bind (.request (hread _)) fun found => ?_
  cases found with
  | none => trivial
  | some fresh =>
      simp only
      split
      · exact .bind (.request hfinal) fun _ => .request (haudit _)
      · trivial

theorem readPool_only (hserved : ok .firstServed)
    (hpool : ∀ address, ok (.getReceivedByAddress address)) (hlist : ok .getMasternodeList) :
    (readPool cfg).Only ok := by
  have hbalance : (readPoolBalanceSats cfg).Only ok := by
    rw [readPoolBalanceSats]
    split
    · trivial
    · exact .request (hpool _)
  refine .bind (.request hserved) fun first => ?_
  split
  · exact .bind hbalance fun _ => .bind (.request hlist) fun _ => trivial
  · exact .bind (.request hlist) fun _ => .bind hbalance fun _ => trivial

end FairBridge

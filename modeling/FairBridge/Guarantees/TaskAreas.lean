import FairBridge.Service

/-!
Where each task of the service writes: a traversal of every program with the areas that its
requests reach.
-/

namespace FairBridge
open Store Async

/-- Where a request writes. The transactions of the wallets and the payments of the node are
told apart by what they are for. -/
inductive Area where
  | nowhere
  | deposits
  | withdrawals
  | buyOrders
  | buybackCycles
  | rewardCycles
  | cursor
  | audit
  | mintQueue
  | releaseQueue
  | buyQueue
  | mints
  | proposals
  | setups
  | orderTxs
  | cycleTxs
  | releases
  | payouts
  | memory
  deriving DecidableEq, Repr

def Purpose.area : Purpose → Area
  | .orderSwap _ | .orderBurn _ => .orderTxs
  | .cycleSwap _ | .cycleBurn _ _ => .cycleTxs
  | .setup => .setups

def Send.area (s : Send) : Area := if s.payout.isSome then .payouts else .releases

def Op.area {β : Type} : Op β → Area
  | .deposit (.findOne _ _) | .deposit (.find _ _) | .withdrawal (.findOne _ _)
  | .withdrawal (.find _ _) | .buyOrder (.findOne _ _) | .buyOrder (.find _ _)
  | .buybackCycle (.findOne _ _) | .buybackCycle (.find _ _) | .rewardCycle (.findOne _ _)
  | .rewardCycle (.find _ _) => .nowhere
  | .deposit _ => .deposits
  | .withdrawal _ => .withdrawals
  | .buyOrder _ | .buyOrderUpdateMany _ _ => .buyOrders
  | .buybackCycle _ => .buybackCycles
  | .rewardCycle _ => .rewardCycles
  | .cursorUpsert _ _ | .cursorSet _ _ => .cursor
  | .auditLog _ => .audit
  | .addMintJob _ | .takeJob (.mint _) | .finishJob (.mint _) _ => .mintQueue
  | .addReleaseJob _ | .takeJob (.release _) | .finishJob (.release _) _ => .releaseQueue
  | .addBuyJob _ | .takeJob (.buy _) | .finishJob (.buy _) _ => .buyQueue
  | .writeContract _ => .mints
  | .sendWallet _ _ purpose => purpose.area
  | .safeProposeTransaction _ _ => .proposals
  | .sendToAddress _ _ payout => if payout.isSome then .payouts else .releases
  | .totalSupply | .firstServed | .knownDepositAddress _ _ | .incNextIndex | .addAddress _
  | .respondIntent _ | .cacheAddresses _ => .memory
  | _ => .nowhere

/-- Where the task writes. -/
def Task.areas : Task → List Area
  | .postIntent _ _ => [.deposits, .memory]
  | .signMint _ _ => [.deposits, .mints, .proposals, .audit]
  | .signRelease _ => [.withdrawals, .releases, .buyOrders, .audit]
  | .processBuy _ => [.buyOrders, .setups, .orderTxs, .audit]
  | .processLog _ => [.withdrawals, .releaseQueue]
  | .reconcileOrphanWithdrawals => [.releaseQueue]
  | .startBaseWatcher _ => [.withdrawals, .releaseQueue, .cursor]
  | .processBlock _ _ => [.deposits, .mintQueue, .memory]
  | .reconcileOrphanDeposits => [.mintQueue]
  | .startFairWatcher _ _ => [.deposits, .mintQueue, .memory, .cursor]
  | .startBuyWatcher _ => [.buyOrders, .buyQueue]
  | .attemptBuy _ => [.buyOrders, .setups, .orderTxs, .audit, .buyQueue]
  | .runOneCycle => [.buybackCycles, .setups, .cycleTxs, .audit]
  | .runMasternodeRewardTick => [.rewardCycles, .payouts, .audit, .memory]

def Op.within (as : List Area) {β : Type} (op : Op β) : Prop :=
  if op.area == .nowhere || as.contains op.area then True else False

/-- The request writes in none of the areas. -/
def Op.beside (as : List Area) {β : Type} (op : Op β) : Prop :=
  if as.contains op.area then False else True

theorem Op.beside_area {as : List Area} {β : Type} {op : Op β} (h : op.beside as) {a : Area}
    (ha : as.contains a = true) : op.area ≠ a := by
  rintro rfl
  rwa [Op.beside, if_pos ha] at h

theorem within_beside {as bs : List Area}
    (h : (bs.all fun b => b != .nowhere && !as.contains b) = true) {α : Type} {p : Promise α}
    (hp : p.Only (Op.within as)) : p.Only (Op.beside bs) := by
  refine hp.mono fun op hop => ?_
  simp only [Op.within] at hop
  split at hop
  · rename_i hin
    rw [Op.beside, if_neg]
    · trivial
    · intro hc
      have hout := List.all_eq_true.mp h _ (List.contains_iff_mem.mp hc)
      rw [Bool.and_eq_true, bne_iff_ne, Bool.not_eq_true'] at hout
      rw [Bool.or_eq_true, beq_iff_eq] at hin
      cases hin with
      | inl hnowhere => exact hout.1 hnowhere
      | inr hc => cases hout.2.symm.trans hc
  · exact hop.elim

section Programs
variable {α : Type} {as : List Area} {cfg : Config}

theorem alert_within (message : String) : (alert cfg message).Only (Op.within as) :=
  alert_only (fun _ => trivial) message

theorem of_within (x : Except JsError α) : (Promise.of x).Only (Op.within as) := .ofExcept x

section Deposits

theorem postIntent_within (baseAddress : Address) (clientIp : Option String) :
    (postIntent cfg baseAddress clientIp).Only (Op.within [.deposits, .memory]) := by
  have hcreate : (createIntent cfg baseAddress clientIp).Only
      (Op.within [.deposits, .memory]) := by
    refine .bind (.bind (.bind (.request trivial) fun _ => trivial) fun _ =>
      .bind (of_within _) fun _ => .bind (.request trivial) fun _ => trivial) fun _ => ?_
    exact .bind (.request trivial) fun _ => .request trivial
  rw [postIntent]
  split
  · refine .bind (.request trivial) fun rows => ?_
    split
    · trivial
    · exact hcreate
  · exact hcreate

theorem finalizeDirectEoa_within (id : ObjectId) (txHash : Hash) :
    (finalizeDirectEoa cfg id txHash).Only
      (Op.within [.deposits, .mints, .proposals, .audit]) := by
  refine .bind (.request trivial) fun receipt => ?_
  split
  · exact .request trivial
  · exact .bind (.request trivial) fun _ => .bind (alert_within _) fun _ => trivial

theorem signDirectEoa_within (job : MintJob) (deposit : DepositDoc) :
    (signDirectEoa cfg job deposit).Only (Op.within [.deposits, .mints, .proposals, .audit]) := by
  rw [signDirectEoa]
  split
  · exact .bind (finalizeDirectEoa_within _ _) fun _ => trivial
  · refine .bind (.bind (of_within _) fun _ => .bind (of_within _) fun _ => .request trivial)
      fun txHash => .bind (.request trivial) fun _ => ?_
    exact .bind (finalizeDirectEoa_within _ _) fun _ => trivial

theorem signSafeProposal_within (job : MintJob) (deposit : DepositDoc) :
    (signSafeProposal cfg job deposit).Only
      (Op.within [.deposits, .mints, .proposals, .audit]) := by
  refine .bind ?_ fun _ => ?_
  · rw [buildSafeContext]
    split
    · exact .request trivial
    · trivial
  · split
    · refine .bind (.tryCatch (.bind (.request trivial) fun _ => trivial) fun _ => trivial)
        fun known => ?_
      split
      · trivial
      · exact .bind (alert_within _) fun _ => trivial
    · exact .bind (of_within _) fun _ => .bind (.request trivial) fun _ =>
        .bind (.request trivial) fun _ => .bind (.request trivial) fun _ =>
        .bind (.request trivial) fun _ => .bind (.request trivial) fun _ =>
        .bind (alert_within _) fun _ => trivial

theorem signClaimed_within (job : MintJob) (deposit : DepositDoc) :
    (signClaimed cfg job deposit).Only (Op.within [.deposits, .mints, .proposals, .audit]) := by
  rw [signClaimed]
  split
  · refine .bind (signSafeProposal_within job deposit) fun _ => ?_
    exact .request trivial
  · refine .bind (signDirectEoa_within job deposit) fun _ => ?_
    exact .request trivial

theorem signMint_within (job : MintJob) :
    (signMint cfg job).Only (Op.within [.deposits, .mints, .proposals, .audit]) := by
  refine .bind (.request trivial) fun initial => ?_
  cases initial with
  | none => trivial
  | some initial =>
      simp only
      split
      · trivial
      split
      · trivial
      refine .bind ?_ fun deposit => ?_
      · rw [claimOrReread]
        split
        · refine .bind (.request trivial) fun claimed => ?_
          cases claimed with
          | some _ => trivial
          | none => exact .request trivial
        · trivial
      · cases deposit with
        | none => trivial
        | some deposit =>
            simp only
            split
            · exact signClaimed_within job deposit
            · trivial

theorem refuseDeposit_within (v : ScannedVout) (m : MatchedDeposit) (origin : DepositDoc)
    (reason : String) : (refuseDeposit cfg v m origin reason).Only
      (Op.within [.deposits, .mintQueue, .memory]) := by
  refine .bind ?_ fun _ => alert_within _
  rw [persistTerminalDeposit]
  split
  · exact .request trivial
  · exact .bind (.request trivial) fun _ => trivial

theorem creditDeposit_within (v : ScannedVout) (m : MatchedDeposit) (origin : DepositDoc)
    (postFeeWei maxTvlWei : Int) : (creditDeposit cfg v m origin postFeeWei maxTvlWei).Only
      (Op.within [.deposits, .mintQueue, .memory]) := by
  refine .bind ?_ fun read => ?_
  · refine .bind (.request trivial) fun first => ?_
    split
    · exact .bind (.request trivial) fun _ => .bind (.bind (.request trivial) fun _ => trivial)
        fun _ => trivial
    · exact .bind (.bind (.request trivial) fun _ => trivial) fun _ => .bind (.request trivial)
        fun _ => trivial
  · split
    split
    · exact refuseDeposit_within v m origin _
    · refine .bind ?_ fun confirmed => ?_
      · rw [confirmDeposit]
        split
        · refine .bind (.request trivial) fun updated => ?_
          cases updated <;> trivial
        · refine .tryCatch (.bind (.request trivial) fun _ => trivial) fun err => ?_
          split <;> trivial
      · cases confirmed with
        | none => trivial
        | some id => exact .request trivial

theorem processVout_within (v : ScannedVout) :
    (processVout cfg v).Only (Op.within [.deposits, .mintQueue, .memory]) := by
  refine .bind ?_ fun found => ?_
  · rw [matchVout]
    split
    · trivial
    · refine .bind (.request trivial) fun known => ?_
      split
      · refine .bind (.request trivial) fun pending => ?_
        cases pending with
        | some _ => trivial
        | none => exact .bind (.request trivial) fun _ => trivial
      · trivial
  · cases found with
    | none => trivial
    | some m =>
        refine .bind (.request trivial) fun old => ?_
        cases old with
        | some _ => trivial
        | none =>
            refine .bind (of_within _) fun postFeeWei => .bind (of_within _) fun minSats =>
              .bind (of_within _) fun cap => .bind (of_within _) fun maxTvl => ?_
            split
            · exact .bind (.request trivial) fun _ => alert_within _
            · split
              · exact refuseDeposit_within v m _ _
              · refine .bind (.bind (.request trivial) fun _ =>
                  .bind (.request trivial) fun _ => trivial) fun dailySoFar => ?_
                split
                · exact refuseDeposit_within v m _ _
                · exact creditDeposit_within v m _ _ _

theorem processBlock_within (height tip : Nat) :
    (processBlock cfg height tip).Only (Op.within [.deposits, .mintQueue, .memory]) := by
  refine .bind (.request trivial) fun block => ?_
  induction block.vouts with
  | nil => trivial
  | cons x vouts ih => exact .bind (processVout_within _) fun _ => ih

theorem enqueueMints_within (orphans : List DepositDoc) :
    (enqueueMints orphans).Only (Op.within [.mintQueue]) := by
  induction orphans with
  | nil => trivial
  | cons orphan orphans ih =>
      rw [enqueueMints]
      split
      · exact ih
      · exact .bind (.request trivial) fun _ => ih

theorem reconcileOrphanDeposits_within :
    reconcileOrphanDeposits.Only (Op.within [.mintQueue]) :=
  .bind (.request trivial) fun _ => .bind (.request trivial) fun _ => enqueueMints_within _

/-- What stays within fewer areas stays within more. -/
theorem within_mono {bs : List Area} {p : Promise α} (h : p.Only (Op.within as))
    (hsub : ∀ a ∈ as, a ∈ bs) : p.Only (Op.within bs) := by
  refine h.mono fun op hop => ?_
  simp only [Op.within] at hop ⊢
  split at hop
  · rename_i hc
    rw [if_pos]
    · trivial
    · rw [Bool.or_eq_true, List.contains_iff_mem] at hc ⊢
      exact hc.imp id (hsub _)
  · exact absurd hop id

theorem scanHeights_within (tip : Nat) (safeTip : JsNumber) (n : Nat) (height : Int) :
    (scanHeights cfg tip safeTip n height).Only
      (Op.within [.deposits, .mintQueue, .memory, .cursor]) := by
  induction n generalizing height with
  | zero => trivial
  | succ n ih =>
      rw [scanHeights]
      split
      · refine .bind (.request trivial) fun aborted => ?_
        split
        · trivial
        · refine .bind ?_ fun _ => .bind (.request trivial) fun _ => ih _
          rw [processHeight]
          split
          · exact within_mono (processBlock_within _ _) (by decide)
          · trivial
      · trivial

theorem fairWatcherLoop_within (heights rounds : Nat) :
    (fairWatcherLoop cfg heights rounds).Only
      (Op.within [.deposits, .mintQueue, .memory, .cursor]) := by
  induction rounds with
  | zero => trivial
  | succ rounds ih =>
      refine .bind (.request trivial) fun aborted => ?_
      split
      · trivial
      · refine .bind (.tryCatch ?_ fun _ => trivial) fun _ => ih
        refine .bind (within_mono reconcileOrphanDeposits_within (by decide)) fun _ =>
          .bind (.request trivial) fun tip => .bind (.request trivial) fun last => ?_
        dsimp only
        split
        · exact scanHeights_within _ _ _ _
        · trivial

theorem startFairWatcher_within (rounds heights : Nat) :
    (startFairWatcher cfg rounds heights).Only
      (Op.within [.deposits, .mintQueue, .memory, .cursor]) := by
  refine .bind ?_ fun _ => fairWatcherLoop_within heights rounds
  refine .bind (.request trivial) fun loaded => ?_
  split
  · trivial
  · exact .bind (.request trivial) fun _ => .request trivial

end Deposits

section Withdrawals

theorem signNodeWallet_within (job : ReleaseJob) (withdrawal : WithdrawalDoc) :
    (signNodeWallet cfg job withdrawal).Only (Op.within [.withdrawals, .releases]) := by
  rw [signNodeWallet]
  split
  · refine .bind (fairTxExists_only (fun _ => trivial) _) fun known => ?_
    split
    · have hfile : ∀ t : Nat, (Withdrawal.updateById withdrawal.id
          { status := some .broadcast, fairBroadcastAt := some t }).Only
            (Op.within [.withdrawals, .releases]) := fun _ => .request trivial
      split
      · exact .bind (p := .pure _) trivial fun t => .bind (hfile t) fun _ => trivial
      · exact .bind (.request trivial) fun t => .bind (hfile t) fun _ => trivial
    · exact .bind (alert_within _) fun _ => trivial
  · exact .bind (.request trivial) fun _ => .bind (.request trivial) fun _ =>
      .bind (.request trivial) fun _ => .bind (.request trivial) fun _ => trivial

theorem signRelease_within (job : ReleaseJob) :
    (signRelease cfg job).Only (Op.within [.withdrawals, .releases, .buyOrders, .audit]) := by
  refine .bind (.request trivial) fun initial => ?_
  cases initial with
  | none => trivial
  | some initial =>
      simp only
      split
      · trivial
      split
      · trivial
      split
      · trivial
      refine .bind ?_ fun _ => .bind ?_ fun withdrawal => ?_
      · rw [rejectInvalidAddress]
        split
        · refine .bind (.request trivial) fun isvalid => ?_
          split
          · trivial
          · exact .bind (.request trivial) fun _ => trivial
        · trivial
      · rw [claimReleaseOrReread]
        split
        · refine .bind (.request trivial) fun claimed => ?_
          cases claimed with
          | some _ => trivial
          | none => exact .request trivial
        · trivial
      · cases withdrawal with
        | none => trivial
        | some withdrawal =>
            simp only
            split
            · refine .bind (within_mono (signNodeWallet_within job withdrawal) (by decide))
                fun txid =>
                .bind (.request trivial) fun _ => .tryCatch ?_ fun _ => trivial
              exact .bind (.request trivial) fun _ => trivial
            · trivial

theorem processLog_within (log : Log) :
    (processLog cfg log).Only (Op.within [.withdrawals, .releaseQueue]) := by
  rw [processLog]
  split
  · rename_i l _
    have hrefuse : ∀ reason, (refuseBurn cfg l reason).Only
        (Op.within [.withdrawals, .releaseQueue]) := fun reason =>
      .bind (.request trivial) fun _ => alert_within reason
    refine .bind (.request trivial) fun old => ?_
    cases old with
    | some _ => trivial
    | none =>
        refine .bind (of_within _) fun cap =>
          .bind (.tryCatch (.request trivial) fun _ => trivial) fun isvalid => ?_
        split
        · refine .bind (.bind (.request trivial) fun _ => .bind (.request trivial) fun _ =>
            trivial) fun dailySoFar => ?_
          split
          · exact hrefuse _
          · exact .bind (of_within _) fun _ => .bind (.request trivial) fun _ =>
              .request trivial
        · exact hrefuse _
  · trivial

theorem enqueueReleases_within (orphans : List WithdrawalDoc) :
    (enqueueReleases orphans).Only (Op.within [.releaseQueue]) := by
  induction orphans with
  | nil => trivial
  | cons orphan orphans ih => exact .bind (.request trivial) fun _ => ih

theorem reconcileOrphanWithdrawals_within :
    reconcileOrphanWithdrawals.Only (Op.within [.releaseQueue]) :=
  .bind (.request trivial) fun _ => .bind (.request trivial) fun _ => enqueueReleases_within _

theorem processLogs_within (logs : List Log) :
    (processLogs cfg logs).Only (Op.within [.withdrawals, .releaseQueue]) := by
  induction logs with
  | nil => trivial
  | cons log logs ih =>
      refine .bind (.request trivial) fun aborted => ?_
      split
      · trivial
      · exact .bind (processLog_within log) fun _ => ih

theorem scanWindows_within (safeTip : Int) (n : Nat) (windowFrom : Int) :
    (scanWindows cfg safeTip n windowFrom).Only
      (Op.within [.withdrawals, .releaseQueue, .cursor]) := by
  induction n generalizing windowFrom with
  | zero => trivial
  | succ n ih =>
      rw [scanWindows]
      split
      · refine .bind (.request trivial) fun aborted => ?_
        split
        · trivial
        · exact .bind (.request trivial) fun logs =>
            .bind (within_mono (processLogs_within logs) (by decide)) fun _ =>
            .bind (.request trivial) fun _ => ih _
      · trivial

theorem startBaseWatcher_within (rounds : Nat) :
    (startBaseWatcher cfg rounds).Only (Op.within [.withdrawals, .releaseQueue, .cursor]) := by
  induction rounds with
  | zero => trivial
  | succ rounds ih =>
      refine .bind (.request trivial) fun aborted => ?_
      split
      · trivial
      · refine .bind (.tryCatch ?_ fun _ => trivial) fun _ => ih
        exact .bind (within_mono reconcileOrphanWithdrawals_within (by decide)) fun _ =>
          .bind (.request trivial) fun _ => .bind (.request trivial) fun _ =>
          .bind (of_within _) fun _ => scanWindows_within _ _ _

end Withdrawals

section Orders

theorem detectOrders_within (orders : List BuyOrderDoc) :
    (detectOrders orders).Only (Op.within [.buyOrders, .buyQueue]) := by
  induction orders with
  | nil => trivial
  | cons order orders ih =>
      rw [detectOrders]
      split
      · exact ih
      · refine .bind (.tryCatch (.bind (.request trivial) fun _ => trivial) fun _ => trivial)
          fun balance => ?_
        cases balance with
        | none => exact ih
        | some balance =>
            simp only
            split
            · exact ih
            · refine .bind (.request trivial) fun claimed => ?_
              cases claimed with
              | none => exact ih
              | some claimed => exact .bind (.request trivial) fun _ => ih

theorem startBuyWatcher_within (rounds : Nat) :
    (startBuyWatcher cfg rounds).Only (Op.within [.buyOrders, .buyQueue]) := by
  rw [startBuyWatcher]
  split
  · induction rounds with
    | zero => trivial
    | succ rounds ih =>
        refine .bind (.request trivial) fun aborted => ?_
        split
        · trivial
        · refine .bind (.tryCatch ?_ fun _ => trivial) fun _ => ih
          exact .bind (.bind (.request trivial) fun _ => .request trivial) fun _ =>
            .bind (.request trivial) fun _ => .bind (.request trivial) fun _ =>
            detectOrders_within _
  · trivial

theorem landSetup_within (sender : Address) (setup : WalletCall) (reverted : Hash → String)
    (h : as.contains .setups = true) :
    (landSetup sender setup reverted).Only (Op.within as) := by
  refine .bind (.request ?_) fun txHash => .bind (.request trivial) fun receipt => ?_
  · rw [Op.within, if_pos]
    · trivial
    · exact Bool.or_eq_true _ _ ▸ Or.inr h
  · split <;> trivial

theorem reconcileSwap_within (ctx : BuyContext) (txHash : Hash) :
    (reconcileSwap ctx txHash).Only (Op.within [.buyOrders, .setups, .orderTxs, .audit]) := by
  refine .bind (.request trivial) fun receipt => ?_
  split
  · exact .request trivial
  · exact .bind (.request trivial) fun _ => trivial

theorem executeSwap_within (ctx : BuyContext) :
    (executeSwap cfg ctx).Only (Op.within [.buyOrders, .setups, .orderTxs, .audit]) := by
  refine .bind (.request trivial) fun usdcBalance => ?_
  split
  · trivial
  · refine .bind (.bind (.request trivial) fun _ => ?_) fun _ =>
      .bind (.bind (.request trivial) fun _ => ?_) fun _ => .bind (.request trivial) fun _ =>
      .bind (.request trivial) fun _ => .bind (.request trivial) fun _ =>
      .bind (reconcileSwap_within ctx _) fun _ => .bind (.request trivial) fun _ => trivial
    · split
      · trivial
      · exact .bind (of_within _) fun _ => landSetup_within _ _ _ rfl
    · split
      · trivial
      · exact landSetup_within _ _ _ rfl

theorem reconcileBurn_within (ctx : BuyContext) (txHash : Hash) :
    (reconcileBurn ctx txHash).Only (Op.within [.buyOrders, .setups, .orderTxs, .audit]) := by
  refine .bind (.request trivial) fun receipt => ?_
  split
  · exact .request trivial
  · exact .bind (.request trivial) fun _ => trivial

theorem claimUnlessFiled_within {filed : Bool} {claim : Promise (Option BuyOrderDoc)}
    {order : BuyOrderDoc} {id : ObjectId}
    (h : claim.Only (Op.within as)) : (claimUnlessFiled filed claim order id).Only
      (Op.within as) := by
  rw [claimUnlessFiled]
  split
  · trivial
  · refine .bind h fun claimed => ?_
    cases claimed with
    | some _ => trivial
    | none => exact .request trivial

theorem burnAfterSwap_within (ctx : BuyContext) (swapped : BuyOrderDoc) (id : ObjectId)
    (wfairOut : Int) : (burnAfterSwap cfg ctx swapped id wfairOut).Only
      (Op.within [.buyOrders, .setups, .orderTxs, .audit]) := by
  refine .bind (.request trivial) fun found =>
    .bind (claimUnlessFiled_within (.request trivial)) fun order => ?_
  cases order with
  | none => trivial
  | some order =>
      refine .bind ?_ fun burned => ?_
      · rw [burnStep]
        split
        · exact .bind (reconcileBurn_within _ _) fun _ => trivial
        · split
          · refine .bind ?_ fun _ => trivial
            exact .bind (.request trivial) fun _ => .bind (.request trivial) fun _ =>
              reconcileBurn_within _ _
          · trivial
      · split
        · exact .tryCatch (.request trivial) fun _ => alert_within _
        · trivial

theorem processBuy_within (id : ObjectId) :
    (processBuy cfg id).Only (Op.within [.buyOrders, .setups, .orderTxs, .audit]) := by
  refine .bind ?_ fun ctx => ?_
  · refine .bind (.request trivial) fun order => ?_
    cases order with
    | none => trivial
    | some order =>
        simp only
        split
        · trivial
        · refine .bind (of_within _) fun key => ?_
          split <;> trivial
  · cases ctx with
    | none => trivial
    | some ctx =>
        simp only
        split
        · trivial
        split
        · trivial
        refine .bind (claimUnlessFiled_within (.request trivial)) fun order => ?_
        cases order with
        | none => trivial
        | some order =>
            refine .bind ?_ fun wfairOut => ?_
            · rw [swapStep]
              split
              · exact .bind (reconcileSwap_within _ _) fun _ => trivial
              · split
                · exact .bind (executeSwap_within _) fun _ => trivial
                · trivial
            · cases wfairOut with
              | none => trivial
              | some wfairOut => exact burnAfterSwap_within _ _ _ _

theorem attemptBuy_within (id : ObjectId) :
    (attempt (.buy id) (buyProcessor cfg id)).Only
      (Op.within [.buyOrders, .setups, .orderTxs, .audit, .buyQueue]) := by
  have hprocess : (buyProcessor cfg id).Only
      (Op.within [.buyOrders, .setups, .orderTxs, .audit, .buyQueue]) := by
    refine .tryCatch (within_mono (processBuy_within id) (by decide)) fun err => ?_
    split
    · exact .bind (alert_within _) fun _ => trivial
    · trivial
  refine .bind (.request trivial) fun _ => .bind (.tryCatch (.bind hprocess fun _ => trivial)
    fun _ => ?_) fun _ => .request trivial
  trivial

end Orders

section Cycles

theorem awaitSuccess_within (id : ObjectId) (what : String) (txHash : Hash) :
    (awaitSuccess cfg id what txHash).Only
      (Op.within [.buybackCycles, .setups, .cycleTxs, .audit]) := by
  refine .bind (.request trivial) fun receipt => ?_
  split
  · trivial
  · exact .bind (.bind (.request trivial) fun _ => alert_within _) fun _ => trivial

theorem reloadCycle_within (id : ObjectId) (vanished : String) :
    (reloadCycle id vanished).Only (Op.within [.buybackCycles, .setups, .cycleTxs, .audit]) := by
  refine .bind (.request trivial) fun found => ?_
  cases found <;> trivial

theorem runSwapStep_within (cycle : BuybackCycleDoc) (admin : Address) :
    (runSwapStep cfg cycle admin).Only
      (Op.within [.buybackCycles, .setups, .cycleTxs, .audit]) := by
  rw [runSwapStep]
  split
  · refine .bind (awaitSuccess_within _ _ _) fun _ => .bind ?_ fun _ =>
      .bind (reloadCycle_within _ _) fun _ => trivial
    rw [acquiredOnFile]
    split
    · trivial
    · exact .bind (.request trivial) fun _ => .bind (.request trivial) fun _ => trivial
  · refine .bind (.request trivial) fun _ => .bind (.bind (.request trivial) fun _ => ?_) fun _ =>
      .bind (.request trivial) fun _ => .bind (.bind (.request trivial) fun _ =>
        .bind (of_within _) fun _ => .request trivial) fun txHash =>
      .bind (.request trivial) fun _ => .bind (awaitSuccess_within _ _ _) fun _ =>
      .bind (.request trivial) fun _ => ?_
    · split
      · trivial
      · exact .bind (of_within _) fun _ => landSetup_within _ _ _ rfl
    · dsimp only
      split
      · exact .bind (.bind (.request trivial) fun _ => alert_within _) fun _ => trivial
      · exact .bind (.request trivial) fun _ => .bind (reloadCycle_within _ _) fun _ => trivial

theorem runBurnSteps_within (admin : Address) (destinations : BurnLabel → String)
    (shares : BurnLabel → Int) (cycle : BuybackCycleDoc) (labels : List BurnLabel) :
    (runBurnSteps cfg admin destinations shares cycle labels).Only
      (Op.within [.buybackCycles, .setups, .cycleTxs, .audit]) := by
  induction labels generalizing cycle with
  | nil => trivial
  | cons label labels ih =>
      refine .bind ?_ fun _ => .bind (reloadCycle_within _ _) fun _ => ih _
      rw [runBurnStep]
      split
      · exact awaitSuccess_within _ _ _
      · exact .bind (.request trivial) fun _ => .bind (.bind (of_within _) fun _ =>
          .request trivial) fun _ => .bind (.request trivial) fun _ => awaitSuccess_within _ _ _

theorem validateDestination_within (label : BurnLabel) (address : String) :
    (validateDestination label address).Only
      (Op.within [.buybackCycles, .setups, .cycleTxs, .audit]) := by
  refine .bind (.tryCatch (.request trivial) fun _ => trivial) fun isvalid => ?_
  split <;> trivial

theorem runOneCycle_within :
    (runOneCycle cfg).Only (Op.within [.buybackCycles, .setups, .cycleTxs, .audit]) := by
  rw [runOneCycle]
  split
  · trivial
  refine .bind (of_within _) fun _ => .bind (of_within _) fun destinations =>
    .bind (.bind (validateDestination_within _ _) fun _ => .bind (validateDestination_within _ _)
      fun _ => validateDestination_within _ _) fun _ => .bind (of_within _) fun threshold =>
    .bind (.request trivial) fun currentUsdc => .bind ?_ fun cycle => ?_
  · refine .bind (.request trivial) fun found => ?_
    cases found with
    | some _ => trivial
    | none =>
        simp only
        split
        · trivial
        · exact .bind (.request trivial) fun _ => .bind (.request trivial) fun _ => trivial
  · cases cycle with
    | none => trivial
    | some cycle =>
        refine .tryCatch (.bind (runSwapStep_within _ _) fun swapped => .bind (of_within _)
          fun shares => .bind (runBurnSteps_within _ _ _ _ _) fun live =>
          .bind (.request trivial) fun _ => .bind (.tryCatch (.request trivial) fun _ =>
            alert_within _) fun _ => .request trivial) fun err => ?_
        refine .bind (.request trivial) fun found => ?_
        cases found with
        | none => trivial
        | some refreshed =>
            simp only
            split
            · exact .bind (alert_within _) fun _ => trivial
            · trivial

end Cycles

section Rewards

theorem payoutStep_within (cycleId : ObjectId) (skip : List String) (index : Nat)
    (payout : PayoutDoc) : (payoutStep cfg cycleId skip index payout).Only
      (Op.within [.rewardCycles, .payouts, .audit, .memory]) := by
  rw [payoutStep]
  split
  · rw [reconcilePayout]
    split
    · trivial
    · refine .bind (fairTxExists_only (fun _ => trivial) _) fun known => ?_
      split
      · exact .bind (.request trivial) fun _ => trivial
      · exact .bind (.request trivial) fun _ => .bind (alert_within _) fun _ => trivial
  · split
    · trivial
    · refine .tryCatch (.bind (.request trivial) fun _ => .bind (.request trivial) fun _ =>
        .bind (.request trivial) fun _ => trivial) fun err => ?_
      exact .bind (.request trivial) fun _ => .bind (alert_within _) fun _ => trivial

theorem payoutSteps_within (cycleId : ObjectId) (skip : List String) (index : Nat)
    (anyFailed : Bool) (payouts : List PayoutDoc) :
    (payoutSteps cfg cycleId skip index anyFailed payouts).Only
      (Op.within [.rewardCycles, .payouts, .audit, .memory]) := by
  induction payouts generalizing index anyFailed with
  | nil => trivial
  | cons payout payouts ih => exact .bind (payoutStep_within _ _ _ _) fun _ => ih _ _

theorem executeCycle_within (cycle : RewardCycleDoc) : (executeCycle cfg cycle).Only
    (Op.within [.rewardCycles, .payouts, .audit, .memory]) := by
  refine .bind (payoutSteps_within _ _ _ _ _) fun anyFailed =>
    .bind (.request trivial) fun found => ?_
  cases found with
  | none => trivial
  | some fresh =>
      simp only
      split
      · exact .bind (.request trivial) fun _ => .request trivial
      · trivial

theorem readPool_within : (readPool cfg).Only
    (Op.within [.rewardCycles, .payouts, .audit, .memory]) := by
  have hbalance : (readPoolBalanceSats cfg).Only
      (Op.within [.rewardCycles, .payouts, .audit, .memory]) := by
    rw [readPoolBalanceSats]
    split
    · trivial
    · exact .request trivial
  refine .bind (.request trivial) fun first => ?_
  split
  · exact .bind hbalance fun _ => .bind (.request trivial) fun _ => trivial
  · exact .bind (.request trivial) fun _ => .bind hbalance fun _ => trivial

theorem runMasternodeRewardTick_within : (runMasternodeRewardTick cfg).Only
    (Op.within [.rewardCycles, .payouts, .audit, .memory]) := by
  have hskip : ∀ status pool count per, (recordSkip status pool count per).Only
      (Op.within [.rewardCycles, .payouts, .audit, .memory]) := fun _ _ _ _ =>
    .bind (.request trivial) fun _ => .bind (.request trivial) fun _ => .request trivial
  rw [runMasternodeRewardTick]
  split
  · trivial
  refine .bind (.request trivial) fun resumable => ?_
  cases resumable with
  | some resumable => exact executeCycle_within resumable
  | none =>
      refine .bind (.request trivial) fun now =>
        .bind (.bind (.request trivial) fun _ => trivial) fun recent => ?_
      split
      · trivial
      refine .bind readPool_within fun read => .bind (of_within _) fun minBalanceSats => ?_
      split
      · exact hskip _ _ _ _
      split
      · exact hskip _ _ _ _
      refine .bind (of_within _) fun per => ?_
      split
      · exact hskip _ _ _ _
      refine .bind (.request trivial) fun _ => .bind (.request trivial) fun _ =>
        .bind (.request trivial) fun lean => ?_
      cases lean with
      | none => trivial
      | some lean => exact executeCycle_within lean

end Rewards

/-- A task writes in its areas only. -/
theorem Task.program_within (t : Task) : (t.program cfg).Only (Op.within t.areas) := by
  cases t with
  | postIntent baseAddress clientIp => exact postIntent_within baseAddress clientIp
  | signMint mode job => exact signMint_within job
  | signRelease job => exact signRelease_within job
  | processBuy id => exact processBuy_within id
  | processLog log => exact processLog_within log
  | reconcileOrphanWithdrawals => exact reconcileOrphanWithdrawals_within
  | startBaseWatcher rounds => exact startBaseWatcher_within rounds
  | processBlock height tip => exact processBlock_within height tip
  | reconcileOrphanDeposits => exact reconcileOrphanDeposits_within
  | startFairWatcher rounds heights => exact startFairWatcher_within rounds heights
  | startBuyWatcher rounds => exact startBuyWatcher_within rounds
  | attemptBuy id => exact attemptBuy_within id
  | runOneCycle => exact .bind runOneCycle_within fun _ => trivial
  | runMasternodeRewardTick => exact runMasternodeRewardTick_within

end Programs

end FairBridge

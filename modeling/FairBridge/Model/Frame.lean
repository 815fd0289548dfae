import FairBridge.Model.Requests

/-!
Which part of the world a request can change. All the other parts are left as they were.
-/

namespace FairBridge
open Store

inductive Part where
  | none
  | deposits
  | withdrawals
  | buyOrders
  | buybackCycles
  | rewardCycles
  | cursor
  | audit
  | queues
  | mints
  | wallets
  | proposals
  | payments
  | memory
  deriving DecidableEq, Repr

def Op.part {β : Type} : Op β → Part
  | .deposit _ => .deposits
  | .withdrawal _ => .withdrawals
  | .buyOrder _ | .buyOrderUpdateMany _ _ => .buyOrders
  | .buybackCycle _ => .buybackCycles
  | .rewardCycle _ => .rewardCycles
  | .cursorUpsert _ _ | .cursorSet _ _ => .cursor
  | .auditLog _ => .audit
  | .addMintJob _ | .addReleaseJob _ | .addBuyJob _ | .takeJob _ | .finishJob _ _ => .queues
  | .writeContract _ => .mints
  | .sendWallet _ _ _ => .wallets
  | .safeProposeTransaction _ _ => .proposals
  | .sendToAddress _ _ _ => .payments
  | .totalSupply | .firstServed | .knownDepositAddress _ _ | .incNextIndex | .addAddress _
  | .respondIntent _ | .cacheAddresses _ => .memory
  | _ => .none

/-- The two worlds differ at most in the given part. -/
structure Frame (reached : Part) (w w' : World) : Prop where
  now : w'.now = w.now
  deposits : reached ≠ .deposits → w'.deposits = w.deposits
  withdrawals : reached ≠ .withdrawals → w'.withdrawals = w.withdrawals
  buyOrders : reached ≠ .buyOrders → w'.buyOrders = w.buyOrders
  buybackCycles : reached ≠ .buybackCycles → w'.buybackCycles = w.buybackCycles
  rewardCycles : reached ≠ .rewardCycles → w'.rewardCycles = w.rewardCycles
  audit : reached ≠ .audit → w'.audit = w.audit
  calls : reached ≠ .mints → w'.base.calls = w.base.calls
  safe : reached ≠ .proposals → w'.safe = w.safe
  fair : reached ≠ .payments → w'.fair = w.fair
  buyQueue : reached ≠ .queues → w'.buyQueue = w.buyQueue
  walletTxs : reached ≠ .wallets → w'.base.walletTxs = w.base.walletTxs

variable {β : Type} {op : Op β} {row : Option ObjectId} {w w' : World} {x : Except JsError β}

theorem Frame.same {reached : Part} (hnow : w'.now = w.now) (hdeps : w'.deposits = w.deposits)
    (hwith : w'.withdrawals = w.withdrawals) (horders : w'.buyOrders = w.buyOrders)
    (hbuyback : w'.buybackCycles = w.buybackCycles) (hreward : w'.rewardCycles = w.rewardCycles)
    (haudit : w'.audit = w.audit) (hcalls : w'.base.calls = w.base.calls)
    (hsafe : w'.safe = w.safe) (hfair : w'.fair = w.fair)
    (hqueue : w'.buyQueue = w.buyQueue) (hwallets : w'.base.walletTxs = w.base.walletTxs) :
    Frame reached w w' :=
  ⟨hnow, fun _ => hdeps, fun _ => hwith, fun _ => horders, fun _ => hbuyback, fun _ => hreward,
    fun _ => haudit, fun _ => hcalls, fun _ => hsafe, fun _ => hfair, fun _ => hqueue,
    fun _ => hwallets⟩

theorem Frame.refl (reached : Part) (w : World) : Frame reached w w :=
  .same rfl rfl rfl rfl rfl rfl rfl rfl rfl rfl rfl rfl

theorem effect_frame (h : effect row op w = some (x, w')) : Frame op.part w w' := by
  cases op with
  | deposit _ =>
      cases h
      exact ⟨rfl, fun hr => absurd rfl hr, fun _ => rfl, fun _ => rfl, fun _ => rfl, fun _ => rfl,
        fun _ => rfl, fun _ => rfl, fun _ => rfl, fun _ => rfl, fun _ => rfl, fun _ => rfl⟩
  | withdrawal _ =>
      cases h
      exact ⟨rfl, fun _ => rfl, fun hr => absurd rfl hr, fun _ => rfl, fun _ => rfl, fun _ => rfl,
        fun _ => rfl, fun _ => rfl, fun _ => rfl, fun _ => rfl, fun _ => rfl, fun _ => rfl⟩
  | buybackCycle _ =>
      cases h
      exact ⟨rfl, fun _ => rfl, fun _ => rfl, fun _ => rfl, fun hr => absurd rfl hr, fun _ => rfl,
        fun _ => rfl, fun _ => rfl, fun _ => rfl, fun _ => rfl, fun _ => rfl, fun _ => rfl⟩
  | rewardCycle _ =>
      cases h
      exact ⟨rfl, fun _ => rfl, fun _ => rfl, fun _ => rfl, fun _ => rfl, fun hr => absurd rfl hr,
        fun _ => rfl, fun _ => rfl, fun _ => rfl, fun _ => rfl, fun _ => rfl, fun _ => rfl⟩
  | buyOrder _ | buyOrderUpdateMany _ _ =>
      cases h
      exact ⟨rfl, fun _ => rfl, fun _ => rfl, fun hr => absurd rfl hr, fun _ => rfl, fun _ => rfl,
        fun _ => rfl, fun _ => rfl, fun _ => rfl, fun _ => rfl, fun _ => rfl, fun _ => rfl⟩
  | auditLog _ =>
      cases h
      exact ⟨rfl, fun _ => rfl, fun _ => rfl, fun _ => rfl, fun _ => rfl, fun _ => rfl,
        fun hr => absurd rfl hr, fun _ => rfl, fun _ => rfl, fun _ => rfl, fun _ => rfl,
        fun _ => rfl⟩
  | safeProposeTransaction _ _ =>
      cases h
      exact ⟨rfl, fun _ => rfl, fun _ => rfl, fun _ => rfl, fun _ => rfl, fun _ => rfl,
        fun _ => rfl, fun _ => rfl, fun hr => absurd rfl hr, fun _ => rfl, fun _ => rfl,
        fun _ => rfl⟩
  | sendToAddress _ _ _ =>
      obtain ⟨_, _, rfl⟩ | ⟨_, rfl, _⟩ := effect_sendToAddress h
      · exact .refl _ _
      · exact ⟨rfl, fun _ => rfl, fun _ => rfl, fun _ => rfl, fun _ => rfl, fun _ => rfl,
          fun _ => rfl, fun _ => rfl, fun _ => rfl, fun hr => absurd rfl hr, fun _ => rfl,
          fun _ => rfl⟩
  | writeContract _ =>
      obtain ⟨_, _, rfl⟩ | ⟨_, rfl, _⟩ := effect_writeContract h
      · exact .refl _ _
      · exact .same rfl rfl rfl rfl rfl rfl rfl rfl rfl rfl rfl rfl
  | sendWallet _ _ _ =>
      obtain ⟨_, _, rfl⟩ | ⟨_, rfl, _⟩ := effect_sendWallet h
      · exact .refl _ _
      · exact ⟨rfl, fun _ => rfl, fun _ => rfl, fun _ => rfl, fun _ => rfl, fun _ => rfl,
          fun _ => rfl, fun _ => rfl, fun _ => rfl, fun _ => rfl, fun _ => rfl,
          fun hr => absurd rfl hr⟩
  | takeJob job | finishJob job _ =>
      cases job <;> cases h <;>
        exact ⟨rfl, fun _ => rfl, fun _ => rfl, fun _ => rfl, fun _ => rfl, fun _ => rfl,
          fun _ => rfl, fun _ => rfl, fun _ => rfl, fun _ => rfl, fun hr => absurd rfl hr,
          fun _ => rfl⟩
  | addBuyJob _ =>
      cases h
      exact ⟨rfl, fun _ => rfl, fun _ => rfl, fun _ => rfl, fun _ => rfl, fun _ => rfl,
        fun _ => rfl, fun _ => rfl, fun _ => rfl, fun _ => rfl, fun hr => absurd rfl hr,
        fun _ => rfl⟩
  | cursorUpsert _ _ | safeGetTransaction _ | getBlockAtHeight _ | quoteWfairOut _
  | getRawTransaction _ =>
      simp only [effect] at h
      split at h <;> cases h <;> exact .same rfl rfl rfl rfl rfl rfl rfl rfl rfl rfl rfl rfl
  | waitForTransactionReceipt _ =>
      obtain ⟨_, _, hr⟩ := Option.map_eq_some_iff.mp h
      cases hr
      exact .refl _ _
  | _ =>
      cases h
      exact .same rfl rfl rfl rfl rfl rfl rfl rfl rfl rfl rfl rfl

/-- No request mines a transaction. -/
theorem effect_receipts (h : effect row op w = some (x, w')) :
    w'.base.receipts = w.base.receipts := by
  cases op with
  | sendToAddress _ _ _ =>
      obtain ⟨_, _, rfl⟩ | ⟨_, rfl, _⟩ := effect_sendToAddress h <;> rfl
  | writeContract _ =>
      obtain ⟨_, _, rfl⟩ | ⟨_, rfl, _⟩ := effect_writeContract h <;> rfl
  | sendWallet _ _ _ =>
      obtain ⟨_, _, rfl⟩ | ⟨_, rfl, _⟩ := effect_sendWallet h <;> rfl
  | takeJob job | finishJob job _ =>
      cases job <;> cases h <;> rfl
  | cursorUpsert _ _ | safeGetTransaction _ | getBlockAtHeight _ | quoteWfairOut _
  | getRawTransaction _ =>
      simp only [effect] at h
      split at h <;> cases h <;> rfl
  | waitForTransactionReceipt _ =>
      obtain ⟨_, _, hr⟩ := Option.map_eq_some_iff.mp h
      cases hr
      rfl
  | _ =>
      cases h
      rfl

/-- Which blocks there are and which addresses are valid is not up to the service. -/
theorem effect_given (h : effect row op w = some (x, w')) :
    w'.base.blocks = w.base.blocks ∧ w'.fair.isvalid = w.fair.isvalid := by
  cases op with
  | sendToAddress _ _ _ =>
      obtain ⟨_, _, rfl⟩ | ⟨_, rfl, _⟩ := effect_sendToAddress h <;> exact ⟨rfl, rfl⟩
  | writeContract _ =>
      obtain ⟨_, _, rfl⟩ | ⟨_, rfl, _⟩ := effect_writeContract h <;> exact ⟨rfl, rfl⟩
  | sendWallet _ _ _ =>
      obtain ⟨_, _, rfl⟩ | ⟨_, rfl, _⟩ := effect_sendWallet h <;> exact ⟨rfl, rfl⟩
  | takeJob job | finishJob job _ =>
      cases job <;> cases h <;> exact ⟨rfl, rfl⟩
  | cursorUpsert _ _ | safeGetTransaction _ | getBlockAtHeight _ | quoteWfairOut _
  | getRawTransaction _ =>
      simp only [effect] at h
      split at h <;> cases h <;> exact ⟨rfl, rfl⟩
  | waitForTransactionReceipt _ =>
      obtain ⟨_, _, hr⟩ := Option.map_eq_some_iff.mp h
      cases hr
      exact ⟨rfl, rfl⟩
  | _ =>
      cases h
      exact ⟨rfl, rfl⟩

theorem recordCall_frame (op : Op β) (w : World) : Frame op.part w (recordCall op w) := by
  cases op with
  | writeContract _ =>
      exact ⟨rfl, fun _ => rfl, fun _ => rfl, fun _ => rfl, fun _ => rfl, fun _ => rfl,
        fun _ => rfl, fun hr => absurd rfl hr, fun _ => rfl, fun _ => rfl, fun _ => rfl,
        fun _ => rfl⟩
  | safeProposeTransaction _ _ =>
      exact ⟨rfl, fun _ => rfl, fun _ => rfl, fun _ => rfl, fun _ => rfl, fun _ => rfl,
        fun _ => rfl, fun _ => rfl, fun hr => absurd rfl hr, fun _ => rfl, fun _ => rfl,
        fun _ => rfl⟩
  | sendToAddress _ _ _ =>
      exact ⟨rfl, fun _ => rfl, fun _ => rfl, fun _ => rfl, fun _ => rfl, fun _ => rfl,
        fun _ => rfl, fun _ => rfl, fun _ => rfl, fun hr => absurd rfl hr, fun _ => rfl,
        fun _ => rfl⟩
  | _ => exact .same rfl rfl rfl rfl rfl rfl rfl rfl rfl rfl rfl rfl

theorem Frame.trans {reached : Part} {w₁ w₂ w₃ : World} (h : Frame reached w₁ w₂)
    (h' : Frame reached w₂ w₃) : Frame reached w₁ w₃ where
  now := h'.now.trans h.now
  deposits hr := (h'.deposits hr).trans (h.deposits hr)
  withdrawals hr := (h'.withdrawals hr).trans (h.withdrawals hr)
  buyOrders hr := (h'.buyOrders hr).trans (h.buyOrders hr)
  buybackCycles hr := (h'.buybackCycles hr).trans (h.buybackCycles hr)
  rewardCycles hr := (h'.rewardCycles hr).trans (h.rewardCycles hr)
  audit hr := (h'.audit hr).trans (h.audit hr)
  calls hr := (h'.calls hr).trans (h.calls hr)
  safe hr := (h'.safe hr).trans (h.safe hr)
  fair hr := (h'.fair hr).trans (h.fair hr)
  buyQueue hr := (h'.buyQueue hr).trans (h.buyQueue hr)
  walletTxs hr := (h'.walletTxs hr).trans (h.walletTxs hr)

/-- Whatever the outcome of a request, it reaches its part of the world only. -/
theorem answer_frame {out : Outcome} {r : Except JsError β}
    (h : answer row op out w = some (r, w')) : Frame op.part w w' := by
  have hrec := recordCall_frame op w
  cases out with
  | done => exact hrec.trans (effect_frame h)
  | fail e =>
      cases h
      exact hrec
  | lost e =>
      obtain ⟨_, hx, hr⟩ := Option.map_eq_some_iff.mp h
      cases hr
      exact hrec.trans (effect_frame hx)

end FairBridge

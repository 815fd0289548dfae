import FairBridge.Service

/-!
A proof outline of the buy orchestrator. The swap and the burn of an order go through
the same stages: the claim, the broadcast, its hash on file, its receipt.
-/

namespace FairBridge
open Store Async Async.Rules

/-- Reads of the Base chain. -/
def Op.readsChain {β : Type} : Op β → Bool
  | .usdcBalance _ | .wfairBalance _ | .usdcAllowance _ | .ethBalance _ | .quoteWfairOut _
  | .waitForTransactionReceipt _ => true
  | _ => false

/-- What a wallet does on the way to a broadcast. -/
def Op.walletWork {β : Type} : Op β → Bool
  | .sendWallet _ _ _ => true
  | op => op.readsChain

theorem Op.readsChain_walletWork {β : Type} {op : Op β} (h : op.readsChain = true) :
    op.walletWork = true := by
  cases op <;> first | exact h | rfl

theorem effect_readsChain {β : Type} {row : Option ObjectId} {op : Op β} {w w' : World}
    {x : Except JsError β} (hop : op.readsChain = true) (h : effect row op w = some (x, w')) :
    w' = w := by
  cases op with
  | usdcBalance _ | wfairBalance _ | usdcAllowance _ | ethBalance _ =>
      cases h
      rfl
  | quoteWfairOut _ =>
      simp only [effect] at h
      split at h <;> cases h <;> rfl
  | waitForTransactionReceipt hash =>
      obtain ⟨r, _, hr⟩ := Option.map_eq_some_iff.mp h
      cases hr
      rfl
  | _ => cases hop

section Performs
variable {ι S β : Type} {cfg : Config} {f : Faults ι} {R : Rules (service cfg f) S}
  {i : ι} {P N : S → Prop}

/-- A read of the chain, at which what is kept beside the world may change. -/
theorem performs_readsChain {op : Op β} {M : β → S → Prop} (hop : op.readsChain = true)
    (h : ∀ s x, R.inv s → P s →
      ∃ t, R.world t = R.world s ∧ R.inv t ∧ R.guar i s t ∧ M x t)
    (herr : ∀ s, R.inv s → P s →
      ∃ t, R.world t = R.world s ∧ R.inv t ∧ R.guar i s t ∧ N t) :
    R.Performs i P op (Rules.Answered M N) := by
  have hrec : ∀ w, recordCall op w = w := by
    intro w
    cases op <;> first | rfl | cases hop
  refine performs ?_ ?_
  · intro s e hi hs _ _
    rw [hrec]
    exact herr s hi hs
  · intro s x w out hi hs _ hx
    rw [hrec] at hx
    cases effect_readsChain hop hx
    cases out with
    | done =>
        cases x with
        | ok b =>
            obtain ⟨t, hw, hit, hg, hM⟩ := h s b hi hs
            exact ⟨t, hw, hit, hg, fun _ => hM, fun _ he => by cases he⟩
        | error e =>
            obtain ⟨t, hw, hit, hg, hN⟩ := herr s hi hs
            exact ⟨t, hw, hit, hg, fun _ => hN, fun _ he => by cases he⟩
    | fail _ | lost _ =>
        obtain ⟨t, hw, hit, hg, hN⟩ := herr s hi hs
        exact ⟨t, hw, hit, hg, fun hd => (by cases hd), fun _ _ _ => hN⟩

/-- A wallet's call either does not reach the chain, or it does, and then its answer may
be lost. -/
theorem performs_sendWallet {sender : Address} {c : WalletCall} {purpose : Purpose}
    {sent : Hash → S → Prop}
    (h : ∀ s out, R.inv s → P s →
      f.may i (.sendWallet sender c purpose) out (R.world s) = true →
      ∃ t, R.world t = (R.world s).sendWallet sender c purpose ∧ R.inv t ∧ R.guar i s t ∧
        (out.isLost = false →
          sent ((R.world s).base.walletHashOf (R.world s).base.walletTxs.length) t) ∧
        (out.isLost = true → N t))
    (herr : ∀ s, R.inv s → P s →
      ∃ t, R.world t = R.world s ∧ R.inv t ∧ R.guar i s t ∧ N t) :
    R.Performs i P (.sendWallet sender c purpose) (Rules.Answered sent N) := by
  refine performs ?_ ?_
  · intro s e hi hs _ _
    exact herr s hi hs
  · intro s x w out hi hs hmay hx
    cases effect_sendWallet hx with
    | inl hx =>
        obtain ⟨e, rfl, rfl⟩ := hx
        obtain ⟨t, hw, hit, hg, hN⟩ := herr s hi hs
        exact ⟨t, hw, hit, hg, fun _ => hN, fun _ _ _ => hN⟩
    | inr hx =>
        obtain ⟨rfl, rfl, _⟩ := hx
        obtain ⟨t, hw, hit, hg, hsent, hlost⟩ := h s out hi hs hmay
        exact ⟨t, hw, hit, hg, fun hd => hsent (by rw [hd]; rfl),
          fun e he _ => hlost (by rw [he]; rfl)⟩

namespace BuyOrder
variable {held : BuyOrderDoc → S → Prop} {M : S → Prop}

theorem performs_findById {id : ObjectId}
    (h : ∀ s, R.inv s → P s → Rules.Found held M ((R.world s).buyOrders.get id) s)
    (herr : ∀ s, R.inv s → P s → N s) :
    R.Performs i P (.buyOrder (.findOne (fun o => o.id == id) none))
      (Rules.Answered (Rules.Found held M) N) := by
  refine performs_read (fun _ => rfl) ?_ ?_ fun s hi hs _ => herr s hi hs
  · intro w x w' hx
    cases hx
    rfl
  · intro s x hi hs hx
    cases hx
    exact h s hi hs

theorem performs_updateById {id : ObjectId} {u : BuyOrderSet}
    (h : ∀ s, R.inv s → P s →
      ∃ t, R.world t = (R.world s).setBuyOrder id u ∧ R.inv t ∧ R.guar i s t ∧ M t ∧ N t)
    (hfail : ∀ s e, R.inv s → P s →
      f.may i (.buyOrder (.updateOne (fun o => o.id == id && true) u) : Op Unit) (.fail e)
        (R.world s) = true → N s) :
    R.Performs i P (.buyOrder (.updateOne (fun o => o.id == id && true) u))
      (Rules.Answered (fun _ => M) N) := by
  refine performs ?_ ?_
  · intro s e hi hs _ hmay
    exact ⟨s, rfl, hi, R.guar_refl i s, hfail s e hi hs hmay⟩
  · intro s x w out hi hs _ hx
    obtain ⟨t, hw, hit, hg, hM, hN⟩ := h s hi hs
    cases (effect_updateById (f.row i) id u (R.world s)).symm.trans hx
    exact ⟨t, hw, hit, hg, fun _ => hM, fun _ _ _ => hN⟩

/-- A claim, which the rules may restrict. -/
theorem performs_claim {id : ObjectId} {cond : BuyOrderDoc → Bool} {u : BuyOrderSet}
    (hsome : ∀ s o, R.inv s → P s →
      R.permits i (.buyOrder (.findOneAndUpdate (fun o => o.id == id && cond o) none u) :
        Op (Option BuyOrderDoc)) s →
      (R.world s).buyOrders.get id = some o → cond o = true →
      (∃ t, R.world t = (R.world s).setBuyOrder id u ∧ R.inv t ∧ R.guar i s t ∧
        held (u.apply o) t) ∧
      ∃ t, R.world t = (R.world s).setBuyOrder id u ∧ R.inv t ∧ R.guar i s t ∧ N t)
    (hnone : ∀ s, R.inv s → P s → ((R.world s).buyOrders.get id).filter cond = none → M s)
    (hfail : ∀ s, R.inv s → P s → N s) :
    R.Performs i P (.buyOrder (.findOneAndUpdate (fun o => o.id == id && cond o) none u))
      (Rules.Answered (Rules.Found held M) N) := by
  refine performs_permitted ?_ ?_
  · intro s e hi hs _ _
    exact ⟨s, rfl, hi, R.guar_refl i s, hfail s hi hs⟩
  · intro s x w out hi hs hperm _ hx
    have heff := effect_claim (f.row i) id cond u (R.world s)
    cases hd : ((R.world s).buyOrders.get id).filter cond with
    | none =>
        rw [hd] at heff
        cases heff.symm.trans hx
        exact ⟨s, rfl, hi, R.guar_refl i s, fun _ => hnone s hi hs hd,
          fun _ _ _ => hfail s hi hs⟩
    | some o =>
        rw [hd] at heff
        cases heff.symm.trans hx
        obtain ⟨hg, hc⟩ := Option.filter_eq_some_iff.mp hd
        obtain ⟨hheld, hN⟩ := hsome s o hi hs hperm hg hc
        cases out with
        | lost _ =>
            obtain ⟨t, hw, hit, hgu, hN⟩ := hN
            exact ⟨t, hw, hit, hgu, fun hd => (by cases hd), fun _ _ _ => hN⟩
        | done | fail _ =>
            obtain ⟨t, hw, hit, hgu, hheld⟩ := hheld
            exact ⟨t, hw, hit, hgu, fun _ => hheld, fun _ he => by cases he⟩

end BuyOrder

end Performs

variable {ι S τ : Type} {sys : System Op JsError World ι τ EnvEvent}

/-- The two broadcasts of an order. -/
inductive Broadcast where
  | swap
  | burn
  deriving DecidableEq

namespace Broadcast

/-- The rows its claim takes. -/
def claimable : Broadcast → BuyOrderDoc → Bool
  | .swap => swapClaimable
  | .burn => burnClaimable

def claimed : Broadcast → BuyOrderStatus
  | .swap => .swapping
  | .burn => .burning

def hash : Broadcast → BuyOrderDoc → Option Hash
  | .swap => BuyOrderDoc.swapTxHash
  | .burn => BuyOrderDoc.burnTxHash

/-- The update that files its hash. -/
def file : Broadcast → Hash → BuyOrderSet
  | .swap, h => { swapTxHash := some h }
  | .burn, h => { burnTxHash := some h }

def purpose : Broadcast → ObjectId → Purpose
  | .swap => .orderSwap
  | .burn => .orderBurn

end Broadcast

/-- `seen` is known of the row as read before the claim, `refused` once the claim found
nothing, `ready` of a run that is to broadcast, `sent` and `filed` of the hash before and
after it is on the row, `mined` of its receipt. -/
structure OrderStage (R : Rules sys S) (i : ι) (id : ObjectId) (b : Broadcast) where
  seen : BuyOrderDoc → S → Prop
  refused : S → Prop
  ready : S → Prop
  sent : Hash → S → Prop
  filed : Hash → S → Prop
  mined : Hash → Receipt → S → Prop
  seen_stable : ∀ o, R.Stable i (seen o)
  refused_stable : R.Stable i refused
  ready_stable : R.Stable i ready
  sent_stable : ∀ h, R.Stable i (sent h)
  filed_stable : ∀ h, R.Stable i (filed h)
  mined_stable : ∀ h r, R.Stable i (mined h r)
  seen_rest : ∀ o s, R.inv s → seen o s → R.rest i s
  refused_rest : ∀ s, R.inv s → refused s → R.rest i s
  filed_rest : ∀ h s, R.inv s → filed h s → R.rest i s
  mined_rest : ∀ h r s, R.inv s → mined h r s → R.rest i s
  ready_settled : ∀ sender c, R.Settled i ready (.sendWallet sender c (b.purpose id))
  sent_settled : ∀ h, R.Settled i (sent h)
    (.buyOrder (.updateOne (fun o => o.id == id && true) (b.file h)) : Op Unit)
  seen_id : ∀ o s, R.inv s → seen o s → o.id = id
  resume : ∀ o h s, R.inv s → seen o s → b.hash o = some h → filed h s
  claim : ∀ o, b.hash o = none → R.Performs i (seen o)
    (.buyOrder (.findOneAndUpdate (fun o => o.id == id && b.claimable o) none
      { status := some b.claimed }))
    (Answered (Found (fun o s => o.id = id ∧ b.hash o = none ∧ o.status = b.claimed ∧ ready s)
      refused) (R.rest i))
  reread : R.Performs i refused (.buyOrder (.findOne (fun o => o.id == id) none))
    (Answered (Found (fun o s => o.id = id ∧ (∀ h, b.hash o = some h → filed h s) ∧
      (b.hash o = none → o.status ≠ b.claimed) ∧ R.rest i s) (R.rest i)) (R.rest i))
  broadcast : ∀ sender c, R.Performs i ready (.sendWallet sender c (b.purpose id))
    (Answered sent (R.rest i))
  persist : ∀ h, R.Performs i (sent h)
    (.buyOrder (.updateOne (fun o => o.id == id && true) (b.file h)))
    (Answered (fun _ => filed h) (R.rest i))
  receipt : ∀ h, R.Performs i (filed h) (.waitForTransactionReceipt h)
    (Answered (mined h) (R.rest i))
  revert : ∀ h r message, r.success = false → R.Performs i (mined h r)
    (.buyOrder (.updateOne (fun o => o.id == id && true)
      { status := some .failed, errorMessage := some message }))
    (Answered (fun _ => R.rest i) (R.rest i))

namespace OrderStage
variable {R : Rules sys S} {i : ι} {id : ObjectId} {b : Broadcast}

/-- What is known of the order a run goes on with. -/
def held (O : OrderStage R i id b) (o : BuyOrderDoc) (s : S) : Prop :=
  o.id = id ∧
    match b.hash o with
    | some h => O.filed h s
    | none => if o.status = b.claimed then O.ready s else R.rest i s

theorem held_stable (O : OrderStage R i id b) (o : BuyOrderDoc) : R.Stable i (O.held o) := by
  intro s t hs ht hst h
  refine ⟨h.1, ?_⟩
  have hknown := h.2
  split at hknown
  · exact O.filed_stable _ s t hs ht hst hknown
  · split at hknown
    · rename_i hc
      rw [if_pos hc]
      exact O.ready_stable s t hs ht hst hknown
    · rename_i hc
      rw [if_neg hc]
      exact R.rest_stable hs ht hst hknown

theorem held_filed (O : OrderStage R i id b) {o : BuyOrderDoc} {h : Hash} {s : S}
    (hh : b.hash o = some h) (hs : O.held o s) : O.filed h s := by
  have hknown := hs.2
  rwa [hh] at hknown

theorem held_ready (O : OrderStage R i id b) {o : BuyOrderDoc} {s : S} (hh : b.hash o = none)
    (hst : o.status = b.claimed) (hs : O.held o s) : O.ready s := by
  have hknown := hs.2
  rw [hh] at hknown
  simpa [hst] using hknown

theorem held_rest (O : OrderStage R i id b) {o : BuyOrderDoc} {s : S} (hh : b.hash o = none)
    (hst : o.status ≠ b.claimed) (hs : O.held o s) : R.rest i s := by
  have hknown := hs.2
  rw [hh] at hknown
  simpa [hst] using hknown

theorem held_of_filed (O : OrderStage R i id b) {o : BuyOrderDoc} {h : Hash} {s : S}
    (hid : o.id = id) (hh : b.hash o = some h) (hs : O.filed h s) : O.held o s := by
  refine ⟨hid, ?_⟩
  rw [hh]
  exact hs

theorem claimUnlessFiled (O : OrderStage R i id b) (o : BuyOrderDoc) :
    R.Triple i (O.seen o)
      (FairBridge.claimUnlessFiled (b.hash o).isSome
        (call (.buyOrder (.findOneAndUpdate (fun o => o.id == id && b.claimable o) none
          { status := some b.claimed }))) o id)
      (Found O.held (R.rest i)) (fun _ => R.rest i) := by
  refine .fact (O.seen_id o) ?_
  intro hid
  rw [FairBridge.claimUnlessFiled]
  cases hh : b.hash o with
  | some h =>
      refine .pure (O.seen_stable o) ?_
      exact fun s hi hs => O.held_of_filed hid hh (O.resume o h s hi hs hh)
  | none =>
      refine .bind (M := Found O.held O.refused) ?_ ?_
      · refine .step (O.seen_stable o) (O.seen_rest o) ((O.claim o hh).post ?_) ?_
        · intro r s _ hr
          cases r with
          | error e => exact hr
          | ok found =>
              cases found with
              | none => exact hr
              | some claimed =>
                  refine ⟨hr.1, ?_⟩
                  rw [hr.2.1]
                  simpa [hr.2.2.1] using hr.2.2.2
        · intro found
          cases found with
          | none => exact O.refused_stable
          | some claimed => exact O.held_stable claimed
      · intro found
        cases found with
        | some claimed => exact .pure (O.held_stable claimed) fun _ _ h => h
        | none =>
            refine .step O.refused_stable O.refused_rest (O.reread.post ?_) ?_
            · intro r s _ hr
              cases r with
              | error e => exact hr
              | ok found =>
                  cases found with
                  | none => exact hr
                  | some fresh =>
                      refine ⟨hr.1, ?_⟩
                      cases hf : b.hash fresh with
                      | some h => exact hr.2.1 h hf
                      | none => simpa [hr.2.2.1 hf] using hr.2.2.2
            · intro found
              cases found with
              | none => exact .rest
              | some fresh => exact O.held_stable fresh

theorem failOrder {α : Type} (O : OrderStage R i id b) (what : String) {h : Hash} {r : Receipt}
    (hr : r.success = false) {Q : α → S → Prop} :
    R.Triple i (O.mined h r) (FairBridge.failOrder id what h) Q (fun _ => R.rest i) := by
  refine .bind (M := fun _ => R.rest i) ?_ fun _ => .throw .rest fun _ _ h => h
  exact .step (O.mined_stable h r) (O.mined_rest h r) (O.revert h r _ hr) fun _ => .rest

theorem broadcastAndFile (O : OrderStage R i id b) (sender : Address) (c : WalletCall)
    {α : Type} {Q : α → S → Prop} {rest : Hash → Promise α}
    (hrest : ∀ h, R.Triple i (O.filed h) (rest h) Q (fun _ => R.rest i)) :
    R.Triple i O.ready (do
      let txHash ← call (.sendWallet sender c (b.purpose id))
      BuyOrder.updateById id (b.file txHash)
      rest txHash) Q (fun _ => R.rest i) := by
  refine .bind (M := O.sent) ?_ ?_
  · exact .call O.ready_stable (O.ready_settled sender c) (O.broadcast sender c) O.sent_stable .rest
  · intro h
    refine .bind (M := fun _ => O.filed h) ?_ fun _ => hrest h
    exact .call (O.sent_stable h) (O.sent_settled h) (O.persist h)
      (fun _ => O.filed_stable h) .rest

end OrderStage

/-- `swapped` is known once the swap on file has succeeded. -/
structure BuyOutline (R : Rules sys S) (i : ι) (id : ObjectId) where
  swap : OrderStage R i id .swap
  burn : OrderStage R i id .burn
  swapped : S → Prop
  swapped_stable : R.Stable i swapped
  swapped_rest : ∀ s, R.inv s → swapped s → R.rest i s
  work_settled : ∀ {β : Type} (op : Op β), op.walletWork = true → R.Settled i swap.ready op
  read : R.Performs i (R.rest i) (.buyOrder (.findOne (fun o => o.id == id) none))
    (Answered (Found swap.seen (R.rest i)) (R.rest i))
  look : ∀ {β : Type} (op : Op β) (keep : β → Bool), op.readsChain = true →
    R.Performs i swap.ready op
      (Answered (fun x s => if keep x then swap.ready s else R.rest i s) (R.rest i))
  setup : ∀ sender c, R.Performs i swap.ready (.sendWallet sender c .setup)
    (Answered (fun _ => swap.ready) (R.rest i))
  succeed : ∀ h r s, R.inv s → r.success = true → swap.mined h r s → swapped s
  proceeds : ∀ owner, R.Performs i swapped (.wfairBalance owner)
    (Answered (fun _ => swapped) (R.rest i))
  recordOut : ∀ n, R.Performs i swapped
    (.buyOrder (.updateOne (fun o => o.id == id && true) { swapWfairOut := some n }))
    (Answered (fun _ => swapped) (R.rest i))
  reload : R.Performs i swapped (.buyOrder (.findOne (fun o => o.id == id) none))
    (Answered (Found burn.seen fun _ => False) (R.rest i))
  deliver : ∀ h r, r.success = true → R.Performs i (burn.mined h r)
    (.buyOrder (.updateOne (fun o => o.id == id && true) { status := some .delivering }))
    (Answered (fun _ => R.rest i) (R.rest i))
  record : ∀ entry, R.Performs i (R.rest i) (.auditLog entry)
    (Answered (fun _ => R.rest i) (R.rest i))
  notify : ∀ message, R.Performs i (R.rest i) (.webhook message)
    (Answered (fun _ => R.rest i) (R.rest i))

namespace BuyOutline
variable {R : Rules sys S} {i : ι} {id : ObjectId} {cfg : Config}

/-- A read in the middle of the swap that the run may go on from or not. -/
theorem lookThen (O : BuyOutline R i id) {α β : Type} {op : Op β} (hop : op.readsChain = true)
    (keep : β → Bool) {k : β → Promise α} {Q : α → S → Prop}
    (hgo : ∀ x, keep x = true → R.Triple i O.swap.ready (k x) Q (fun _ => R.rest i))
    (hstop : ∀ x, keep x = false → R.Triple i (R.rest i) (k x) Q (fun _ => R.rest i)) :
    R.Triple i O.swap.ready ((Program.request op).bind k) Q (fun _ => R.rest i) := by
  refine .bind (M := fun x s => if keep x then O.swap.ready s else R.rest i s) ?_ ?_
  · refine .call O.swap.ready_stable (O.work_settled op (Op.readsChain_walletWork hop)) (O.look op keep hop) ?_ .rest
    intro x
    cases hx : keep x with
    | true => simpa using O.swap.ready_stable
    | false => simpa using Stable.rest
  · intro x
    cases hx : keep x with
    | true => exact (hgo x hx).pre fun s _ hs => by simpa using hs
    | false => exact (hstop x hx).pre fun s _ hs => by simpa using hs

theorem landSetup (O : BuyOutline R i id) (sender : Address) (c : WalletCall)
    (reverted : Hash → String) :
    R.Triple i O.swap.ready (FairBridge.landSetup sender c reverted) (fun _ => O.swap.ready)
      (fun _ => R.rest i) := by
  refine .bind (M := fun _ => O.swap.ready) ?_ ?_
  · exact .call O.swap.ready_stable (O.work_settled _ rfl) (O.setup sender c)
      (fun _ => O.swap.ready_stable) .rest
  · intro h
    refine O.lookThen rfl Receipt.success ?_ ?_
    · intro r hr
      simp only [hr, if_true]
      exact .pure O.swap.ready_stable fun _ _ h => h
    · intro r hr
      simp only [hr, Bool.false_eq_true, if_false]
      exact .throw .rest fun _ _ h => h

theorem ensurePaymentGasBudget (O : BuyOutline R i id) (address : Address) :
    R.Triple i O.swap.ready (FairBridge.ensurePaymentGasBudget cfg address)
      (fun _ => O.swap.ready) (fun _ => R.rest i) := by
  cases hf : requireFunder cfg with
  | ok _ =>
      refine O.lookThen rfl (fun _ => true) ?_ fun _ h => by cases h
      intro balance _
      split
      · exact .pure O.swap.ready_stable fun _ _ h => h
      · rw [hf]
        exact O.landSetup _ _ _
  | error e =>
      refine O.lookThen rfl (fun balance => decide (paymentGasTopup ≤ balance)) ?_ ?_
      · intro balance hb
        rw [if_pos (of_decide_eq_true hb)]
        exact .pure O.swap.ready_stable fun _ _ h => h
      · intro balance hb
        rw [if_neg (of_decide_eq_false hb), hf]
        exact .throw .rest fun _ _ h => h

theorem ensureUsdcAllowance (O : BuyOutline R i id) (ctx : BuyContext) (amount : Int) :
    R.Triple i O.swap.ready (FairBridge.ensureUsdcAllowance ctx amount)
      (fun _ => O.swap.ready) (fun _ => R.rest i) := by
  refine O.lookThen rfl (fun _ => true) ?_ fun _ h => by cases h
  intro allowance _
  split
  · exact .pure O.swap.ready_stable fun _ _ h => h
  · exact O.landSetup _ _ _

theorem reconcileSwap (O : BuyOutline R i id) {ctx : BuyContext} (hid : ctx.order.id = id)
    (h : Hash) :
    R.Triple i (O.swap.filed h) (FairBridge.reconcileSwap ctx h) (fun _ => O.swapped)
      (fun _ => R.rest i) := by
  refine .bind (M := O.swap.mined h) ?_ ?_
  · exact .step (O.swap.filed_stable h) (O.swap.filed_rest h) (O.swap.receipt h)
      (O.swap.mined_stable h)
  · intro r
    split
    · rename_i hr
      refine Triple.pre (P := O.swapped) ?_ fun s hi hs => O.succeed h r s hi hr hs
      exact .step O.swapped_stable O.swapped_rest (O.proceeds _) fun _ => O.swapped_stable
    · rename_i hr
      rw [hid]
      exact O.swap.failOrder _ (by simpa using hr)

theorem executeSwap (O : BuyOutline R i id) {ctx : BuyContext} (hid : ctx.order.id = id) :
    R.Triple i O.swap.ready (FairBridge.executeSwap cfg ctx) (fun _ => O.swapped)
      (fun _ => R.rest i) := by
  refine O.lookThen rfl (fun balance => decide (balance ≠ 0)) ?_ ?_
  · intro balance hb
    rw [if_neg (of_decide_eq_true hb)]
    refine .bind (O.ensurePaymentGasBudget _) fun _ => ?_
    refine .bind (O.ensureUsdcAllowance _ _) fun _ => ?_
    refine O.lookThen rfl (fun _ => true) ?_ fun _ h => by cases h
    intro expected _
    rw [hid]
    refine O.swap.broadcastAndFile _ _ fun h => ?_
    refine .bind (O.reconcileSwap hid h) fun out => ?_
    refine .bind (M := fun _ => O.swapped) ?_ fun _ => .pure O.swapped_stable fun _ _ h => h
    exact .step O.swapped_stable O.swapped_rest (O.recordOut out) fun _ => O.swapped_stable
  · intro balance hb
    rw [if_pos (by simpa using hb)]
    exact .throw .rest fun _ _ h => h

theorem reconcileBurn (O : BuyOutline R i id) {ctx : BuyContext} (hid : ctx.order.id = id)
    (h : Hash) :
    R.Triple i (O.burn.filed h) (FairBridge.reconcileBurn ctx h) (fun _ => R.rest i)
      (fun _ => R.rest i) := by
  refine .bind (M := O.burn.mined h) ?_ ?_
  · exact .step (O.burn.filed_stable h) (O.burn.filed_rest h) (O.burn.receipt h)
      (O.burn.mined_stable h)
  · intro r
    rw [hid]
    split
    · rename_i hr
      exact .step (O.burn.mined_stable h r) (O.burn.mined_rest h r) (O.deliver h r hr)
        fun _ => .rest
    · rename_i hr
      exact O.burn.failOrder _ (by simpa using hr)

theorem executeBurn (O : BuyOutline R i id) {ctx : BuyContext} (hid : ctx.order.id = id)
    (wfairAmount : Int) :
    R.Triple i O.burn.ready (FairBridge.executeBurn ctx wfairAmount) (fun _ => R.rest i)
      (fun _ => R.rest i) := by
  rw [FairBridge.executeBurn, hid]
  exact O.burn.broadcastAndFile _ _ fun h => O.reconcileBurn hid h

theorem swapStep (O : BuyOutline R i id) (ctx : BuyContext) :
    R.Triple i (O.swap.held ctx.order) (FairBridge.swapStep cfg ctx)
      (Found (fun _ => O.swapped) (R.rest i)) (fun _ => R.rest i) := by
  refine .fact (F := ctx.order.id = id) (fun _ _ h => h.1) ?_
  intro hid
  rw [FairBridge.swapStep]
  split
  · rename_i h hh
    refine .bind ((O.reconcileSwap hid h).pre fun s _ hs => O.swap.held_filed hh hs) ?_
    exact fun _ => .pure O.swapped_stable fun _ _ h => h
  · rename_i hh
    split
    · rename_i hst
      refine .bind ((O.executeSwap hid).pre fun s _ hs => O.swap.held_ready hh hst hs) ?_
      exact fun _ => .pure O.swapped_stable fun _ _ h => h
    · rename_i hst
      exact .pure (O.swap.held_stable _) fun s _ hs => O.swap.held_rest hh hst hs

theorem burnStep (O : BuyOutline R i id) (ctx : BuyContext) (wfairOut : Int) :
    R.Triple i (O.burn.held ctx.order) (FairBridge.burnStep ctx wfairOut)
      (fun _ => R.rest i) (fun _ => R.rest i) := by
  refine .fact (F := ctx.order.id = id) (fun _ _ h => h.1) ?_
  intro hid
  rw [FairBridge.burnStep]
  split
  · rename_i h hh
    refine .bind ((O.reconcileBurn hid h).pre fun s _ hs => O.burn.held_filed hh hs) ?_
    exact fun _ => .pure .rest fun _ _ h => h
  · rename_i hh
    split
    · rename_i hst
      refine .bind ((O.executeBurn hid wfairOut).pre
        fun s _ hs => O.burn.held_ready hh hst hs) ?_
      exact fun _ => .pure .rest fun _ _ h => h
    · rename_i hst
      exact .pure (O.burn.held_stable _) fun s _ hs => O.burn.held_rest hh hst hs

theorem burnAfterSwap (O : BuyOutline R i id) (ctx : BuyContext) (order : BuyOrderDoc)
    (wfairOut : Int) :
    R.Triple i O.swapped (FairBridge.burnAfterSwap cfg ctx order id wfairOut)
      (fun _ => R.rest i) (fun _ => R.rest i) := by
  refine .bind (M := Found O.burn.seen fun _ => False) ?_ ?_
  · refine .step O.swapped_stable O.swapped_rest O.reload ?_
    intro found
    cases found with
    | none => exact fun _ _ _ _ _ h => h
    | some o => exact O.burn.seen_stable o
  · intro found
    cases found with
    | none => exact fun s _ h => h.elim
    | some o =>
        refine .bind (O.burn.claimUnlessFiled o) ?_
        intro found
        cases found with
        | none => exact .pure .rest fun _ _ h => h
        | some o =>
            refine .bind (O.burnStep { ctx with order := o } wfairOut) ?_
            intro done
            split
            · refine .tryCatch (M := fun _ => R.rest i) ?_ fun _ => alert_rest O.notify _
              exact .step .rest (fun _ _ h => h) (O.record _) fun _ => .rest
            · exact .pure .rest fun _ _ h => h

theorem swapThenBurn (O : BuyOutline R i id) (ctx : BuyContext) :
    R.Triple i (O.swap.seen ctx.order) (FairBridge.swapThenBurn cfg ctx id)
      (fun _ => R.rest i) (fun _ => R.rest i) := by
  refine .bind (O.swap.claimUnlessFiled ctx.order) ?_
  intro found
  cases found with
  | none => exact .pure .rest fun _ _ h => h
  | some order =>
      refine .bind (O.swapStep { ctx with order := order }) ?_
      intro out
      cases out with
      | none => exact .pure .rest fun _ _ h => h
      | some wfairOut => exact O.burnAfterSwap ctx order wfairOut

theorem loadContext (O : BuyOutline R i id) :
    R.Triple i (R.rest i) (FairBridge.loadContext cfg id)
      (Found (fun ctx => O.swap.seen ctx.order) (R.rest i)) (fun _ => R.rest i) := by
  refine .bind (M := Found O.swap.seen (R.rest i)) ?_ ?_
  · refine .step .rest (fun _ _ h => h) O.read ?_
    intro found
    cases found with
    | none => exact .rest
    | some o => exact O.swap.seen_stable o
  · intro found
    cases found with
    | none => exact .pure .rest fun _ _ h => h
    | some o =>
        have hseen := O.swap.seen_stable o
        simp only
        split
        · exact .throw hseen (O.swap.seen_rest o)
        · refine .bind (M := fun _ => O.swap.seen o) ?_ ?_
          · exact .ofExcept hseen (fun _ _ _ _ h => h) (O.swap.seen_rest o)
          · intro paymentKey
            split
            · exact .pure hseen fun _ _ h => h
            · exact .throw hseen (O.swap.seen_rest o)

/-- Whatever its outline knows on the way, a run leaves its slot at rest. -/
theorem processBuy (O : BuyOutline R i id) :
    R.Triple i (R.rest i) (FairBridge.processBuy cfg id) (fun _ => R.rest i)
      (fun _ => R.rest i) := by
  refine .bind O.loadContext ?_
  intro found
  cases found with
  | none => exact .pure .rest fun _ _ h => h
  | some ctx =>
      have hseen := O.swap.seen_stable ctx.order
      simp only
      split
      · exact .pure hseen (O.swap.seen_rest ctx.order)
      · split
        · exact .throw hseen (O.swap.seen_rest ctx.order)
        · exact O.swapThenBurn ctx

end BuyOutline
end FairBridge

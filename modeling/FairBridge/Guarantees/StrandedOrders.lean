import FairBridge.Guarantees.OrderJobs
import FairBridge.Signer.BuyOutline

/-!
What an attempt of a job leaves behind. It returns only once its order is not unfinished
any more; where it raises, the order is left to the next attempt.
-/

namespace FairBridge
open Store Async Async.Rules

/-- The order has come off the watcher's hands, its job has not ended, and the row is as
`φ` says. -/
def Holding (id : ObjectId) (φ : BuyOrderDoc → Prop) (w : World) : Prop :=
  w.buyQueue.alive id = true ∧
    ∃ o, w.buyOrders.get id = some o ∧ o.status ≠ .awaitingPayment ∧ φ o

/-- A delivery does not change it. -/
def Lasts (φ : BuyOrderDoc → Prop) : Prop :=
  ∀ o : BuyOrderDoc, o.movesTo .delivered = true → φ o → φ { o with status := .delivered }

/-- What the worker of a job knows, of the order in question. -/
def Mine (order id : ObjectId) (φ : BuyOrderDoc → Prop) (s : World × Bool) : Prop :=
  order = id → Holding id φ s.1

def Swapped (o : BuyOrderDoc) : Prop := o.swapTxHash ≠ none

def Ended (o : BuyOrderDoc) : Prop := o.unfinished = false

/-- What a row that was read as `o` still says. -/
structure Sees (o e : BuyOrderDoc) : Prop where
  swap : e.swapTxHash = o.swapTxHash
  status : o.status ≠ .paymentDetected → e.status ≠ .paymentDetected
  ended : Ended o → Ended e

variable {cfg : Config} {id order : ObjectId} {w w' : World} {φ ψ : BuyOrderDoc → Prop}

theorem lasts_any : Lasts fun _ => True := fun _ _ _ => trivial

theorem lasts_swapped : Lasts Swapped := fun _ _ h => h

theorem ended_delivered (o : BuyOrderDoc) : Ended { o with status := .delivered } := by
  simp [Ended, BuyOrderDoc.unfinished]

theorem lasts_ended : Lasts Ended := fun o _ _ => ended_delivered o

theorem lasts_sees (o : BuyOrderDoc) : Lasts (Sees o) :=
  fun e _ h => ⟨h.swap, fun _ => by simp, fun _ => ended_delivered e⟩

theorem Sees.refl (o : BuyOrderDoc) : Sees o o := ⟨rfl, fun h => h, fun h => h⟩

theorem Holding.held (hφ : Lasts φ) (h : OrderHeld id w w') (hw : Holding id φ w) :
    Holding id φ w' := by
  obtain ⟨halive, o, ho, hst, ho'⟩ := hw
  obtain ⟨e, he, rfl | ⟨hmoves, rfl⟩⟩ := h.row o ho hst
  · exact ⟨h.alive halive, _, he, hst, ho'⟩
  · exact ⟨h.alive halive, _, he, by simp, hφ o hmoves ho'⟩

theorem Holding.mono (h : Holding id φ w) (hφ : ∀ o, φ o → ψ o) : Holding id ψ w := by
  obtain ⟨halive, o, ho, hst, ho'⟩ := h
  exact ⟨halive, o, ho, hst, hφ o ho'⟩

theorem Mine.mono {s : World × Bool} (h : Mine order id φ s)
    (hφ : order = id → ∀ o, φ o → ψ o) : Mine order id ψ s :=
  fun hid => (h hid).mono (hφ hid)

theorem Mine.stable (hφ : Lasts φ) :
    (strandRules cfg id).Stable (some order) (Mine order id φ) :=
  fun _ _ _ _ hst h hid => (h hid).held hφ (hst hid).1

theorem Mine.beside {b b' : Bool} (hφ : Lasts φ) (h : Mine order id φ (w, b))
    (hbeside : Beside id w w') : Mine order id φ (w', b') :=
  fun hid => (h hid).held hφ hbeside.held

/-- A worker may die wherever the faults let it. -/
theorem worker_settled {β : Type} (P : World × Bool → Prop) (op : Op β) :
    (strandRules cfg id).Settled (some order) P op := by
  intro s _ _ hkill hid hun
  have hun : s.1.unfinished id = true := hun
  have hkill : (service cfg (strandRuns id true)).mayKill (some order) op s.1 = true := hkill
  simp [service, strandRuns, Op.diesWithJob, hid, hun] at hkill
  exact Or.inl hkill.2

theorem stable_true {i : Option ObjectId} : (strandRules cfg id).Stable i fun _ => True :=
  fun _ _ _ _ _ _ => trivial

/-- The steps of a worker on its own order leave the flag of the watcher as it is. -/
theorem worker_guar {s : World × Bool} (hid : order = id) :
    ∀ j, some order ≠ j → strandRely id j s (w, s.2) := by
  intro j hj
  cases j with
  | none => rfl
  | some k => exact fun hk => absurd (congrArg some (hid.trans hk.symm)) hj

/-- Neither writes orders nor jobs. -/
def Op.elsewhere {β : Type} (op : Op β) : Prop := op.part ≠ .buyOrders ∧ op.part ≠ .queues

theorem worker_quiet {α : Type} {p : Promise α} {P : World × Bool → Prop}
    (hp : p.Only Op.elsewhere) (hP : (strandRules cfg id).Stable (some order) P)
    (hbeside : ∀ s w, Beside id s.1 w → P s → P (w, s.2)) :
    (strandRules cfg id).Triple (some order) P p (fun _ => P) fun _ => P := by
  refine .only hp hP (fun op _ => worker_settled _ op) fun _ hop =>
    strand_beside fun s out r w hs _ hans => ?_
  have hw : Beside id s.1 w := .of_frame hop.1 hop.2 hans
  exact ⟨hw, hbeside s w hw hs⟩

theorem worker_kept {α : Type} {p : Promise α} (hp : p.Only Op.elsewhere) (hφ : Lasts φ) :
    (strandRules cfg id).Triple (some order) (Mine order id φ) p (fun _ => Mine order id φ)
      fun _ => Mine order id φ :=
  worker_quiet hp (Mine.stable hφ) fun s _ hbeside h => Mine.beside (b := s.2) hφ h hbeside

theorem worker_only {α : Type} {p : Promise α} (hp : p.Only Op.elsewhere) (hφ : Lasts φ) :
    (strandRules cfg id).Triple (some order) (Mine order id φ) p (fun _ => Mine order id φ)
      fun _ _ => True :=
  (worker_kept hp hφ).weaken (fun _ _ h => h) (fun _ _ _ h => h) fun _ _ _ _ => trivial

/-- A request of a worker that writes the row of its order or none. -/
theorem worker_performs {β : Type} {op : Op β} {P : World × Bool → Prop}
    {M : Except JsError β → World × Bool → Prop}
    (hother : ∀ s out r w, order ≠ id → P s → answer none op out s.1 = some (r, w) →
      Beside id s.1 w ∧ M r (w, s.2))
    (hmine : ∀ s out r w, order = id → StrandInv id s → P s →
      (strandRuns id true).may (some order) op out s.1 = true →
      answer none op out s.1 = some (r, w) → StrandInv id (w, s.2) ∧ M r (w, s.2)) :
    (strandRules cfg id).Performs (some order) P op M := by
  refine strand_performs fun s out r w hi hs hmay hans => ⟨s.2, ?_⟩
  by_cases hid : order = id
  · obtain ⟨hi', hM⟩ := hmine s out r w hid hi hs hmay hans
    exact ⟨hi', worker_guar hid, hM⟩
  · obtain ⟨hbeside, hM⟩ := hother s out r w hid hs hans
    exact ⟨hbeside.inv hi, fun j _ => hbeside.rely j, hM⟩

/-- The row is written by the worker whose job is under way. -/
theorem StrandInv.of_write {s : World × Bool} {o o' : BuyOrderDoc} (hi : StrandInv id s)
    (halive : s.1.buyQueue.alive id = true) (ho' : w.buyOrders.get id = some o')
    (hqueue : w.buyQueue = s.1.buyQueue) (hconsistent : o'.Consistent)
    (hst : o'.status ≠ .awaitingPayment) : StrandInv id (w, s.2) where
  row e he := by
    cases ho'.symm.trans he
    exact hconsistent
  taken _ := ⟨o', ho', hst⟩
  fresh := by
    rw [hqueue]
    exact hi.fresh
  alive _ := by
    rw [hqueue]
    exact Or.inl halive

theorem worker_update {u : BuyOrderSet} (hψ : Lasts ψ) (hφ : Lasts φ)
    (hst : u.status ≠ some .awaitingPayment)
    (hu : order = id → ∀ e, φ e → e.Consistent → e.status ≠ .awaitingPayment →
      (u.apply e).Consistent ∧ ψ (u.apply e)) :
    (strandRules cfg id).Triple (some order) (Mine order id φ) (BuyOrder.updateById order u)
      (fun _ => Mine order id ψ) fun _ _ => True := by
  refine .call (Mine.stable hφ) (worker_settled _ _) ?_ (fun _ => Mine.stable hψ) stable_true
  refine worker_performs ?_ ?_
  · intro s out r w hid hs hans
    have hM : Answered (fun _ => Mine order id ψ) (fun _ => True) r (w, s.2) := by
      cases r with
      | error _ => trivial
      | ok _ => exact fun h => absurd h hid
    obtain ⟨_, _, _, rfl⟩ | ⟨x, hx, _⟩ := answer_cases hans
    · exact ⟨.of_same rfl rfl, hM⟩
    · cases (BuyOrder.effect_updateById none order u s.1).symm.trans hx
      exact ⟨⟨Collection.get_modify_other _ _ (Ne.symm hid), rfl⟩, hM⟩
  · intro s out r w hid hi hs _ hans
    obtain ⟨_, _, rfl, rfl⟩ | ⟨x, hx, hout⟩ := answer_cases hans
    · exact ⟨hi, trivial⟩
    · cases (BuyOrder.effect_updateById none order u s.1).symm.trans hx
      obtain ⟨halive, e, he, hne, hφe⟩ := hs hid
      subst hid
      obtain ⟨hconsistent, hψe⟩ := hu rfl e hφe (hi.row e he) hne
      have hrow := World.get_setBuyOrder he u
      have hne' : (u.apply e).status ≠ .awaitingPayment := by
        cases hset : u.status with
        | none => simpa [BuyOrderSet.apply, hset] using hne
        | some st =>
            rw [hset] at hst
            simpa [BuyOrderSet.apply, hset] using hst
      refine ⟨hi.of_write (o := e) halive hrow rfl hconsistent hne', ?_⟩
      obtain ⟨_, rfl⟩ | ⟨_, _, rfl⟩ := hout
      · exact fun _ => ⟨halive, _, hrow, hne', hψe⟩
      · trivial

/-- What is known of a row that was found: the row it is of, and what was true of it. -/
def Known (order id : ObjectId) (φ : BuyOrderDoc → Prop) (o : BuyOrderDoc) (s : World × Bool) :
    Prop :=
  o.id = order ∧ (order = id → φ o) ∧ Mine order id (Sees o) s

theorem Known.stable (o : BuyOrderDoc) :
    (strandRules cfg id).Stable (some order) (Known order id φ o) :=
  fun s t hs ht hst h => ⟨h.1, h.2.1, Mine.stable (lasts_sees o) s t hs ht hst h.2.2⟩

theorem Known.stable_found (found : Option BuyOrderDoc) :
    (strandRules cfg id).Stable (some order)
      (Found (Known order id φ) (fun _ => order ≠ id) found) := by
  cases found with
  | none => exact fun _ _ _ _ _ h => h
  | some o => exact Known.stable o

theorem worker_find (hφ : Lasts φ) :
    (strandRules cfg id).Triple (some order) (Mine order id φ) (BuyOrder.findById order)
      (Found (Known order id fun o => φ o ∧ o.Consistent) fun _ => order ≠ id)
      fun _ _ => True := by
  refine .call (Mine.stable hφ) (worker_settled _ _) ?_ Known.stable_found stable_true
  refine BuyOrder.performs_findById ?_ fun _ _ _ => trivial
  intro s hi hs
  cases ho : ((strandRules cfg id).world s).buyOrders.get order with
  | none =>
      intro hid
      obtain ⟨_, o, ho', _⟩ := hs hid
      cases (hid ▸ ho).symm.trans ho'
  | some o =>
      refine ⟨Collection.get_id ho, fun hid => ?_, fun hid => ?_⟩
      · obtain ⟨_, e, he, _, hφe⟩ := hs hid
        cases (hid ▸ ho).symm.trans he
        exact ⟨hφe, hi.row o (hid ▸ ho)⟩
      · obtain ⟨halive, e, he, hst, _⟩ := hs hid
        cases (hid ▸ ho).symm.trans he
        exact ⟨halive, o, he, hst, .refl o⟩

/-- What a claim leaves of the row it takes. -/
theorem Broadcast.claimed_consistent {b : Broadcast} {e : BuyOrderDoc}
    (hc : b.claimable e = true) (he : e.Consistent) :
    BuyOrderDoc.Consistent (BuyOrderSet.apply { status := some b.claimed } e) := by
  cases b with
  | swap => exact ⟨fun h => by simp [BuyOrderSet.apply, claimed] at h,
      fun h => by simp [BuyOrderSet.apply, claimed] at h⟩
  | burn =>
      refine ⟨fun h => by simp [BuyOrderSet.apply, claimed] at h, fun _ => ?_⟩
      simp only [claimable, burnClaimable, Bool.and_eq_true, bne_iff_ne] at hc
      simpa [BuyOrderSet.apply] using hc.2

theorem Broadcast.claimed_ne_awaiting (b : Broadcast) : b.claimed ≠ .awaitingPayment := by
  cases b <;> decide

theorem Broadcast.hash_of_claimable {b : Broadcast} {e : BuyOrderDoc}
    (hc : b.claimable e = true) : b.hash e = none := by
  cases b with
  | swap =>
      simp only [claimable, swapClaimable, Bool.and_eq_true, beq_iff_eq] at hc
      exact hc.2
  | burn =>
      simp only [claimable, burnClaimable, Bool.and_eq_true, beq_iff_eq] at hc
      exact hc.1.2

/-- A row that its claim has taken. -/
def Taken (b : Broadcast) (o : BuyOrderDoc) : Prop := o.status = b.claimed ∧ b.hash o = none

theorem worker_claim {b : Broadcast} (hφ : Lasts φ)
    (hrefused : order = id → ∀ e, φ e → e.Consistent → b.claimable e = false → Ended e) :
    (strandRules cfg id).Triple (some order) (Mine order id φ)
      (call (.buyOrder (.findOneAndUpdate (fun o => o.id == order && b.claimable o) none
        { status := some b.claimed })))
      (Found (Known order id (Taken b)) (Mine order id Ended)) fun _ _ => True := by
  refine .call (Mine.stable hφ) (worker_settled _ _) ?_ (fun found => ?_) stable_true
  · refine BuyOrder.performs_claim ?_ ?_ fun _ _ _ => trivial
    · intro s o hi hs _ ho hc
      have hrow := World.get_setBuyOrder ho { status := some b.claimed }
      by_cases hid : order = id
      · subst hid
        obtain ⟨halive, _⟩ := hs rfl
        have hst : (BuyOrderSet.apply { status := some b.claimed } o).status = b.claimed := rfl
        have hi' := hi.of_write (o := o) halive hrow rfl
          (Broadcast.claimed_consistent hc (hi.row o ho)) (hst ▸ b.claimed_ne_awaiting)
        refine ⟨⟨(_, s.2), rfl, hi', worker_guar rfl, Collection.get_id ho, fun _ => ⟨hst, ?_⟩,
          fun _ => ⟨halive, _, hrow, hst ▸ b.claimed_ne_awaiting, .refl _⟩⟩,
          (_, s.2), rfl, hi', worker_guar rfl, trivial⟩
        have hnone := Broadcast.hash_of_claimable hc
        cases b <;> simpa [BuyOrderSet.apply, Broadcast.hash] using hnone
      · have hbeside : Beside id s.1 (s.1.setBuyOrder order { status := some b.claimed }) :=
          ⟨Collection.get_modify_other _ _ (Ne.symm hid), rfl⟩
        exact ⟨⟨(_, s.2), rfl, hbeside.inv hi, fun j _ => hbeside.rely j, Collection.get_id ho,
          fun h => absurd h hid, fun h => absurd h hid⟩,
          (_, s.2), rfl, hbeside.inv hi, fun j _ => hbeside.rely j, trivial⟩
    · intro s hi hs hnone hid
      obtain ⟨halive, e, he, hst, hφe⟩ := hs hid
      subst hid
      refine ⟨halive, e, he, hst, hrefused rfl e hφe (hi.row e he) ?_⟩
      have he : ((strandRules cfg order).world s).buyOrders.get order = some e := he
      rw [he] at hnone
      simpa [Option.filter] using hnone
  · cases found with
    | none => exact Mine.stable lasts_ended
    | some o => exact Known.stable o

/-- What a run goes on with: nothing is left to do if the hash is not there and neither is
the claim. -/
def Resumed (b : Broadcast) (o : BuyOrderDoc) : Prop :=
  b.hash o = none → o.status ≠ b.claimed → Ended o

theorem worker_claimUnlessFiled {b : Broadcast} (o : BuyOrderDoc)
    (hrefused : order = id → b.hash o = none →
      ∀ e, Sees o e → e.Consistent → b.claimable e = false → Ended e) :
    (strandRules cfg id).Triple (some order) (fun s => o.id = order ∧ Mine order id (Sees o) s)
      (claimUnlessFiled (b.hash o).isSome
        (call (.buyOrder (.findOneAndUpdate (fun o => o.id == order && b.claimable o) none
          { status := some b.claimed }))) o order)
      (Found (Known order id (Resumed b)) fun _ => order ≠ id) fun _ _ => True := by
  have hstable : (strandRules cfg id).Stable (some order)
      fun s => o.id = order ∧ Mine order id (Sees o) s :=
    fun s t hs ht hst h => ⟨h.1, Mine.stable (lasts_sees o) s t hs ht hst h.2⟩
  rw [claimUnlessFiled]
  cases hh : b.hash o with
  | some h =>
      refine .pure hstable fun _ _ hs => ⟨hs.1, fun _ hnone => ?_, hs.2⟩
      cases hh.symm.trans hnone
  | none =>
      simp only [Option.isSome_none, Bool.false_eq_true, if_false]
      refine .bind ((worker_claim (lasts_sees o) fun hid => hrefused hid hh).pre
        fun _ _ hs => hs.2) ?_
      intro found
      cases found with
      | some c =>
          exact .pure (Known.stable c) fun _ _ hs =>
            ⟨hs.1, fun hid _ hst => absurd (hs.2.1 hid).1 hst, hs.2.2⟩
      | none =>
          refine (worker_find lasts_ended).weaken (fun _ _ hs => hs) ?_ fun _ _ _ _ => trivial
          intro found s _ hs
          cases found with
          | none => exact hs
          | some c => exact ⟨hs.1, fun hid _ _ => (hs.2.1 hid).1, hs.2.2⟩

theorem elsewhere_call {β : Type} {op : Op β} (horders : op.part ≠ .buyOrders)
    (hqueue : op.part ≠ .queues) : (call op).Only Op.elsewhere := .request ⟨horders, hqueue⟩

/-- The order fails, and the attempt with it. -/
theorem worker_failOrder {α : Type} (hφ : Lasts φ) (what : String) (h : Hash)
    {Q : α → World × Bool → Prop} :
    (strandRules cfg id).Triple (some order) (Mine order id φ) (failOrder order what h) Q
      fun _ _ => True := by
  refine .bind (worker_update (ψ := Ended) lasts_ended hφ (by simp) fun _ e _ _ _ => ?_) fun _ =>
    .throw (Mine.stable lasts_ended) fun _ _ _ => trivial
  exact ⟨⟨fun hst => by simp [BuyOrderSet.apply] at hst, fun hst => by simp [BuyOrderSet.apply] at hst⟩,
    by simp [Ended, BuyOrderSet.apply, BuyOrderDoc.unfinished]⟩

theorem worker_reconcileSwap {ctx : BuyContext} (hid : ctx.order.id = order) (h : Hash) :
    (strandRules cfg id).Triple (some order) (Mine order id Swapped) (reconcileSwap ctx h)
      (fun _ => Mine order id Swapped) fun _ _ => True := by
  refine .bind (worker_only (elsewhere_call (fun h => by cases h) fun h => by cases h)
    lasts_swapped) fun receipt => ?_
  split
  · exact worker_only (elsewhere_call (fun h => by cases h) fun h => by cases h) lasts_swapped
  · rw [hid]
    exact worker_failOrder lasts_swapped _ h

theorem landSetup_elsewhere (sender : Address) (setup : WalletCall)
    (reverted : Hash → String) : (landSetup sender setup reverted).Only Op.elsewhere := by
  refine .bind (elsewhere_call (fun h => by cases h) fun h => by cases h) fun txHash =>
    .bind (elsewhere_call (fun h => by cases h) fun h => by cases h) fun receipt => ?_
  split <;> trivial

theorem ensurePaymentGasBudget_elsewhere (address : Address) :
    (ensurePaymentGasBudget cfg address).Only Op.elsewhere := by
  refine .bind (elsewhere_call (fun h => by cases h) fun h => by cases h) fun balance => ?_
  split
  · trivial
  · exact .bind (.ofExcept _) fun _ => landSetup_elsewhere _ _ _

theorem ensureUsdcAllowance_elsewhere (ctx : BuyContext) (amount : Int) :
    (ensureUsdcAllowance ctx amount).Only Op.elsewhere := by
  refine .bind (elsewhere_call (fun h => by cases h) fun h => by cases h) fun allowance => ?_
  split
  · trivial
  · exact landSetup_elsewhere _ _ _

/-- The row is in no state in which a swap must not be filed. -/
def Fileable (e : BuyOrderDoc) : Prop := e.status ≠ .paymentDetected

theorem lasts_fileable : Lasts Fileable := fun _ _ _ => by simp [Fileable]

theorem worker_executeSwap {ctx : BuyContext} (hid : ctx.order.id = order) :
    (strandRules cfg id).Triple (some order) (Mine order id Fileable) (executeSwap cfg ctx)
      (fun _ => Mine order id Swapped) fun _ _ => True := by
  have hlook : ∀ {β : Type} {op : Op β}, op.part ≠ .buyOrders → op.part ≠ .queues →
      (strandRules cfg id).Triple (some order) (Mine order id Fileable) (call op)
        (fun _ => Mine order id Fileable) fun _ _ => True :=
    fun horders hqueue => worker_only (elsewhere_call horders hqueue) lasts_fileable
  refine .bind (hlook (fun h => by cases h) fun h => by cases h) fun balance => ?_
  split
  · exact .throw (Mine.stable lasts_fileable) fun _ _ _ => trivial
  · refine .bind (worker_only (ensurePaymentGasBudget_elsewhere _) lasts_fileable) fun _ => ?_
    refine .bind (worker_only (ensureUsdcAllowance_elsewhere _ _) lasts_fileable) fun _ => ?_
    refine .bind (hlook (fun h => by cases h) fun h => by cases h) fun expected => ?_
    refine .bind (hlook (fun h => by cases h) fun h => by cases h) fun txHash => ?_
    rw [hid]
    refine .bind (worker_update lasts_swapped lasts_fileable (by simp) fun _ e hφ he hopen => ?_)
      fun _ => ?_
    · exact ⟨⟨fun hst => (hst.elim hopen hφ).elim, fun hst => by simp [BuyOrderSet.apply]⟩,
        by simp [Swapped, BuyOrderSet.apply]⟩
    · refine .bind (worker_reconcileSwap hid txHash) fun out => ?_
      refine .bind (worker_update lasts_swapped lasts_swapped (by simp) fun _ e hφ he _ => ?_)
        fun _ => .pure (Mine.stable lasts_swapped) fun _ _ h => h
      exact ⟨⟨fun hst => he.early hst, fun hst => he.burning hst⟩, hφ⟩

/-- Either the swap is on file, or there is nothing to do. -/
theorem worker_swapStep (ctx : BuyContext) :
    (strandRules cfg id).Triple (some order) (Known order id (Resumed .swap) ctx.order)
      (swapStep cfg ctx) (Found (fun _ => Mine order id Swapped) (Mine order id Ended))
      fun _ _ => True := by
  refine .fact (fun _ _ h => h.1) fun hid => ?_
  rw [swapStep]
  split
  · rename_i h hh
    refine .bind ((worker_reconcileSwap hid h).pre fun s _ hs => hs.2.2.mono fun _ e he => ?_)
      fun _ => .pure (Mine.stable lasts_swapped) fun _ _ h => h
    rw [Swapped, he.swap, hh]
    simp
  · rename_i hh
    split
    · rename_i hst
      refine .bind ((worker_executeSwap hid).pre fun s _ hs => hs.2.2.mono fun _ e he => ?_)
        fun _ => .pure (Mine.stable lasts_swapped) fun _ _ h => h
      exact he.status (by simp [hst])
    · rename_i hst
      exact .pure (Known.stable _) fun _ _ hs =>
        hs.2.2.mono fun hid e he => he.ended (hs.2.1 hid hh hst)

theorem worker_reconcileBurn {ctx : BuyContext} (hid : ctx.order.id = order) (h : Hash) :
    (strandRules cfg id).Triple (some order) (Mine order id fun _ => True) (reconcileBurn ctx h)
      (fun _ => Mine order id Ended) fun _ _ => True := by
  refine .bind (worker_only (elsewhere_call (fun h => by cases h) fun h => by cases h)
    lasts_any) fun receipt => ?_
  rw [hid]
  split
  · refine worker_update lasts_ended lasts_any (by simp) fun _ e _ _ _ => ?_
    exact ⟨⟨fun hst => by simp [BuyOrderSet.apply] at hst,
      fun hst => by simp [BuyOrderSet.apply] at hst⟩,
      by simp [Ended, BuyOrderSet.apply, BuyOrderDoc.unfinished]⟩
  · exact worker_failOrder lasts_any _ h

theorem worker_burnStep (ctx : BuyContext) (wfairOut : Int) :
    (strandRules cfg id).Triple (some order) (Known order id (Resumed .burn) ctx.order)
      (burnStep ctx wfairOut) (fun _ => Mine order id Ended) fun _ _ => True := by
  refine .fact (fun _ _ h => h.1) fun hid => ?_
  rw [burnStep]
  split
  · rename_i h hh
    exact .bind ((worker_reconcileBurn hid h).pre fun s _ hs => hs.2.2.mono fun _ _ _ => trivial)
      fun _ => .pure (Mine.stable lasts_ended) fun _ _ h => h
  · rename_i hh
    split
    · refine .bind ?_ fun _ => .pure (Mine.stable lasts_ended) fun _ _ h => h
      refine Triple.pre (P := Mine order id fun _ => True) ?_ fun s _ hs =>
        hs.2.2.mono fun _ _ _ => trivial
      refine .bind (worker_only (elsewhere_call (fun h => by cases h) fun h => by cases h)
        lasts_any) fun txHash => ?_
      rw [hid]
      refine .bind (worker_update lasts_any lasts_any (by simp) fun _ e _ he _ => ?_) fun _ =>
        worker_reconcileBurn hid txHash
      exact ⟨⟨fun hst => he.early hst, fun hst => he.burning hst⟩, trivial⟩
    · rename_i hst
      exact .pure (Known.stable _) fun _ _ hs =>
        hs.2.2.mono fun hid e he => he.ended (hs.2.1 hid hh hst)

theorem alert_elsewhere (message : String) : (alert cfg message).Only Op.elsewhere :=
  alert_only (fun _ => ⟨by rintro ⟨⟩, by rintro ⟨⟩⟩) message

/-- A claim of the swap that is refused leaves nothing to swap. -/
theorem swap_refused {o e : BuyOrderDoc} (hh : o.swapTxHash = none) (he : Sees o e)
    (hconsistent : e.Consistent) (hc : swapClaimable e = false) : Ended e := by
  have hnone : e.swapTxHash = none := he.swap.trans hh
  have hburn := hconsistent.burning
  cases hst : e.status <;>
    simp_all [Ended, BuyOrderDoc.unfinished, swapClaimable]

/-- A claim of the burn that is refused after the swap leaves nothing to burn. -/
theorem burn_refused {e : BuyOrderDoc} (hswap : Swapped e) (hconsistent : e.Consistent)
    (hc : burnClaimable e = false) : Ended e := by
  have hearly := hconsistent.early
  have hfiled : ∀ {h : Option Hash}, ¬ h = none → h.isSome = true :=
    fun h => Option.isSome_iff_ne_none.mpr h
  cases hst : e.status <;>
    simp_all [Ended, BuyOrderDoc.unfinished, burnClaimable, Swapped]

theorem worker_burnAfterSwap {ctx : BuyContext} {swapped : BuyOrderDoc}
    (hswapped : swapped.id = order) (wfairOut : Int) :
    (strandRules cfg id).Triple (some order) (Mine order id Swapped)
      (burnAfterSwap cfg ctx swapped order wfairOut) (fun _ => Mine order id Ended)
      fun _ _ => True := by
  refine .bind (worker_find lasts_swapped) fun found => ?_
  refine .bind (M := Found (Known order id (Resumed .burn)) fun _ => order ≠ id) ?_ fun held => ?_
  · cases found with
    | none =>
        refine .fact (fun _ _ h => h) fun hne => ?_
        exact (worker_claimUnlessFiled (b := .burn) swapped fun h => absurd h hne).pre
          fun _ _ _ => ⟨hswapped, fun h => absurd h hne⟩
    | some o =>
        refine .fact (fun _ _ h => h.2.1) fun hknown => ?_
        refine (worker_claimUnlessFiled (b := .burn) o fun hid _ e he hconsistent hc => ?_).pre
          fun _ _ h => ⟨h.1, h.2.2⟩
        have hswap : Swapped e := fun h => (hknown hid).1 (he.swap.symm.trans h)
        exact burn_refused hswap hconsistent hc
  · cases held with
    | none => exact .pure (fun _ _ _ _ _ h => h) fun _ _ h hid => absurd hid h
    | some o =>
        refine .bind (worker_burnStep { ctx with order := o } wfairOut) fun burned => ?_
        split
        · refine .tryCatch (M := fun _ => Mine order id Ended) ?_ fun _ => ?_
          · exact worker_kept (elsewhere_call (fun h => by cases h) fun h => by cases h) lasts_ended
          · exact worker_only (alert_elsewhere _) lasts_ended
        · exact .pure (Mine.stable lasts_ended) fun _ _ h => h

theorem worker_swapThenBurn {ctx : BuyContext} :
    (strandRules cfg id).Triple (some order) (Known order id (fun _ => True) ctx.order)
      (swapThenBurn cfg ctx order) (fun _ => Mine order id Ended) fun _ _ => True := by
  refine .bind ((worker_claimUnlessFiled (b := .swap) ctx.order fun _ hh e he hconsistent hc =>
    swap_refused hh he hconsistent hc).pre fun _ _ h => ⟨h.1, h.2.2⟩) fun held => ?_
  cases held with
  | none => exact .pure (fun _ _ _ _ _ h => h) fun _ _ h hid => absurd hid h
  | some o =>
      refine .fact (fun _ _ h => h.1) fun hid => ?_
      refine .bind (worker_swapStep { ctx with order := o }) fun out => ?_
      cases out with
      | none => exact .pure (Mine.stable lasts_ended) fun _ _ h => h
      | some wfairOut => exact worker_burnAfterSwap hid wfairOut

/-- The order that the context was loaded with. -/
theorem worker_loadContext :
    (strandRules cfg id).Triple (some order) (Mine order id fun _ => True)
      (loadContext cfg order)
      (Found (fun ctx => Known order id (fun _ => True) ctx.order) fun _ => order ≠ id)
      fun _ _ => True := by
  refine .bind (worker_find lasts_any) fun found => ?_
  cases found with
  | none => exact .pure (fun _ _ _ _ _ h => h) fun _ _ h => h
  | some o =>
      have hstable : (strandRules cfg id).Stable (some order)
          (Known order id (fun o => True ∧ o.Consistent) o) := Known.stable o
      simp only
      split
      · exact .throw hstable fun _ _ _ => trivial
      · refine .bind (M := fun _ => Known order id (fun _ => True) o)
          (.ofExcept hstable (fun _ _ _ _ h => ⟨h.1, fun _ => trivial, h.2.2⟩)
            fun _ _ _ => trivial) fun key => ?_
        split
        · exact .pure (Known.stable o) fun _ _ h => h
        · exact .throw (Known.stable o) fun _ _ _ => trivial

theorem worker_processBuy :
    (strandRules cfg id).Triple (some order) (Mine order id fun _ => True)
      (processBuy cfg order) (fun _ => Mine order id Ended) fun _ _ => True := by
  refine .bind worker_loadContext fun found => ?_
  cases found with
  | none => exact .pure (fun _ _ _ _ _ h => h) fun _ _ h hid => absurd hid h
  | some ctx =>
      have hstable : (strandRules cfg id).Stable (some order)
          (Found (fun ctx => Known order id (fun _ => True) ctx.order) (fun _ => order ≠ id)
            (some ctx)) := Known.stable (φ := fun _ => True) ctx.order
      simp only
      split
      · rename_i hst
        refine .pure hstable fun _ _ h => h.2.2.mono fun _ e he => he.ended ?_
        obtain hst | hst := hst <;> simp [Ended, BuyOrderDoc.unfinished, hst]
      · split
        · exact .throw hstable fun _ _ _ => trivial
        · exact worker_swapThenBurn

theorem worker_buyProcessor :
    (strandRules cfg id).Triple (some order) (Mine order id fun _ => True)
      (buyProcessor cfg order) (fun _ => Mine order id Ended) fun _ _ => True := by
  refine .tryCatch worker_processBuy fun err => ?_
  have hthrow : (strandRules cfg id).Triple (some order) (fun _ => True) (throw err : Promise Unit)
      (fun _ => Mine order id Ended) fun _ _ => True :=
    .throw stable_true fun _ _ _ => trivial
  simp only
  split
  · exact .bind ((worker_quiet (alert_elsewhere _) stable_true fun _ _ _ _ => trivial).weaken
      (fun _ _ h => h) (fun _ _ _ h => h) fun _ _ _ _ => trivial) fun _ => hthrow
  · exact hthrow

/-- The job of the order is taken while it is in the queue. -/
def Takeable (order id : ObjectId) (s : World × Bool) : Prop :=
  order = id → Attended id s ∧ s.1.buyQueue.alive id = true

theorem takeable_stable : (strandRules cfg id).Stable (some order) (Takeable order id) :=
  fun _ _ _ _ hst h hid => ⟨(hst hid).2 (h hid).1, (hst hid).1.alive (h hid).2⟩

theorem worker_takeJob :
    (strandRules cfg id).Triple (some order) (Takeable order id) (call (.takeJob (.buy order)))
      (fun _ => Mine order id fun _ => True) fun _ => (strandRules cfg id).rest (some order) := by
  refine .call takeable_stable (worker_settled _ _) ?_ (fun _ => Mine.stable lasts_any) .rest
  refine worker_performs ?_ ?_
  · intro s out r w hid _ hans
    have hM : Answered (fun _ => Mine order id fun _ => True)
        ((strandRules cfg id).rest (some order)) r (w, s.2) := by
      cases r <;> exact fun h => absurd h hid
    obtain ⟨_, _, _, rfl⟩ | ⟨x, hx, _⟩ := answer_cases hans
    · exact ⟨.of_same rfl rfl, hM⟩
    · cases hx
      exact ⟨⟨rfl, JobQueue.named_take_other (Ne.symm hid)⟩, hM⟩
  · intro s out r w hid hi hs hmay hans
    subst hid
    have hdone : out = .done := by
      cases out with
      | done => rfl
      | fail _ | lost _ => simp [strandRuns, Outcome.isDone] at hmay
    subst hdone
    cases hans
    have hhas := JobQueue.has_of_alive (hs rfl).2
    have halive := JobQueue.alive_take hhas
    obtain ⟨o, ho, hst⟩ := hi.taken (Or.inr hhas)
    exact ⟨⟨hi.row, fun _ => ⟨o, ho, hst⟩, fun hadding => (JobQueue.has_take _ _).trans
      (hi.fresh hadding), fun _ => Or.inl halive⟩, fun _ => ⟨halive, o, ho, hst, trivial⟩⟩

/-- What is known of the order once the worker has come to an end. -/
def Processed (order id : ObjectId) (raised : Option JsError) (s : World × Bool) : Prop :=
  raised = none → Mine order id Ended s

theorem processed_stable (raised : Option JsError) :
    (strandRules cfg id).Stable (some order) (Processed order id raised) :=
  fun s t hs ht hst h hnone => Mine.stable lasts_ended s t hs ht hst (h hnone)

theorem worker_finishJob (raised : Option JsError) :
    (strandRules cfg id).Triple (some order) (Processed order id raised)
      (call (.finishJob (.buy order) raised))
      (fun _ => (strandRules cfg id).rest (some order))
      fun _ => (strandRules cfg id).rest (some order) := by
  refine .call (processed_stable raised) (worker_settled _ _) ?_ (fun _ => .rest) .rest
  refine worker_performs ?_ ?_
  · intro s out r w hid _ hans
    have hM : Answered (fun _ => (strandRules cfg id).rest (some order))
        ((strandRules cfg id).rest (some order)) r (w, s.2) := by
      cases r <;> exact fun h => absurd h hid
    obtain ⟨_, _, _, rfl⟩ | ⟨x, hx, _⟩ := answer_cases hans
    · exact ⟨.of_same rfl rfl, hM⟩
    · cases hx
      exact ⟨⟨rfl, JobQueue.named_finish_other (Ne.symm hid) _ _⟩, hM⟩
  · intro s out r w hid hi hs hmay hans
    subst hid
    simp only [strandRuns, Bool.and_eq_true] at hmay
    have hdone : out = .done := by
      cases out with
      | done => rfl
      | fail _ | lost _ => simp [Outcome.isDone] at hmay
    subst hdone
    cases hans
    have hleft : s.1.unfinished order = true →
        (s.1.buyQueue.finish order raised.isSome (raised.any JsError.nonRetryable)).attemptable
          order = true := by
      intro hun
      cases raised with
      | none =>
          obtain ⟨_, o, ho, _, hended⟩ := hs rfl rfl
          rw [World.unfinished, ho] at hun
          exact absurd hun (by rw [Option.any_some, hended]; decide)
      | some e =>
          have hkeeps := hmay.2
          simp [Op.losesJob, hun] at hkeeps
          rw [Option.any_some, hkeeps.1]
          exact JobQueue.attemptable_finish hkeeps.2
    have hhas : (s.1.buyQueue.finish order raised.isSome (raised.any JsError.nonRetryable)).has
        order = s.1.buyQueue.has order := JobQueue.has_finish _ _ _ _
    refine ⟨⟨hi.row, fun h => hi.taken (h.imp_right fun h => hhas.symm.trans h),
      fun h => hhas.trans (hi.fresh h),
      fun hun => Or.inl (JobQueue.alive_of_attemptable (hleft hun))⟩, fun _ hun => ?_⟩
    exact Or.inl (hleft hun)

theorem worker_attempt :
    (strandRules cfg id).Triple (some order) (Takeable order id)
      (attempt (.buy order) (buyProcessor cfg order))
      (fun _ => (strandRules cfg id).rest (some order))
      fun _ => (strandRules cfg id).rest (some order) := by
  refine .bind worker_takeJob fun _ => .bind (M := Processed order id) ?_ worker_finishJob
  refine .tryCatch (M := fun _ _ => True) ?_ fun err => ?_
  · exact .bind worker_buyProcessor fun _ => .pure (Mine.stable lasts_ended) fun _ _ h _ => h
  · exact .pure stable_true fun _ _ _ hnone => by cases hnone

theorem strand_starts : (strandRules cfg id).Starts := by
  intro i t s hi hrest hready
  cases i with
  | none =>
      cases t with
      | startBuyWatcher rounds =>
          exact (strandOutline.startBuyWatcher rounds).weaken (fun _ _ h => h)
            (fun _ _ _ h => h) (fun _ _ _ h => h) s hi hrest
      | _ => simp [service, strandRuns] at hready
  | some order =>
      cases t with
      | attemptBuy job =>
          have hready : (job == order && s.1.buyQueue.attemptable order) = true := hready
          simp only [Bool.and_eq_true, beq_iff_eq] at hready
          obtain ⟨rfl, hjob⟩ := hready
          refine worker_attempt s hi fun hid => ⟨hrest hid, ?_⟩
          exact JobQueue.alive_of_attemptable (hid ▸ hjob)
      | _ => simp [service, strandRuns] at hready

/-- The order and its job at the start: the row is in order, and if it has a job it is paid
for; if it is unfinished the job can be attempted. -/
structure World.Tended (w : World) (id : ObjectId) : Prop where
  row : ∀ o, w.buyOrders.get id = some o → o.Consistent
  job : w.buyQueue.has id = true →
    ∃ o, w.buyOrders.get id = some o ∧ o.status ≠ .awaitingPayment
  attended : w.unfinished id = true → w.buyQueue.attemptable id = true

theorem World.Tended.good (h : w.Tended id) :
    (strandRules cfg id).Good (.init w) (w, false) := by
  refine .init rfl ⟨h.row, fun ht => h.job (ht.resolve_left Bool.false_ne_true), fun hb => (by cases hb),
    fun hun => Or.inl (JobQueue.alive_of_attemptable (h.attended hun))⟩ ?_
  intro i
  cases i with
  | none => rfl
  | some order => exact fun _ hun => Or.inl (h.attended hun)

def Op.addsJob (id : ObjectId) {β : Type} : Op β → Bool
  | .addBuyJob order => order == id
  | _ => false

/-- The program is about to add the order's job: past reads that are not awaited it asks for
nothing else. -/
def Adding (id : ObjectId) (w : World) : Promise Unit → Prop
  | .await op k => op.addsJob id = true ∨ op.synchronous = true ∧
      ∃ r w', answer none op .done w = some (r, w') ∧ Adding id w' (k r)
  | _ => False

theorem answer_synchronous {β : Type} {op : Op β} (hop : op.synchronous = true) (w : World) :
    ∃ r w', answer none op .done w = some (r, w') := by
  cases op <;> first | exact ⟨_, _, rfl⟩ | cases hop

theorem synchronous_elsewhere {β : Type} {op : Op β} (hop : op.synchronous = true) :
    op.elsewhere := by
  cases op <;> simp_all [Op.elsewhere, Op.part, Op.synchronous]

/-- Where the order has no job yet, the watcher can go nowhere without adding it. -/
theorem adding_of_safe {p : Promise Unit} {s : World × Bool}
    (hsafe : (strandRules cfg id).Safe none (fun _ => (strandRules cfg id).rest none)
      (fun _ => (strandRules cfg id).rest none) p s)
    (hi : StrandInv id s) (hadding : s.2 = true) (hun : s.1.unfinished id = true) :
    Adding id s.1 p := by
  have hrest : ¬ (strandRules cfg id).rest none s := fun h => by cases hadding.symm.trans h
  induction p generalizing s with
  | pure _ | throw _ => exact absurd (hsafe s ((strandRules cfg id).rely_refl none s) hi) hrest
  | await op k ih =>
      obtain ⟨hkill, hstep⟩ := hsafe s ((strandRules cfg id).rely_refl none s) hi
      by_cases hadds : op.addsJob id = true
      · exact Or.inl hadds
      · have hsync : op.synchronous = true := by
          by_contra hsync
          refine hrest (hkill ?_)
          have hlives : op.diesWithJob id none s.1 = false := by
            cases op <;> first | rfl | simpa [Op.addsJob, Op.diesWithJob] using hadds
          change (!op.synchronous && (!true || !op.diesWithJob id none s.1)) = true
          rw [Bool.eq_false_iff.mpr hsync, hlives]
          rfl
        obtain ⟨r, w, hans⟩ := answer_synchronous hsync s.1
        obtain ⟨u, rfl, hiu, _, hk⟩ := hstep .done r w trivial
          (by cases op <;> first | rfl | cases hsync) hans
        have hbeside : Beside id s.1 u.1 :=
          .of_frame (synchronous_elsewhere hsync).1 (synchronous_elsewhere hsync).2 hans
        have hun' : u.1.unfinished id = true := hbeside.unfinished.trans hun
        have hnone : u.1.buyQueue.alive id = false := by
          rw [hbeside.alive]
          refine Bool.eq_false_iff.mpr fun h => ?_
          cases (hi.fresh hadding).symm.trans (JobQueue.has_of_alive h)
        have hadding' : u.2 = true :=
          (hiu.alive hun').resolve_left (by rw [hnone]; exact Bool.false_ne_true)
        exact Or.inr ⟨hsync, r, u.1, hans,
          ih r hk hiu hadding' hun' fun h => by cases hadding'.symm.trans h⟩

namespace Sample

/-- The address of the one order holds what it asks for. -/
def fundedWorld : World where
  buyOrders := Collection.empty.insert 0
    { paymentAddress := some ⟨5⟩, paymentAmount := 5, paymentExpiresAt := 10 }
  base := { tokens := { usdc := fun _ => 5 } }

def fundedConfig : Config := { config with buyPaymentHdXprv := some "xprv" }

theorem fundedWorld_tended : fundedWorld.Tended 0 where
  row o ho := by
    cases ho
    exact ⟨fun _ => rfl, fun h => by cases h⟩
  job h := by cases h
  attended h := by cases h

/-- A tick claims the payment and adds the job, whose first attempt is then taken and
raises. -/
def tickAndAttempt : List (Event JsError (Option ObjectId) Task EnvEvent) :=
  .start none (.startBuyWatcher 1) :: List.replicate 8 (.step none .done) ++
    [.start (some 0) (.attemptBuy 0), .step (some 0) .done,
      .step (some 0) (.fail (.error "connection lost")), .step (some 0) .done]

/-- A tick claims the payment; the queue cannot be reached. -/
def tickWithoutQueue : List (Event JsError (Option ObjectId) Task EnvEvent) :=
  .start none (.startBuyWatcher 1) :: List.replicate 7 (.step none .done) ++
    [.step none (.fail (.error "connection lost"))]

end Sample

end FairBridge

import FairBridge.Guarantees.OrderDelivery

/-!
The steps of a release after its payment: the status, the audit row and the link to the
order that emitted the burn. An attempt that finds the status already there skips them; any
other attempt that returns has made them all, but for a link that raised.
-/

namespace FairBridge
open Store Async Async.Rules

/-- Attempts of one withdrawal's job, one after the other. Any request may raise, that of
the link only if `linkFails`, and any attempt may die. Nobody else works on the orders. -/
def releaseAttempts (id : ObjectId) (linkFails : Bool) : Faults Unit where
  ready _ _ t := match t with
    | .signRelease job => job.withdrawalId == id
    | _ => false
  may _ op out _ := match op with
    | .buyOrder _ => linkFails || out.isDone
    | _ => true
  mayKill _ _ _ := true
  row _ := none
  env e _ := match e with
    | .order _ _ | .quote _ => false
    | _ => true

/-- What the environment leaves alone. -/
structure BooksAlone (s t : World) : Prop where
  rows : t.withdrawals = s.withdrawals
  orders : t.buyOrders = s.buyOrders
  audit : t.audit = s.audit

theorem BooksAlone.of_env {e : EnvEvent} {s t : World} (h : e.occur s = some t)
    (he : ∀ o, e ≠ .quote o) (ho : ∀ id status, e ≠ .order id status) : BooksAlone s t := by
  cases e with
  | order id status => exact absurd rfl (ho id status)
  | quote o => exact absurd rfl (he o)
  | wait _ | transactionKnown _ _ | credit _ | masternodes _ | abort | restart
  | serveFirst _ | market _ =>
      cases h
      exact ⟨rfl, rfl, rfl⟩
  | mine _ _ | foreignReceipt _ _ | baseBlock _ | fairBlock _ | confirm _ | intent _ _ _ _ =>
      simp only [EnvEvent.occur] at h
      split at h <;> cases h
      exact ⟨rfl, rfl, rfl⟩

/-- The request reaches none of these. -/
def Op.besideBooks {β : Type} (op : Op β) : Bool :=
  op.part != .withdrawals && op.part != .buyOrders && op.part != .audit

def attemptRules (cfg : Config) (id : ObjectId) (linkFails : Bool) :
    Rules (service cfg (releaseAttempts id linkFails)) World where
  world w := w
  inv _ := True
  rely _ := BooksAlone
  guar _ _ _ := True
  rest _ _ := True
  hist _ _ := True
  rely_refl _ _ := ⟨rfl, rfl, rfl⟩
  rely_trans h h' :=
    ⟨h'.rows.trans h.rows, h'.orders.trans h.orders, h'.audit.trans h.audit⟩
  guar_refl _ _ := trivial
  guar_rely h := absurd rfl h
  rest_stable _ _ _ _ := trivial
  hist_refl _ := trivial
  hist_trans _ _ := trivial
  guar_hist _ _ _ := trivial
  env_step {e s w} _ he := by
    obtain ⟨hallowed, hocc⟩ := service_env he
    refine ⟨w, rfl, trivial, trivial, fun _ => .of_env hocc ?_ ?_⟩
    · intro o h
      rw [h] at hallowed
      cases hallowed
    · intro id status h
      rw [h] at hallowed
      cases hallowed

section Attempt
variable {cfg : Config} {linkFails : Bool} {job : ReleaseJob} {w₀ : World}

/-- Only the withdrawals, the orders and the audit rows matter. -/
def OfBooks (P : World → Prop) : Prop := ∀ s t, BooksAlone s t → P s → P t

theorem OfBooks.stable {P : World → Prop} (h : OfBooks P) :
    (attemptRules cfg job.withdrawalId linkFails).Stable () P := fun s t _ _ hst => h s t hst

theorem ofBooks_true : OfBooks fun _ => True := fun _ _ _ _ => trivial

theorem attempt_call {β : Type} {op : Op β} {P : World → Prop} (hop : op.besideBooks = true)
    (hP : OfBooks P) :
    (attemptRules cfg job.withdrawalId linkFails).Triple () P (call op) (fun _ => P)
      fun _ _ => True := by
  refine .call hP.stable (.of_rest fun _ _ _ => trivial) ?_ (fun _ => hP.stable)
    ofBooks_true.stable
  intro s out r w _ hs _ _ hans
  simp only [Op.besideBooks, Bool.and_eq_true, bne_iff_ne] at hop
  have hframe := answer_frame hans
  refine ⟨w, rfl, trivial, trivial, ?_⟩
  cases r with
  | error _ => trivial
  | ok _ => exact hP s w ⟨hframe.withdrawals hop.1.1, hframe.buyOrders hop.1.2,
      hframe.audit hop.2⟩ hs

theorem attempt_update {id : ObjectId} {u : WithdrawalSet} {P M : World → Prop} (hP : OfBooks P)
    (hM : OfBooks M) (h : ∀ w, P w → M (w.setWithdrawal id u)) :
    (attemptRules cfg job.withdrawalId linkFails).Triple () P (Withdrawal.updateById id u)
      (fun _ => M) fun _ _ => True := by
  refine .call hP.stable (.of_rest fun _ _ _ => trivial) ?_ (fun _ => hM.stable)
    ofBooks_true.stable
  refine Withdrawal.performs_updateById ?_ fun _ _ _ _ _ => trivial
  exact fun w _ hw => ⟨_, rfl, trivial, trivial, h w hw, trivial⟩

/-- The row reads as the attempt has it, and the orders are as they were. -/
def HasRead (job : ReleaseJob) (w₀ : World) (d : WithdrawalDoc) (w : World) : Prop :=
  w.withdrawals.get job.withdrawalId = some d ∧ w.buyOrders = w₀.buyOrders

/-- The txid is on the row, and the orders are as they were. -/
def HasFiled (job : ReleaseJob) (w₀ : World) (t : Txid) (w : World) : Prop :=
  (∃ d, w.withdrawals.get job.withdrawalId = some d ∧ d.fairTxid = some t) ∧
    w.buyOrders = w₀.buyOrders

def ReleaseJob.entry (cfg : Config) (job : ReleaseJob) (t : Txid) : AuditLogEntry :=
  .signRelease job.withdrawalId job.destinationFairAddress job.amountSats t
    cfg.fairHotWalletMode

/-- The order emitted the burn and waits for its release. -/
def BuyOrderDoc.awaitsRelease (o : BuyOrderDoc) (burn : Hash) : Bool :=
  o.burnTxHash == some burn && (o.status == .burning || o.status == .delivering)

/-- The orders that waited for the release are delivered by it. -/
def Delivered (job : ReleaseJob) (w₀ : World) (t : Txid) (w : World) : Prop :=
  ∀ id o, w₀.buyOrders.get id = some o → o.awaitsRelease job.baseBurnTxHash = true →
    ∃ o', w.buyOrders.get id = some o' ∧ o'.status = .delivered ∧ o'.releaseFairTxId = some t

/-- All the steps after the payment have been made. -/
structure Completed (cfg : Config) (linkFails : Bool) (job : ReleaseJob) (w₀ : World)
    (t : Txid) (w : World) : Prop where
  filed : ∃ d, w.withdrawals.get job.withdrawalId = some d ∧ d.fairTxid = some t
  recorded : job.entry cfg t ∈ w.audit
  delivered : linkFails = false → Delivered job w₀ t w

/-- What an attempt returns with: the steps made, or a row that is not BROADCAST. -/
def Settles (cfg : Config) (linkFails : Bool) (job : ReleaseJob) (w₀ : World) (w : World) :
    Prop :=
  (∃ t, Completed cfg linkFails job w₀ t w) ∨
    ∃ d, w.withdrawals.get job.withdrawalId = some d ∧ d.status ≠ .broadcast

theorem HasRead.ofBooks (d : WithdrawalDoc) : OfBooks (HasRead job w₀ d) :=
  fun _ _ h hs => ⟨h.rows ▸ hs.1, h.orders.trans hs.2⟩

theorem HasFiled.ofBooks (t : Txid) : OfBooks (HasFiled job w₀ t) :=
  fun _ _ h hs => ⟨h.rows ▸ hs.1, h.orders.trans hs.2⟩

theorem Settles.ofBooks : OfBooks (Settles cfg linkFails job w₀) := by
  intro s t h hs
  cases hs with
  | inl hdone =>
      obtain ⟨x, hx⟩ := hdone
      refine Or.inl ⟨x, h.rows ▸ hx.filed, h.audit ▸ hx.recorded, ?_⟩
      intro hl id o ho hawaits
      rw [h.orders]
      exact hx.delivered hl id o ho hawaits
  | inr hother => exact Or.inr (h.rows ▸ hother)

theorem HasFiled.update {w : World} {t : Txid} {u : WithdrawalSet} (h : HasFiled job w₀ t w)
    (hu : u.fairTxid = none) : HasFiled job w₀ t (w.setWithdrawal job.withdrawalId u) := by
  obtain ⟨⟨d, hd, ht⟩, horders⟩ := h
  exact ⟨⟨_, World.get_setWithdrawal hd u, by simp [WithdrawalSet.apply, hu, ht]⟩, horders⟩

theorem attempt_alert {P : World → Prop} (hP : OfBooks P) (message : String) :
    (attemptRules cfg job.withdrawalId linkFails).Triple () P (alert cfg message) (fun _ _ => True)
      fun _ _ => True := by
  refine Triple.weaken (alert_keeps (P := fun _ => True) ofBooks_true.stable (fun _ _ h => h) ?_
    message) (fun _ _ _ => trivial) (fun _ _ _ _ => trivial) fun _ _ _ _ => trivial
  exact fun _ => performs_webhook fun _ _ h => h

theorem attempt_fairTxExists {P : World → Prop} (hP : OfBooks P) (t : Txid) :
    (attemptRules cfg job.withdrawalId linkFails).Triple () P (fairTxExists t) (fun _ => P)
      fun _ _ => True := by
  refine .tryCatch (M := fun _ => P) ?_ fun e => ?_
  · refine .bind (M := fun _ => P) ?_ fun _ => .pure hP.stable fun _ _ h => h
    exact .call hP.stable (.of_rest fun _ _ _ => trivial)
      (performs_getRawTransaction fun _ _ h => h) (fun _ => hP.stable) hP.stable
  · split
    · exact .pure hP.stable fun _ _ h => h
    · exact .throw hP.stable fun _ _ _ => trivial

/-- However the payment is made or found, its txid is on the row afterwards. -/
theorem attempt_signNodeWallet (d : WithdrawalDoc) :
    (attemptRules cfg job.withdrawalId linkFails).Triple () (HasRead job w₀ d)
      (signNodeWallet cfg job d) (HasFiled job w₀) fun _ _ => True := by
  refine .fact (fun _ _ h => Collection.get_id h.1) ?_
  intro hid
  have hid : d.id = job.withdrawalId := hid
  rw [signNodeWallet, hid]
  have hread : OfBooks (HasRead job w₀ d) := HasRead.ofBooks d
  split
  · rename_i t ht
    have hfile : ∀ sentAt, (attemptRules cfg job.withdrawalId linkFails).Triple ()
        (HasRead job w₀ d)
        (do Withdrawal.updateById job.withdrawalId
              { status := some .broadcast, fairBroadcastAt := some sentAt }
            return t) (HasFiled job w₀) fun _ _ => True := by
      intro sentAt
      refine .bind (M := fun _ => HasFiled job w₀ t) ?_ fun _ =>
        .pure (HasFiled.ofBooks t).stable fun _ _ h => h
      refine attempt_update hread (HasFiled.ofBooks t) fun w hw => ?_
      have hfiled : HasFiled job w₀ t w := ⟨⟨d, hw.1, ht⟩, hw.2⟩
      exact hfiled.update rfl
    refine .bind (attempt_fairTxExists hread t) fun known => ?_
    split
    · split
      · exact hfile _
      · exact .bind (attempt_call rfl hread) hfile
    · exact .bind (attempt_alert hread _) fun _ =>
        .throw ofBooks_true.stable fun _ _ _ => trivial
  · refine .bind (attempt_call rfl hread) fun t => ?_
    refine .bind (attempt_call rfl hread) fun now => ?_
    refine .bind (M := fun _ => HasFiled job w₀ t) ?_ fun _ => ?_
    · refine attempt_update hread (HasFiled.ofBooks t) fun w hw => ?_
      exact ⟨⟨_, World.get_setWithdrawal hw.1 _, rfl⟩, hw.2⟩
    · refine .bind (M := fun _ => HasFiled job w₀ t) ?_ fun _ =>
        .pure (HasFiled.ofBooks t).stable fun _ _ h => h
      exact attempt_update (HasFiled.ofBooks t) (HasFiled.ofBooks t) fun w hw => hw.update rfl

/-- The burn of the job is that of one order at most. -/
def OneOrder (job : ReleaseJob) (w₀ : World) : Prop :=
  ∀ id id' o o', w₀.buyOrders.get id = some o → w₀.buyOrders.get id' = some o' →
    o.burnTxHash = some job.baseBurnTxHash → o'.burnTxHash = some job.baseBurnTxHash → id = id'

/-- The link finds the order that waits, if there is one. -/
theorem link_delivers {w : World} {t : Txid} (hone : OneOrder job w₀)
    (horders : w.buyOrders = w₀.buyOrders) :
    Delivered job w₀ t { w with
      buyOrders := (w.buyOrders.update refusals.duplicate
        (fun o => o.awaitsRelease job.baseBurnTxHash) none
        { status := some .delivered, releaseFairTxId := some t }).2 } := by
  intro id o ho hawaits
  rw [horders]
  obtain ⟨hnone, _⟩ | ⟨_, _, _, _, hkey, _⟩ | ⟨d, hd, hfilter, _, _, hc⟩ :=
    w₀.buyOrders.update_cases refusals.duplicate
      (fun o => o.awaitsRelease job.baseBurnTxHash) none
      { status := some .delivered, releaseFairTxId := some t }
  · have hnot := pick_none hnone (Collection.get_mem ho)
    rw [hawaits] at hnot
    cases hnot
  · exact absurd rfl hkey
  · have hburn : ∀ e : BuyOrderDoc, e.awaitsRelease job.baseBurnTxHash = true →
        e.burnTxHash = some job.baseBurnTxHash := by
      intro e he
      simp only [BuyOrderDoc.awaitsRelease, Bool.and_eq_true, beq_iff_eq] at he
      exact he.1
    have hid := hone id _ o d ho hd (hburn o hawaits) (hburn d hfilter)
    subst hid
    rw [hc]
    have hget := World.get_setBuyOrder (w := w₀) hd
      { status := some .delivered, releaseFairTxId := some t }
    exact ⟨_, hget, rfl, rfl⟩

theorem attempt_link (hone : OneOrder job w₀) (t : Txid) :
    (attemptRules cfg job.withdrawalId linkFails).Performs ()
      (fun w => HasFiled job w₀ t w ∧ job.entry cfg t ∈ w.audit)
      (.buyOrder (.findOneAndUpdate (fun o => o.awaitsRelease job.baseBurnTxHash) none
        { status := some .delivered, releaseFairTxId := some t }))
      fun _ => Settles cfg linkFails job w₀ := by
  intro s out r w _ hs _ hmay hans
  refine ⟨w, rfl, trivial, trivial, Or.inl ⟨t, ?_⟩⟩
  obtain ⟨e, rfl, _, rfl⟩ | ⟨x, hx, _⟩ := answer_cases hans
  · refine ⟨hs.1.1, hs.2, ?_⟩
    intro hl
    simp only [service, releaseAttempts, hl, Outcome.isDone, Bool.or_false, Bool.and_false] at hmay
    cases hmay
  · cases hx
    exact ⟨hs.1.1, hs.2, fun _ => link_delivers hone hs.1.2⟩

theorem attempt_releaseClaimed (hone : OneOrder job w₀) (d : WithdrawalDoc) :
    (attemptRules cfg job.withdrawalId linkFails).Triple () (HasRead job w₀ d)
      (releaseClaimed cfg job d) (fun _ => Settles cfg linkFails job w₀) fun _ _ => True := by
  have hsettles : OfBooks (Settles cfg linkFails job w₀) := Settles.ofBooks
  refine .fact (fun _ _ h => Collection.get_id h.1) ?_
  intro hid
  have hid : d.id = job.withdrawalId := hid
  refine .bind (attempt_signNodeWallet d) fun t => ?_
  have hrecorded : OfBooks fun w => HasFiled job w₀ t w ∧ job.entry cfg t ∈ w.audit :=
    fun s w h hs => ⟨HasFiled.ofBooks t s w h hs.1, h.audit ▸ hs.2⟩
  refine .bind (M := fun _ w => HasFiled job w₀ t w ∧ job.entry cfg t ∈ w.audit) ?_ fun _ => ?_
  · rw [hid]
    refine .call (HasFiled.ofBooks t).stable (.of_rest fun _ _ _ => trivial) ?_
      (fun _ => hrecorded.stable) ofBooks_true.stable
    refine performs (fun s e _ _ _ _ => ⟨s, rfl, trivial, trivial, trivial⟩) ?_
    intro s x w out _ hs _ hx
    cases hx
    exact ⟨_, rfl, trivial, trivial, fun _ => ⟨hs, List.mem_append_right _ List.mem_cons_self⟩,
      fun _ _ _ => trivial⟩
  · refine .tryCatch (M := fun _ => Settles cfg linkFails job w₀) ?_ fun _ =>
      .pure hsettles.stable fun _ _ h => h
    refine .bind (M := fun _ => Settles cfg linkFails job w₀) ?_ fun _ =>
      .pure hsettles.stable fun _ _ h => h
    refine .call hrecorded.stable (.of_rest fun _ _ _ => trivial) ?_
      (fun _ => hsettles.stable) hsettles.stable
    exact (attempt_link hone t).post fun a _ _ h => by cases a <;> exact h

/-- The row that an attempt goes on with is the one it has read. -/
def HoldsSame (job : ReleaseJob) (w₀ : World) (e : WithdrawalDoc) (w : World) : Prop :=
  HasRead job w₀ e w ∧ e.status ≠ .broadcast

theorem HoldsSame.ofBooks (e : WithdrawalDoc) : OfBooks (HoldsSame job w₀ e) :=
  fun s t h hs => ⟨HasRead.ofBooks e s t h hs.1, hs.2⟩

theorem HoldsSame.settles {e : WithdrawalDoc} {w : World} (h : HoldsSame job w₀ e w) :
    Settles cfg linkFails job w₀ w := Or.inr ⟨e, h.1.1, h.2⟩

theorem attempt_claim (d : WithdrawalDoc) :
    (attemptRules cfg job.withdrawalId linkFails).Triple () (HoldsSame job w₀ d)
      (claimRelease job.withdrawalId) (Found (HoldsSame job w₀) (HoldsSame job w₀ d))
      fun _ _ => True := by
  refine .call (HoldsSame.ofBooks d).stable (.of_rest fun _ _ _ => trivial) ?_ ?_
    ofBooks_true.stable
  · refine Withdrawal.performs_claimRelease ?_ (fun _ _ h _ => h) fun _ _ _ => trivial
    intro s e _ _ hs he _ _
    have hrow := World.get_setWithdrawal he { status := some .signing }
    exact ⟨_, rfl, trivial, trivial, ⟨⟨hrow, hs.1.2⟩, fun h => by cases h⟩, trivial⟩
  · intro a
    cases a with
    | none => exact (HoldsSame.ofBooks d).stable
    | some e => exact (HoldsSame.ofBooks e).stable

theorem attempt_reread (d : WithdrawalDoc) :
    (attemptRules cfg job.withdrawalId linkFails).Triple () (HoldsSame job w₀ d)
      (Withdrawal.findById job.withdrawalId)
      (Found (HoldsSame job w₀) (Settles cfg linkFails job w₀)) fun _ _ => True := by
  refine .call (HoldsSame.ofBooks d).stable (.of_rest fun _ _ _ => trivial) ?_ ?_
    ofBooks_true.stable
  · refine Withdrawal.performs_findById ?_ fun _ _ _ => trivial
    intro s _ hs
    change Found _ _ (s.withdrawals.get job.withdrawalId) s
    rw [hs.1.1]
    exact hs
  · intro a
    cases a with
    | none => exact Settles.ofBooks.stable
    | some e => exact (HoldsSame.ofBooks e).stable

theorem attempt_claimOrReread (d : WithdrawalDoc) :
    (attemptRules cfg job.withdrawalId linkFails).Triple () (HoldsSame job w₀ d)
      (claimReleaseOrReread job.withdrawalId d)
      (Found (HoldsSame job w₀) (Settles cfg linkFails job w₀)) fun _ _ => True := by
  rw [claimReleaseOrReread]
  split
  · refine .bind (attempt_claim d) fun claimed => ?_
    cases claimed with
    | some e => exact .pure (HoldsSame.ofBooks e).stable fun _ _ h => h
    | none => exact attempt_reread d
  · exact .pure (HoldsSame.ofBooks d).stable fun _ _ h => h

theorem attempt_rejectInvalidAddress (d : WithdrawalDoc) :
    (attemptRules cfg job.withdrawalId linkFails).Triple () (HoldsSame job w₀ d)
      (rejectInvalidAddress job d) (fun _ => HoldsSame job w₀ d) fun _ _ => True := by
  have hheld : OfBooks (HoldsSame job w₀ d) := HoldsSame.ofBooks d
  rw [rejectInvalidAddress]
  split
  · refine .bind (attempt_call rfl hheld) fun valid => ?_
    split
    · exact .pure hheld.stable fun _ _ h => h
    · refine .bind (attempt_update (M := fun _ => True) hheld ofBooks_true fun _ _ => trivial)
        fun _ => ?_
      exact .throw ofBooks_true.stable fun _ _ _ => trivial
  · exact .pure hheld.stable fun _ _ h => h

/-- An attempt that reads a row that is not BROADCAST. -/
theorem attempt_signRelease (hone : OneOrder job w₀) {d : WithdrawalDoc}
    (hst : d.status ≠ .broadcast) :
    (attemptRules cfg job.withdrawalId linkFails).Triple () (HasRead job w₀ d)
      (signRelease cfg job) (fun _ => Settles cfg linkFails job w₀) fun _ _ => True := by
  have hread : OfBooks (HasRead job w₀ d) := HasRead.ofBooks d
  refine .bind (M := Found (HoldsSame job w₀) fun _ => False) ?_ fun initial => ?_
  · refine .call hread.stable (.of_rest fun _ _ _ => trivial) ?_ ?_ ofBooks_true.stable
    · refine Withdrawal.performs_findById ?_ fun _ _ _ => trivial
      intro s _ hs
      change Found _ _ (s.withdrawals.get job.withdrawalId) s
      rw [hs.1]
      exact ⟨hs, hst⟩
    · intro a
      cases a with
      | none => exact fun _ _ _ _ _ h => h
      | some e => exact (HoldsSame.ofBooks e).stable
  · cases initial with
    | none => exact .pure (fun _ _ _ _ _ h => h) fun _ _ h => False.elim h
    | some d =>
        have hheld : OfBooks (HoldsSame job w₀ d) := HoldsSame.ofBooks d
        simp only
        split
        · exact .pure hheld.stable fun _ _ h => h.settles
        · split
          · exact .throw hheld.stable fun _ _ _ => trivial
          · split
            · exact .throw hheld.stable fun _ _ _ => trivial
            · refine .bind (attempt_rejectInvalidAddress d) fun _ => ?_
              refine .bind (attempt_claimOrReread d) fun held => ?_
              cases held with
              | none => exact .pure Settles.ofBooks.stable fun _ _ h => h
              | some e =>
                  simp only
                  split
                  · exact (attempt_releaseClaimed hone e).pre fun _ _ h => h.1
                  · exact .pure (HoldsSame.ofBooks e).stable fun _ _ h => h.settles

end Attempt

/-- An attempt of a withdrawal's job, after whatever came before it, that does not find the
withdrawal BROADCAST and returns with it BROADCAST has filed the txid and recorded it, and
unless its link raised the order that waited for the release is delivered by it. -/
theorem release_attempt_completes (cfg : Config) (linkFails : Bool) {job : ReleaseJob}
    {p q : Pool Op JsError World Unit} {es : List (Event JsError Unit Task EnvEvent)}
    {d : WithdrawalDoc} (hd : p.world.withdrawals.get job.withdrawalId = some d)
    (hburn : job.baseBurnTxHash = d.baseBurnTxHash) (hst : d.status ≠ .broadcast)
    (hone : ∀ id id' o o', p.world.buyOrders.get id = some o →
      p.world.buyOrders.get id' = some o' → o.burnTxHash = some d.baseBurnTxHash →
      o'.burnTxHash = some d.baseBurnTxHash → id = id')
    (hq : (service cfg (releaseAttempts job.withdrawalId linkFails)).exec p
      (.start () (.signRelease job) :: es) = some q)
    (hes : ∀ e ∈ es, e.solo ()) (hreturned : (q.slot ()).returned = true)
    {e : WithdrawalDoc} (he : q.world.withdrawals.get job.withdrawalId = some e)
    (hbroadcast : e.status = .broadcast) :
    ∃ t, e.fairTxid = some t ∧
      .signRelease job.withdrawalId job.destinationFairAddress job.amountSats t
        cfg.fairHotWalletMode ∈ q.world.audit ∧
      (linkFails = false → ∀ id o, p.world.buyOrders.get id = some o →
        o.burnTxHash = some d.baseBurnTxHash → o.status = .burning ∨ o.status = .delivering →
        ∃ o', q.world.buyOrders.get id = some o' ∧ o'.status = .delivered ∧
          o'.releaseFairTxId = some t) := by
  obtain ⟨r, hr, hq⟩ := Option.bind_eq_some_iff.mp hq
  simp only [System.next] at hr
  split at hr <;> cases hr
  have hjoin : OneOrder job p.world := by
    rw [OneOrder, hburn]
    exact hone
  have hsafe : (attemptRules cfg job.withdrawalId linkFails).Safe ()
      (fun _ => Settles cfg linkFails job p.world) (fun _ _ => True)
      (Function.update p.slot () (signRelease cfg job) ()) p.world := by
    rw [Function.update_self]
    exact attempt_signRelease hjoin hst p.world trivial ⟨hd, rfl⟩
  obtain ⟨t, ht, _, hend⟩ := hsafe.solo (fun _ _ => trivial) rfl trivial hes hq
  have ht : t = q.world := ht
  subst ht
  have hsettles : Settles cfg linkFails job p.world q.world := by
    cases hslot : q.slot () with
    | pure _ =>
        rw [hslot] at hend
        exact hend _ ⟨rfl, rfl, rfl⟩ trivial
    | throw _ | await _ _ =>
        rw [hslot] at hreturned
        cases hreturned
  cases hsettles with
  | inr hother =>
      obtain ⟨e', he', hne⟩ := hother
      cases he.symm.trans he'
      exact absurd hbroadcast hne
  | inl hdone =>
      obtain ⟨x, hx⟩ := hdone
      obtain ⟨e', he', hfiled⟩ := hx.filed
      cases he.symm.trans he'
      refine ⟨x, hfiled, hx.recorded, ?_⟩
      intro hl id o ho hhash hstatus
      refine hx.delivered hl id o ho ?_
      simp only [BuyOrderDoc.awaitsRelease, hburn, hhash, beq_self_eq_true, Bool.true_and,
        Bool.or_eq_true, beq_iff_eq]
      exact hstatus

namespace Sample

/-- The attempt dies after its payment, with the txid filed. -/
def attemptFiled : List (Event JsError Unit Task EnvEvent) :=
  .start () (.signRelease burnedJob) :: List.replicate 6 (.step () .done) ++ [.kill ()]

/-- A whole attempt that finds the payment made. -/
def attemptResumed : List (Event JsError Unit Task EnvEvent) :=
  .start () (.signRelease burnedJob) :: List.replicate 5 (.step () .done)

/-- The attempt dies after its last update of the withdrawal. -/
def attemptBroadcast : List (Event JsError Unit Task EnvEvent) :=
  .start () (.signRelease burnedJob) :: List.replicate 7 (.step () .done) ++ [.kill ()]

/-- A whole attempt that finds the withdrawal BROADCAST. -/
def attemptSkipped : List (Event JsError Unit Task EnvEvent) :=
  [.start () (.signRelease burnedJob), .step () .done]

end Sample

theorem resumed_attempt_completes : ∃ p q,
    (service Sample.buyConfig (releaseAttempts 0 false)).exec (.init Sample.burnedWorld)
      Sample.attemptFiled = some p ∧
    (service Sample.buyConfig (releaseAttempts 0 false)).exec p Sample.attemptResumed = some q ∧
    ∃ e t, q.world.withdrawals.get 0 = some e ∧ e.fairTxid = some t ∧
      .signRelease 0 "fAddress" 10 t Sample.buyConfig.fairHotWalletMode ∈ q.world.audit ∧
      ∃ o, q.world.buyOrders.get 0 = some o ∧ o.status = .delivered ∧
        o.releaseFairTxId = some t := by
  have h : ((service Sample.buyConfig (releaseAttempts 0 false)).exec (.init Sample.burnedWorld)
      Sample.attemptFiled).map (fun p =>
        ((p.world.withdrawals.get 0).map (fun d => (d.status, d.baseBurnTxHash)),
          p.world.buyOrders.docs, ((service Sample.buyConfig (releaseAttempts 0 false)).exec p
            Sample.attemptResumed).map fun q => ((q.slot ()).returned,
              (q.world.withdrawals.get 0).map WithdrawalDoc.status))) =
      some (some (.signing, Sample.burnedJob.baseBurnTxHash), Sample.burnedWorld.buyOrders.docs,
        some (true, some .broadcast)) := by
    decide +kernel
  obtain ⟨p, hp, hres⟩ := Option.map_eq_some_iff.mp h
  simp only [Prod.mk.injEq] at hres
  obtain ⟨hrow, hdocs, hq⟩ := hres
  obtain ⟨d, hd, hrow⟩ := Option.map_eq_some_iff.mp hrow
  obtain ⟨hst, hburn⟩ := Prod.mk.inj hrow
  obtain ⟨q, hq, hres⟩ := Option.map_eq_some_iff.mp hq
  obtain ⟨hreturned, hrow⟩ := Prod.mk.inj hres
  obtain ⟨e, he, hbroadcast⟩ := Option.map_eq_some_iff.mp hrow
  have hone : ∀ id o, p.world.buyOrders.get id = some o → id = 0 := by
    intro id o ho
    have hmem := Collection.get_mem ho
    rw [hdocs] at hmem
    obtain rfl := List.mem_singleton.mp hmem
    exact (Collection.get_id ho).symm
  have horder : ∃ o, p.world.buyOrders.get 0 = some o ∧ o.burnTxHash = some d.baseBurnTxHash ∧
      o.status = .burning := by
    simp only [Collection.get, hdocs, hburn]
    exact ⟨_, rfl, rfl, rfl⟩
  obtain ⟨o, ho, hhash, hburning⟩ := horder
  obtain ⟨t, ht, haudit, hdelivered⟩ := @release_attempt_completes Sample.buyConfig false
    Sample.burnedJob p q _ d hd hburn.symm (by rw [hst]; decide)
    (fun id id' o o' ho ho' _ _ => (hone id o ho).trans (hone id' o' ho').symm) hq
    (fun e he => List.eq_of_mem_replicate he ▸ rfl) hreturned e he hbroadcast
  exact ⟨p, q, hp, hq, e, t, he, ht, haudit, hdelivered rfl 0 o ho hhash (.inl hburning)⟩

/-- An attempt that dies between the status and the audit row leaves the later ones
nothing to do: they find the withdrawal BROADCAST. -/
theorem skipped_attempt_completes_nothing : ∃ p q,
    (service Sample.buyConfig (releaseAttempts 0 false)).exec (.init Sample.burnedWorld)
      Sample.attemptBroadcast = some p ∧
    (service Sample.buyConfig (releaseAttempts 0 false)).exec p Sample.attemptSkipped = some q ∧
    (q.slot ()).returned = true ∧
    (q.world.withdrawals.get 0).map WithdrawalDoc.status = some .broadcast ∧
    q.world.audit.isEmpty = true ∧
    (q.world.buyOrders.get 0).map (fun o => o.awaitsRelease Sample.burnedJob.baseBurnTxHash) =
      some true := by
  have h : ((service Sample.buyConfig (releaseAttempts 0 false)).exec (.init Sample.burnedWorld)
      Sample.attemptBroadcast).bind (fun p =>
        ((service Sample.buyConfig (releaseAttempts 0 false)).exec p Sample.attemptSkipped).map
          fun q => ((q.slot ()).returned,
            (q.world.withdrawals.get 0).map WithdrawalDoc.status, q.world.audit.isEmpty,
            (q.world.buyOrders.get 0).map fun o =>
              o.awaitsRelease Sample.burnedJob.baseBurnTxHash)) =
      some (true, some .broadcast, true, some true) := by
    decide +kernel
  obtain ⟨p, hp, h⟩ := Option.bind_eq_some_iff.mp h
  obtain ⟨q, hq, hres⟩ := Option.map_eq_some_iff.mp h
  simp only [Prod.mk.injEq] at hres
  exact ⟨p, q, hp, hq, hres⟩

end FairBridge

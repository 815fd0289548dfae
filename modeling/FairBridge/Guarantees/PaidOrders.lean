import FairBridge.Async.History
import FairBridge.Model.Frame
import FairBridge.Worker.PaymentOutline

/-!
What expires an order. A tick of the watcher expires by the clock alone, before it reads any
balance; an order that has been paid is safe once a tick has read what its address holds.
-/

namespace FairBridge
open Store Async Async.Rules

def Op.readsBalance {β : Type} : Op β → Bool
  | .usdcBalance _ => true
  | _ => false

/-- The watcher alone. Reads of balances may fail, and orders are quoted, paid and
delivered meanwhile. -/
def expiryRuns : Faults Unit where
  ready _ _ t := match t with
    | .startBuyWatcher _ => true
    | _ => false
  may _ op out _ := out.isDone || op.readsBalance
  mayKill _ _ _ := false
  row _ := none
  env e _ := match e with
    | .order _ status => status == .delivered
    | _ => true

/-- The request expires the order. -/
def Op.expires (id : ObjectId) {β : Type} (op : Op β) (w : World) : Bool :=
  match op with
  | .buyOrderUpdateMany filter u =>
      u.status == some .expired && (w.buyOrders.get id).any filter
  | _ => false

/-- The request reads the balance of the order's address, which holds what was asked for. -/
def Op.findsPayment (id : ObjectId) {β : Type} (op : Op β) (w : World) : Bool :=
  match op with
  | .usdcBalance owner => (w.buyOrders.get id).any fun o =>
      o.paymentAddress == some owner && o.paymentAmount ≤ w.base.tokens.usdc owner
  | _ => false

/-- The request that is performed does not expire the order. -/
def sparesOrder {ι : Type} (id : ObjectId) {β : Type} (p : Pool Op JsError World ι) (_ : ι)
    (op : Op β) : Prop :=
  op.expires id p.world = false

instance {ι : Type} (id : ObjectId) {β : Type} (p : Pool Op JsError World ι) (i : ι)
    (op : Op β) : Decidable (sparesOrder id p i op) :=
  inferInstanceAs (Decidable (_ = false))

/-- The event answers a read of the order's address while it holds what was asked for. -/
def findsPayment {ι : Type} (id : ObjectId) (p : Pool Op JsError World ι) :
    Event JsError ι Task EnvEvent → Bool
  | .step i .done => match p.slot i with
      | .await op _ => op.findsPayment id p.world
      | _ => false
  | _ => false

/-- No two orders have one payment address. -/
def World.OwnAddresses (w : World) : Prop :=
  ∀ i j o e, w.buyOrders.get i = some o → w.buyOrders.get j = some e →
    o.paymentAddress.isSome = true → o.paymentAddress = e.paymentAddress → i = j

/-- The order is there and is not EXPIRED. -/
def World.Unexpired (w : World) (id : ObjectId) : Prop :=
  ∃ o, w.buyOrders.get id = some o ∧ o.status ≠ .expired

/-- How far the watcher has come with the order: it is not observed yet, it is observed, its
payment has just been found, or it has been claimed. -/
inductive Pursuit where
  | off
  | watched
  | found
  | claimed
  deriving DecidableEq

/-- The payment is claimed with the request that follows the read. -/
def Pursuit.note (id : ObjectId) {β : Type} (op : Op β) (out : Outcome) (w : World) :
    Pursuit → Pursuit
  | .off => .off
  | .watched => if out.isDone && op.findsPayment id w then .found else .watched
  | .found | .claimed => .claimed

/-- What the watcher may count on: the orders keep their terms, and no two have one address. -/
structure TermsKept (w w' : World) : Prop where
  terms : ∀ i o, w.buyOrders.get i = some o → ∃ o', w'.buyOrders.get i = some o' ∧
    o'.paymentAddress = o.paymentAddress ∧ o'.paymentAmount = o.paymentAmount
  own : w.OwnAddresses → w'.OwnAddresses

/-- What holds of the order and the record at any time. -/
structure PursuitInv (id : ObjectId) (s : World × Pursuit) : Prop where
  own : s.1.OwnAddresses
  order : s.2 ≠ .off → s.1.Unexpired id
  claimed : s.2 = .claimed → ∀ o, s.1.buyOrders.get id = some o → o.status ≠ .awaitingPayment

variable {id : ObjectId} {w w' : World}

theorem TermsKept.refl (w : World) : TermsKept w w := ⟨fun _ o h => ⟨o, h, rfl, rfl⟩, fun h => h⟩

theorem TermsKept.trans {w₁ w₂ w₃ : World} (h : TermsKept w₁ w₂) (h' : TermsKept w₂ w₃) :
    TermsKept w₁ w₃ where
  terms i o ho := by
    obtain ⟨o', ho', haddr, hamount⟩ := h.terms i o ho
    obtain ⟨o'', ho'', haddr', hamount'⟩ := h'.terms i o' ho'
    exact ⟨o'', ho'', haddr'.trans haddr, hamount'.trans hamount⟩
  own hw := h'.own (h.own hw)

/-- The rows change one by one, and their terms do not. -/
theorem TermsKept.of_rows {f : ObjectId → BuyOrderDoc → BuyOrderDoc}
    (hrows : ∀ i, w'.buyOrders.get i = (w.buyOrders.get i).map (f i))
    (hterms : ∀ i o, (f i o).paymentAddress = o.paymentAddress ∧
      (f i o).paymentAmount = o.paymentAmount) : TermsKept w w' where
  terms i o ho := ⟨f i o, by rw [hrows, ho]; rfl, hterms i o⟩
  own hown i j o e ho he hsome haddr := by
    rw [hrows] at ho he
    obtain ⟨o₀, ho₀, rfl⟩ := Option.map_eq_some_iff.mp ho
    obtain ⟨e₀, he₀, rfl⟩ := Option.map_eq_some_iff.mp he
    rw [(hterms i o₀).1] at hsome haddr
    rw [(hterms j e₀).1] at haddr
    exact hown i j o₀ e₀ ho₀ he₀ hsome haddr

theorem TermsKept.of_same (h : w'.buyOrders = w.buyOrders) : TermsKept w w' where
  terms i o ho := ⟨o, h ▸ ho, rfl, rfl⟩
  own hw := by simpa only [World.OwnAddresses, h] using hw

theorem TermsKept.of_update (filter : BuyOrderDoc → Bool) (u : BuyOrderSet) :
    TermsKept w { w with buyOrders := w.buyOrders.modifyAll filter u } := by
  refine .of_rows (fun i => Collection.get_modifyAll w.buyOrders filter u i) fun i o => ?_
  split <;> exact ⟨rfl, rfl⟩

theorem TermsKept.of_set (i : ObjectId) (u : BuyOrderSet) : TermsKept w (w.setBuyOrder i u) := by
  refine .of_rows (f := fun j o => if j = i then u.apply o else o) (fun j => ?_) fun j o => ?_
  · rw [World.setBuyOrder, Collection.get_modify]
    split
    · rename_i hj
      rw [hj]
      rfl
    · simp
  · split <;> exact ⟨rfl, rfl⟩

theorem PursuitInv.of_same {h : Pursuit} (hi : PursuitInv id (w, h))
    (hw : w'.buyOrders = w.buyOrders) : PursuitInv id (w', h) where
  own := (TermsKept.of_same hw).own hi.own
  order hon := by simpa only [World.Unexpired, hw] using hi.order hon
  claimed hc := by simpa only [hw] using hi.claimed hc

/-- The order itself is at most taken on to a status that is neither open nor EXPIRED. -/
theorem PursuitInv.of_row {h : Pursuit} (hi : PursuitInv id (w, h)) (hterms : TermsKept w w')
    (hrow : ∀ o, w.buyOrders.get id = some o → ∃ o', w'.buyOrders.get id = some o' ∧
      (o'.status = o.status ∨ o'.status ≠ .awaitingPayment ∧ o'.status ≠ .expired))
    (hnew : w.buyOrders.get id = none → h = .off) : PursuitInv id (w', h) where
  own := hterms.own hi.own
  order hon := by
    obtain ⟨o, ho, hst⟩ := hi.order hon
    obtain ⟨o', ho', hsame | ⟨_, hst'⟩⟩ := hrow o ho
    · exact ⟨o', ho', hsame ▸ hst⟩
    · exact ⟨o', ho', hst'⟩
  claimed hc := by
    intro o' ho'
    cases ho : w.buyOrders.get id with
    | none =>
        cases hc.symm.trans (hnew ho)
    | some o =>
        obtain ⟨e, he, hst⟩ := hrow o ho
        obtain rfl := Option.some.inj (he.symm.trans ho')
        cases hst with
        | inl hsame => exact hsame ▸ hi.claimed hc o ho
        | inr hst => exact hst.1

theorem PursuitInv.exists {h : Pursuit} (hi : PursuitInv id (w, h))
    (hnone : w.buyOrders.get id = none) : h = .off := by
  by_contra hon
  obtain ⟨o, ho, _⟩ := hi.order hon
  cases hnone.symm.trans ho

/-- What happens around the watcher brings new orders, with addresses of their own, and
delivers old ones. -/
theorem EnvEvent.occur_terms {e : EnvEvent} (h : e.occur w = some w')
    (hdelivers : ∀ i st, e = .order i st → st = .delivered) :
    TermsKept w w' ∧ ∀ o, w.buyOrders.get id = some o → ∃ o', w'.buyOrders.get id = some o' ∧
      (o'.status = o.status ∨ o'.status ≠ .awaitingPayment ∧ o'.status ≠ .expired) := by
  have same (hw : w'.buyOrders = w.buyOrders) : TermsKept w w' ∧
      ∀ o, w.buyOrders.get id = some o → ∃ o', w'.buyOrders.get id = some o' ∧
        (o'.status = o.status ∨ o'.status ≠ .awaitingPayment ∧ o'.status ≠ .expired) :=
    ⟨.of_same hw, fun o ho => ⟨o, hw ▸ ho, Or.inl rfl⟩⟩
  cases e with
  | wait _ | transactionKnown _ _ | credit _ | masternodes _ | abort | restart
  | serveFirst _ | market _ =>
      cases h
      exact same rfl
  | mine _ _ | foreignReceipt _ _ | baseBlock _ | fairBlock _ | confirm _ | intent _ _ _ _ =>
      simp only [EnvEvent.occur] at h
      split at h <;> cases h
      exact same rfl
  | order moved status =>
      obtain rfl := hdelivers moved status rfl
      simp only [EnvEvent.occur] at h
      split at h <;> cases h
      refine ⟨.of_set moved _, ?_⟩
      intro o ho
      rw [Collection.get_modify]
      split
      · rename_i hid
        rw [← hid, ho]
        exact ⟨_, rfl, Or.inr ⟨by simp [buyOrderSchema, BuyOrderSet.apply],
          by simp [buyOrderSchema, BuyOrderSet.apply]⟩⟩
      · exact ⟨o, ho, Or.inl rfl⟩
  | quote n =>
      simp only [EnvEvent.occur] at h
      split at h <;> cases h
      rename_i hquote
      obtain ⟨_, _, _, haddress, hown⟩ := hquote
      have hold : ∀ i o, w.buyOrders.get i = some o →
          (w.buyOrders.insert w.now n).get i = some o := by
        intro i o ho
        rw [Collection.get_insert, if_neg (Nat.ne_of_lt (Collection.get_lt ho)), ho]
      refine ⟨⟨fun i o ho => ⟨o, hold i o ho, rfl, rfl⟩, ?_⟩,
        fun o ho => ⟨o, hold id o ho, Or.inl rfl⟩⟩
      have hnew : ∀ i o, w.buyOrders.get i = some o → o.paymentAddress ≠ n.paymentAddress := by
        intro i o ho
        simpa using List.all_eq_true.mp hown o (Collection.get_mem ho)
      intro hw i j o e ho he hsome haddr
      rw [Collection.get_insert] at ho he
      split at ho <;> split at he
      · rename_i hi hj
        exact hi.trans hj.symm
      · cases ho
        exact absurd haddr.symm (hnew j e he)
      · cases he
        exact absurd haddr (hnew i o ho)
      · exact hw i j o e ho he hsome haddr

/-- The service, with the record. -/
def pursued (cfg : Config) (id : ObjectId) : System Op JsError (World × Pursuit) Unit Task EnvEvent :=
  (service cfg expiryRuns).recorded fun op out w h => Pursuit.note id op out w h

theorem Pursuit.note_off {β : Type} {op : Op β} {out : Outcome} {h : Pursuit} :
    Pursuit.note id op out w h = .off ↔ h = .off := by
  cases h with
  | off | found | claimed => simp [note]
  | watched =>
      simp only [note]
      split <;> simp

def pursuitRules (cfg : Config) (id : ObjectId) :
    Rules (pursued cfg id) (World × Pursuit) where
  world s := s
  inv := PursuitInv id
  rely _ s t := TermsKept s.1 t.1 ∧ (s.2 ≠ .found → t.2 ≠ .found)
  guar _ s t := t.2 = .off ↔ s.2 = .off
  rest _ s := s.2 ≠ .found
  hist s t := t.2 = .off ↔ s.2 = .off
  rely_refl _ s := ⟨.refl s.1, fun h => h⟩
  rely_trans h h' := ⟨h.1.trans h'.1, fun hs => h'.2 (h.2 hs)⟩
  guar_refl _ _ := Iff.rfl
  guar_rely hij _ _ _ := absurd rfl hij
  rest_stable _ _ h hs := h.2 hs
  hist_refl _ := Iff.rfl
  hist_trans h h' := h'.trans h
  guar_hist _ _ h := h
  env_step {e s w} hi he := by
    obtain ⟨v, hv, rfl⟩ := Option.map_eq_some_iff.mp he
    obtain ⟨hmay, hv⟩ := service_env hv
    obtain ⟨hterms, hrow⟩ := EnvEvent.occur_terms hv fun i st he => by
      subst he
      simpa [expiryRuns] using hmay
    exact ⟨(v, s.2), rfl, hi.of_row hterms hrow hi.exists, Iff.rfl,
      fun _ => ⟨hterms, fun h => h⟩⟩
  permits _ op s := s.2 = .watched → op.expires id s.1 = false

section Outline
variable {cfg : Config} {β : Type} {op : Op β} {out : Outcome} {h : Pursuit}
  {P : World × Pursuit → Prop} {M : Except JsError β → World × Pursuit → Prop}

theorem Pursuit.note_found (hn : Pursuit.note id op out w h = .found) :
    out.isDone = true ∧ op.findsPayment id w = true := by
  cases h with
  | off | found | claimed => cases hn
  | watched =>
      simp only [note] at hn
      split at hn
      · rename_i hfinds
        simpa using hfinds
      · cases hn

theorem Pursuit.note_watched (hn : Pursuit.note id op out w h = .watched) :
    h = .watched ∧ (out.isDone && op.findsPayment id w) = false := by
  cases h with
  | off | found | claimed => cases hn
  | watched =>
      simp only [note] at hn
      split at hn
      · cases hn
      · rename_i hmissed
        exact ⟨rfl, Bool.eq_false_iff.mpr hmissed⟩

theorem Op.findsPayment_spares (hop : op.findsPayment id w = true) :
    op.expires id w = false := by
  cases op with
  | usdcBalance _ => rfl
  | _ => cases hop

theorem PursuitInv.note (hi : PursuitInv id (w', h))
    (hfound : h = .found → ∀ o, w'.buyOrders.get id = some o → o.status ≠ .awaitingPayment) :
    PursuitInv id (w', Pursuit.note id op out w h) where
  own := hi.own
  order hon := hi.order (mt Pursuit.note_off.mpr hon)
  claimed hc := by
    cases hh : h with
    | off => rw [hh] at hc; cases hc
    | watched =>
        rw [hh] at hc
        simp only [Pursuit.note] at hc
        split at hc <;> cases hc
    | found => exact hfound hh
    | claimed => exact hi.claimed hh

theorem pursuit_performs (h : ∀ s out r w, PursuitInv id s → P s →
      (s.2 = .watched → op.expires id s.1 = false) →
      (out.isDone = true ∨ op.readsBalance = true) → answer none op out s.1 = some (r, w) →
      PursuitInv id (w, s.2) ∧
        (s.2 = .found → ∀ o, w.buyOrders.get id = some o → o.status ≠ .awaitingPayment) ∧
        M r (w, Pursuit.note id op out s.1 s.2)) :
    (pursuitRules cfg id).Performs () P op M := by
  intro s out r t hi hs hperm hmay hans
  obtain ⟨⟨x, w⟩, hw, rfl, rfl⟩ := Option.map_eq_some_iff.mp hans
  simp only [pursued, System.recorded, service, expiryRuns, Bool.and_eq_true,
    Bool.or_eq_true] at hmay
  obtain ⟨hinv, hfound, hM⟩ := h s out x w hi hs hperm hmay.2 hw
  exact ⟨_, rfl, hinv.note hfound, Pursuit.note_off, hM⟩

/-- Only reads of balances fail. -/
theorem served (hop : op.readsBalance = false)
    (hmay : out.isDone = true ∨ op.readsBalance = true) : out = .done := by
  cases out with
  | done => rfl
  | fail _ | lost _ => simp [Outcome.isDone, hop] at hmay

/-- A request that leaves the orders alone and reads no balance. -/
theorem pursuit_beside (hop : op.readsBalance = false) (hpart : op.part ≠ .buyOrders)
    (hP : ∀ s, P s → s.2 ≠ .found)
    (hM : ∀ s r w h, P s → w.buyOrders = s.1.buyOrders → h ≠ .found → M r (w, h)) :
    (pursuitRules cfg id).Performs () P op M := by
  refine pursuit_performs fun s out r w hi hs _ hmay hans => ?_
  have hsame := (answer_frame hans).buyOrders hpart
  have hquiet : op.findsPayment id s.1 = false := by
    cases op with
    | usdcBalance _ => cases hop
    | _ => rfl
  obtain rfl := served hop hmay
  refine ⟨hi.of_same hsame, fun hf => absurd hf (hP s hs), ?_⟩
  refine hM s r w _ hs hsame ?_
  intro hf
  cases hquiet.symm.trans (Pursuit.note_found hf).2

/-- The orders that a tick has listed are still there on the same terms. -/
def Listed (os : List BuyOrderDoc) (w : World) : Prop :=
  ∀ o ∈ os, ∃ e, w.buyOrders.get o.id = some e ∧ e.paymentAddress = o.paymentAddress ∧
    e.paymentAmount = o.paymentAmount

theorem Listed.kept {os : List BuyOrderDoc} (hl : Listed os w) (h : TermsKept w w') :
    Listed os w' := by
  intro o ho
  obtain ⟨e, he, haddr, hamount⟩ := hl o ho
  obtain ⟨e', he', haddr', hamount'⟩ := h.terms o.id e he
  exact ⟨e', he', haddr'.trans haddr, hamount'.trans hamount⟩

theorem Listed.tail {o : BuyOrderDoc} {os : List BuyOrderDoc} (hl : Listed (o :: os) w) :
    Listed os w := fun e he => hl e (List.mem_cons_of_mem o he)

/-- A read that finds the payment finds it for the order that is looked at. -/
theorem pursuit_balance (o : BuyOrderDoc) (os : List BuyOrderDoc) {a : Address}
    (ha : o.paymentAddress = some a) :
    (pursuitRules cfg id).Performs () (fun s => s.2 ≠ .found ∧ Listed (o :: os) s.1)
      (.usdcBalance a)
      (Answered (fun b s => Listed os s.1 ∧ (s.2 = .found → o.id = id ∧ o.paymentAmount ≤ b))
        fun s => s.2 ≠ .found ∧ Listed os s.1) := by
  refine pursuit_performs fun s out r w hi hs _ _ hans => ?_
  obtain ⟨hquiet, hl⟩ := hs
  obtain ⟨e, rfl, rfl, rfl⟩ | ⟨x, hx, hout⟩ := answer_cases hans
  · refine ⟨hi, fun hf => absurd hf hquiet, ?_, hl.tail⟩
    intro hf
    cases (Pursuit.note_found hf).1
  · cases hx
    refine ⟨hi, fun hf => absurd hf hquiet, ?_⟩
    obtain ⟨_, rfl⟩ | ⟨_, rfl, rfl⟩ := hout
    · refine ⟨hl.tail, fun hf => ?_⟩
      have hfinds := (Pursuit.note_found hf).2
      simp only [Op.findsPayment] at hfinds
      obtain ⟨e, he, hpaid⟩ := (Option.any_eq_true _ _).mp hfinds
      simp only [Bool.and_eq_true, beq_iff_eq, decide_eq_true_eq] at hpaid
      obtain ⟨e', he', haddr, hamount⟩ := hl o List.mem_cons_self
      have hid : o.id = id := by
        refine hi.own o.id id e' e he' he ?_ ?_
        · rw [haddr, ha]
          rfl
        · rw [haddr, ha, hpaid.1]
      rw [hid, he] at he'
      cases he'
      exact ⟨hid, hamount ▸ hpaid.2⟩
    · refine ⟨?_, hl.tail⟩
      intro hf
      cases (Pursuit.note_found hf).1

theorem pursuit_claim (o : BuyOrderDoc) (os : List BuyOrderDoc) (b : Int) :
    (pursuitRules cfg id).Performs ()
      (fun s => Listed os s.1 ∧ (s.2 = .found → o.id = id ∧ o.paymentAmount ≤ b))
      (.buyOrder (.findOneAndUpdate (fun e => e.id == o.id && payable e) none (detected b)))
      (Answered (Found (fun _ s => s.2 ≠ .found ∧ Listed os s.1)
        fun s => s.2 ≠ .found ∧ Listed os s.1) fun s => s.2 ≠ .found) := by
  refine pursuit_performs fun s out r w hi hs _ hmay hans => ?_
  obtain ⟨hl, hfound⟩ := hs
  obtain rfl := served rfl hmay
  have hquiet : Pursuit.note id (.buyOrder (.findOneAndUpdate (fun e => e.id == o.id && payable e)
      none (detected b)) : Op (Option BuyOrderDoc)) .done s.1 s.2 ≠ .found := by
    intro hf
    cases (Pursuit.note_found hf).2
  have heff := (BuyOrder.effect_claim none o.id payable (detected b) s.1).symm.trans hans
  cases ho : (s.1.buyOrders.get o.id).filter payable with
  | none =>
      rw [ho] at heff
      cases heff
      refine ⟨hi, ?_, hquiet, hl⟩
      intro hf e he hst
      rw [(hfound hf).1, he] at ho
      simp [Option.filter, payable, hst] at ho
  | some d =>
      rw [ho] at heff
      cases heff
      have hd := (Option.filter_eq_some_iff.mp ho).1
      have hterms : TermsKept s.1 (s.1.setBuyOrder o.id (detected b)) := .of_set o.id (detected b)
      refine ⟨hi.of_row hterms ?_ hi.exists, ?_, hquiet, hl.kept hterms⟩
      · intro e he
        by_cases hid : id = o.id
        · subst hid
          exact ⟨_, World.get_setBuyOrder he _, Or.inr ⟨by simp [BuyOrderSet.apply, detected],
            by simp [BuyOrderSet.apply, detected]⟩⟩
        · exact ⟨e, (Collection.get_modify_other _ _ hid).trans he, Or.inl rfl⟩
      · intro hf e he
        rw [← (hfound hf).1, World.get_setBuyOrder hd] at he
        cases he
        simp [BuyOrderSet.apply, detected]

/-- Once the order is claimed or while no expiry reaches it, an expiry passes it by. -/
theorem pursuit_expire (now : Nat) :
    (pursuitRules cfg id).Performs () (fun s => s.2 ≠ .found)
      (.buyOrderUpdateMany (staleOrder now) { status := some .expired })
      (Answered (fun _ s => s.2 ≠ .found) fun s => s.2 ≠ .found) := by
  refine pursuit_performs fun s out r w hi hs hspares hmay hans => ?_
  obtain rfl := served rfl hmay
  cases hans
  have hterms := TermsKept.of_update (w := s.1) (staleOrder now) { status := some .expired }
  refine ⟨?_, fun hf => absurd hf hs, ?_⟩
  · by_cases hoff : s.2 = .off
    · rw [hoff]
      exact ⟨hterms.own hi.own, fun hon => absurd rfl hon, fun hc => by cases hc⟩
    · refine hi.of_row hterms (fun o ho => ⟨o, ?_, Or.inl rfl⟩) hi.exists
      have hpasses : staleOrder now o = false := by
        cases hh : s.2 with
        | off => exact absurd hh hoff
        | found => exact absurd hh hs
        | watched => simpa [Op.expires, ho] using hspares hh
        | claimed => simp [staleOrder, hi.claimed hh o ho]
      simp [Collection.get_modifyAll, recordCall, ho, hpasses]
  · intro hf
    cases (Pursuit.note_found hf).2

theorem pursuit_find (filter : BuyOrderDoc → Bool) (limit : Option Nat) :
    (pursuitRules cfg id).Performs () (fun s => s.2 ≠ .found)
      (.buyOrder (.find filter limit))
      (Answered (fun os s => s.2 ≠ .found ∧ Listed os s.1) fun s => s.2 ≠ .found) := by
  refine pursuit_performs fun s out r w hi hs _ hmay hans => ?_
  obtain rfl := served rfl hmay
  have hquiet : Pursuit.note id (.buyOrder (.find filter limit) : Op (List BuyOrderDoc)) .done
      s.1 s.2 ≠ .found := by
    intro hf
    cases (Pursuit.note_found hf).2
  have hlisted : ∀ os : List BuyOrderDoc, (∀ o ∈ os, o ∈ s.1.buyOrders.docs) → Listed os s.1 :=
    fun os hos o ho => ⟨o, Collection.get_of_mem (hos o ho), rfl, rfl⟩
  cases limit with
  | none =>
      cases hans
      exact ⟨hi, fun hf => absurd hf hs, hquiet, hlisted _ fun o ho => (List.mem_filter.mp ho).1⟩
  | some n =>
      cases hans
      exact ⟨hi, fun hf => absurd hf hs, hquiet,
        hlisted _ fun o ho => (List.mem_filter.mp (List.mem_of_mem_take ho)).1⟩

def pursuitOutline : PaymentOutline (pursuitRules cfg id) () where
  base s := s.2 ≠ .found
  listed os s := s.2 ≠ .found ∧ Listed os s.1
  read o os b s := Listed os s.1 ∧ (s.2 = .found → o.id = id ∧ o.paymentAmount ≤ b)
  claimed _ os s := s.2 ≠ .found ∧ Listed os s.1
  base_stable _ _ _ _ h := h.2
  listed_stable _ _ _ _ _ h hs := ⟨h.2 hs.1, hs.2.kept h.1⟩
  read_stable _ _ _ _ _ _ _ h hs :=
    ⟨hs.1.kept h.1, fun hf => hs.2 (Classical.byContradiction fun hn => h.2 hn hf)⟩
  claimed_stable _ _ _ _ _ _ h hs := ⟨h.2 hs.1, hs.2.kept h.1⟩
  base_rest _ _ h := h
  listed_base _ _ _ h := h.1
  read_settled _ _ _ _ _ _ hkill := by cases hkill
  claimed_settled _ _ := .of_rest fun _ _ h => h.1
  aborted := pursuit_beside rfl (by decide) (fun _ h => h) fun _ r _ _ _ _ hh => by
    cases r <;> exact hh
  clock := pursuit_beside rfl (by decide) (fun _ h => h) fun _ r _ _ _ _ hh => by
    cases r <;> exact hh
  expire := pursuit_expire
  find now := pursuit_find (awaitingOrder now) (some maxOrdersPerTick)
  skip _ _ _ _ h := ⟨h.1, h.2.tail⟩
  balance := pursuit_balance
  short _ _ _ _ _ hb hs :=
    ⟨fun hf => absurd (hs.2 hf).2 (by omega), hs.1⟩
  claim o os b _ := pursuit_claim o os b
  enqueue _ _ := pursuit_beside rfl (fun h => by cases h) (fun _ h => h.1) fun s r w _ hs hw hh => by
    cases r with
    | ok _ => exact ⟨hh, hs.2.kept (.of_same hw)⟩
    | error _ => exact hh

end Outline

section Runs
variable {cfg : Config} {p q : Pool Op JsError World Unit}
  {es : List (Event JsError Unit Task EnvEvent)}

theorem pursuit_starts : (pursuitRules cfg id).Starts := by
  intro i t s hs hrest hready
  cases t with
  | startBuyWatcher rounds => exact pursuitOutline.startBuyWatcher rounds s hs hrest
  | _ => cases hready

/-- Whatever happens while the order is not observed. -/
theorem pursuit_reaches {w : World} (hw : w.OwnAddresses)
    (hp : (service cfg expiryRuns).exec (.init w) es = some p) :
    (pursuitRules cfg id).Good (p.withRecord .off) (p.world, .off) := by
  obtain ⟨h, hp⟩ := System.exec_recorded (fun op out w h => Pursuit.note id op out w h) hp
    Pursuit.off
  have hinit : (pursuitRules cfg id).Good ((Pool.init w).withRecord .off) (w, .off) :=
    ⟨rfl, ⟨hw, fun hon => absurd rfl hon, fun hc => by cases hc⟩,
      fun _ _ ht _ => ht.2 fun h => by cases h⟩
  have hoff := System.exec_induction (pursued cfg id)
    (P := fun p => (pursuitRules cfg id).Good p p.world ∧ p.world.2 = .off) ?_
    ⟨hinit, rfl⟩ hp
  · obtain ⟨hgood, hoff⟩ := hoff
    obtain rfl : h = .off := hoff
    exact hgood
  · intro p e q hgood hq
    obtain ⟨hgood, hoff⟩ := hgood
    have hperm : (pursuitRules cfg id).Permitted p p.world e := by
      cases e with
      | start _ _ | kill _ | env _ => trivial
      | step i out =>
          simp only [Rules.Permitted]
          cases p.slot i with
          | pure _ | throw _ => trivial
          | await op k =>
              intro hon
              cases hoff.symm.trans hon
    obtain ⟨t, ht, hhist⟩ := hgood.next pursuit_starts hperm hq
    obtain rfl : t = q.world := ht.world
    exact ⟨ht, hhist.mpr hoff⟩

theorem pursuit_kept {w : World} (hw : w.OwnAddresses)
    (hp : (service cfg expiryRuns).exec (.init w) es = some p) (hopen : p.world.Unexpired id)
    {es' : List (Event JsError Unit Task EnvEvent)}
    (hq : (service cfg expiryRuns).exec p es' = some q)
    (hes : (service cfg expiryRuns).Until (fun p e => findsPayment id p e = true)
      (sparesOrder id) p es') : q.world.Unexpired id := by
  have hoff : (pursuitRules cfg id).Good (p.withRecord .off) (p.world, .off) :=
    pursuit_reaches hw hp
  have hon : (pursuitRules cfg id).Good (p.withRecord .watched) (p.world, .watched) :=
    ⟨rfl, ⟨hoff.inv.own, fun _ => hopen, fun hc => by cases hc⟩, fun i =>
      (hoff.slots i).later ⟨.refl p.world, fun _ h => by cases h⟩⟩
  obtain ⟨h, hq'⟩ := System.exec_recorded (fun op out w h => Pursuit.note id op out w h) hq
    Pursuit.watched
  have halong := System.Until.along (fun op out w h => Pursuit.note id op out w h)
    (fun h => h = .watched) (h := Pursuit.watched) ?_ ?_ hq fun _ => hes
  · obtain ⟨t, ht, hhist⟩ := hon.exec_along (fun p s i op hs hc hwatched => by
      obtain rfl : s = p.world := hs.world
      exact hc hwatched) pursuit_starts hq' halong
    obtain rfl : t = (q.world, h) := ht.world
    exact ht.inv.order fun h => by cases hhist.mp h
  · intro p h e hfinds
    cases e with
    | start _ _ | kill _ | env _ => cases hfinds
    | step i out =>
        cases out with
        | fail _ | lost _ => cases hfinds
        | done =>
            simp only [findsPayment] at hfinds
            cases hp : p.slot i with
            | pure _ | throw _ => rw [hp] at hfinds; cases hfinds
            | await op k =>
                simp only [hp] at hfinds
                simp only [System.Asks, System.noted, hp]
                refine ⟨Op.findsPayment_spares hfinds, fun hwatched => ?_⟩
                have hmissed := (Pursuit.note_watched hwatched).2
                rw [hfinds] at hmissed
                cases hmissed
  · intro p h e hoff hwatched
    cases e with
    | start _ _ | kill _ | env _ => exact hoff hwatched
    | step i out =>
        simp only [System.noted] at hwatched
        cases hp : p.slot i with
        | pure _ | throw _ => rw [hp] at hwatched; exact hoff hwatched
        | await op k =>
            simp only [hp] at hwatched
            exact hoff (Pursuit.note_watched hwatched).1

/-- An expiry that reaches the order is carried out. -/
theorem expires_unspared {e : Event JsError Unit Task EnvEvent}
    (hq : (service cfg expiryRuns).next p e = some q)
    (hasks : ¬ System.Asks (sparesOrder id) p e) : ¬ q.world.Unexpired id := by
  cases e with
  | start _ _ | kill _ | env _ => exact absurd trivial hasks
  | step i out =>
      simp only [System.Asks] at hasks
      simp only [System.next] at hq
      cases hp : p.slot i with
      | pure _ | throw _ => rw [hp] at hq; cases hq
      | await op k =>
          rw [hp] at hasks
          simp only [hp] at hq
          split at hq <;> try contradiction
          rename_i hmay
          obtain ⟨r, hans, rfl⟩ := Option.map_eq_some_iff.mp hq
          have hexpires : op.expires id p.world = true := by
            simpa [Program.Awaiting, sparesOrder] using hasks
          cases op with
          | buyOrderUpdateMany filter u =>
              simp only [Op.expires, Bool.and_eq_true, beq_iff_eq] at hexpires
              obtain ⟨hst, hfilter⟩ := hexpires
              obtain ⟨o, ho, hfilter⟩ := (Option.any_eq_true _ _).mp hfilter
              simp only [service, expiryRuns, Bool.and_eq_true, Bool.or_eq_true] at hmay
              obtain rfl := served rfl hmay.2
              cases hans
              intro hopen
              obtain ⟨o', ho', hst'⟩ := hopen
              have ho' : (p.world.buyOrders.modifyAll filter u).get id = some o' := ho'
              rw [Collection.get_modifyAll, ho] at ho'
              cases ho'
              simp [hfilter, buyOrderSchema, BuyOrderSet.apply, hst] at hst'
          | _ => cases hexpires

end Runs

/-- From where an order is open, a run never expires it exactly if no expiry of the run
reaches it before a read of its balance has found the payment. -/
theorem paid_order_kept (cfg : Config) {w : World} (hw : w.OwnAddresses) {id : ObjectId}
    {es es' : List (Event JsError Unit Task EnvEvent)} {p q : Pool Op JsError World Unit}
    (hp : (service cfg expiryRuns).exec (.init w) es = some p) (hopen : p.world.Unexpired id)
    (hq : (service cfg expiryRuns).exec p es' = some q) :
    (∀ fs r, fs <+: es' → (service cfg expiryRuns).exec p fs = some r → r.world.Unexpired id) ↔
      (service cfg expiryRuns).Until (fun p e => findsPayment id p e = true)
        (sparesOrder id) p es' := by
  constructor
  · clear hp hopen
    intro hkept
    induction es' generalizing p with
    | nil => trivial
    | cons e es' ih =>
        obtain ⟨r, hr, hq⟩ := Option.bind_eq_some_iff.mp hq
        simp only [System.Until, hr]
        have hstep : ∀ fs r', (service cfg expiryRuns).exec r fs = some r' →
            (service cfg expiryRuns).exec p (e :: fs) = some r' := fun fs r' h =>
          Option.bind_eq_some_iff.mpr ⟨r, hr, h⟩
        refine Or.inr ⟨?_, ih hq fun fs r' hfs hr' => ?_⟩
        · by_contra hasks
          exact expires_unspared hr hasks
            (hkept [e] r (List.prefix_cons_iff.mpr (Or.inr ⟨[], rfl, List.nil_prefix⟩))
              (hstep [] r rfl))
        · exact hkept (e :: fs) r' (List.cons_prefix_cons.mpr ⟨rfl, hfs⟩) (hstep fs r' hr')
  · intro huntil fs r hfs hr
    exact pursuit_kept hw hp hopen hr (System.Until.initial _ huntil hfs)

namespace Sample

/-- The watcher runs. -/
def hdConfig : Config := { config with buyPaymentHdXprv := some "xprv" }

/-- One order over 5 USDC, open until time 10. -/
def quotedWorld : World where
  buyOrders := Collection.empty.insert 0
    { paymentAddress := some ⟨5⟩, paymentAmount := 5, paymentExpiresAt := 10 }

theorem quotedWorld_own : quotedWorld.OwnAddresses := by
  have hid : ∀ i o, quotedWorld.buyOrders.get i = some o → i = 0 := by
    intro i o ho
    simp only [quotedWorld, Collection.get_insert] at ho
    split at ho
    · assumption
    · cases ho
  intro i j o e ho he _ _
  rw [hid i o ho, hid j e he]

def paid : Event JsError Unit Task EnvEvent := .env (.market { usdc := fun _ => 5 })

/-- The payment arrives just before a tick and before the order's time is over. -/
def paidInTime : List (Event JsError Unit Task EnvEvent) := [.env (.wait 9), paid]

/-- A tick claims the payment, and a second one comes after the order's time. -/
def twoTicks : List (Event JsError Unit Task EnvEvent) :=
  .start () (.startBuyWatcher 2) :: List.replicate 8 (.step () .done) ++
    .env (.wait 20) :: List.replicate 3 (.step () .done)

/-- The next tick comes after the order's time. -/
def lateTick : List (Event JsError Unit Task EnvEvent) :=
  .env (.wait 5) :: .start () (.startBuyWatcher 1) :: List.replicate 3 (.step () .done)

end Sample

theorem claimed_order_kept : ∃ p q,
    (service Sample.hdConfig expiryRuns).exec (.init Sample.quotedWorld) Sample.paidInTime =
      some p ∧
    (service Sample.hdConfig expiryRuns).exec p Sample.twoTicks = some q ∧
    10 < q.world.now ∧ q.world.Unexpired 0 := by
  have h : ((service Sample.hdConfig expiryRuns).exec (.init Sample.quotedWorld)
      Sample.paidInTime).bind (fun p =>
        ((service Sample.hdConfig expiryRuns).exec p Sample.twoTicks).map fun q =>
          ((p.world.buyOrders.get 0).map BuyOrderDoc.status,
            decide ((service Sample.hdConfig expiryRuns).Until
              (fun p e => findsPayment 0 p e = true) (sparesOrder 0) p Sample.twoTicks),
            q.world.now)) = some (some .awaitingPayment, true, 29) := by
    decide +kernel
  obtain ⟨p, hp, h⟩ := Option.bind_eq_some_iff.mp h
  obtain ⟨q, hq, hres⟩ := Option.map_eq_some_iff.mp h
  simp only [Prod.mk.injEq] at hres
  obtain ⟨hst, huntil, hnow⟩ := hres
  obtain ⟨o, ho, hst⟩ := Option.map_eq_some_iff.mp hst
  have hopen : p.world.Unexpired 0 := ⟨o, ho, by rw [hst]; decide⟩
  refine ⟨p, q, hp, hq, by omega, ?_⟩
  exact (paid_order_kept Sample.hdConfig Sample.quotedWorld_own hp hopen hq).mpr
    (of_decide_eq_true huntil) Sample.twoTicks q List.prefix_rfl hq

/-- An order that is paid in time is expired by the next tick, before it reads the balance. -/
theorem paid_order_expires : ∃ p q o,
    (service Sample.hdConfig expiryRuns).exec (.init Sample.quotedWorld) Sample.paidInTime =
      some p ∧
    (service Sample.hdConfig expiryRuns).exec p Sample.lateTick = some q ∧
    p.world.buyOrders.get 0 = some o ∧ p.world.now < o.paymentExpiresAt ∧
    (o.paymentAddress.any fun a => o.paymentAmount ≤ p.world.base.tokens.usdc a) = true ∧
    (q.world.buyOrders.get 0).map BuyOrderDoc.status = some .expired := by
  have h : ((service Sample.hdConfig expiryRuns).exec (.init Sample.quotedWorld)
      Sample.paidInTime).bind (fun p =>
        ((service Sample.hdConfig expiryRuns).exec p Sample.lateTick).map fun q =>
          ((p.world.buyOrders.get 0).map (fun o => (decide (p.world.now < o.paymentExpiresAt),
              o.paymentAddress.any fun a => o.paymentAmount ≤ p.world.base.tokens.usdc a)),
            (q.world.buyOrders.get 0).map BuyOrderDoc.status)) =
      some (some (true, true), some .expired) := by
    decide +kernel
  obtain ⟨p, hp, h⟩ := Option.bind_eq_some_iff.mp h
  obtain ⟨q, hq, hres⟩ := Option.map_eq_some_iff.mp h
  simp only [Prod.mk.injEq] at hres
  obtain ⟨ho, hexpired⟩ := hres
  obtain ⟨o, ho, hpaid⟩ := Option.map_eq_some_iff.mp ho
  simp only [Prod.mk.injEq, decide_eq_true_eq] at hpaid
  exact ⟨p, q, o, hp, hq, ho, hpaid.1, hpaid.2, hexpired⟩

end FairBridge

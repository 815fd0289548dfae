import FairBridge.Model.Frame
import FairBridge.Worker.PaymentOutline

/-!
Paid orders and their jobs. The claim of a payment takes the order out of the watcher's
sight before its job is added, and nothing else ever adds one; after that the job has to
last until the order has come to its next broadcast.
-/

namespace FairBridge
open Store Async Async.Rules

/-- The order is paid for, and its next broadcast is not on file. -/
def BuyOrderDoc.unfinished (o : BuyOrderDoc) : Bool :=
  o.status == .paymentDetected || o.status == .swapping && o.swapTxHash == none ||
    o.status == .burning && o.burnTxHash == none

def World.unfinished (w : World) (id : ObjectId) : Bool :=
  (w.buyOrders.get id).any BuyOrderDoc.unfinished

/-- Served like this the request costs an unfinished order its job: the payment is claimed
and the claim not answered, the job is not added, or its attempt ends for good. -/
def Op.losesJob (id : ObjectId) {β : Type} (op : Op β) (out : Outcome) (w : World) : Bool :=
  match op with
  | .buyOrder (.findOneAndUpdate filter _ u) =>
      out.isLost && u.status == some .paymentDetected && (w.buyOrders.get id).any filter
  | .addBuyJob order => order == id && out.isFail
  | .finishJob job raised => job == .buy id && w.unfinished id && raised.isSome &&
      (raised.any JsError.nonRetryable || !w.buyQueue.attemptable id)
  | _ => false

/-- So does the death of a run here: of the watcher before the job is added, or of the
last attempt. -/
def Op.diesWithJob (id : ObjectId) {β : Type} (i : Option ObjectId) (op : Op β) (w : World) :
    Bool :=
  match i, op with
  | none, .addBuyJob order => order == id
  | none, _ => false
  | some order, _ => order == id && w.unfinished id && !w.buyQueue.attemptable id

/-- One watcher, and a worker for the job of every order. Any request may raise and any run
may die; with `careful` not so that the order loses its job. -/
def strandRuns (id : ObjectId) (careful : Bool) : Faults (Option ObjectId) where
  ready w i t := match i, t with
    | none, .startBuyWatcher _ => true
    | some order, .attemptBuy job => job == order && w.buyQueue.attemptable order
    | _, _ => false
  may _ op out w := (match op with
    | .takeJob _ | .finishJob _ _ => out.isDone
    | _ => true) && (!careful || !op.losesJob id out w)
  mayKill i op w := !careful || !op.diesWithJob id i w
  row _ := none
  env e _ := match e with
    | .order _ status => status == .delivered
    | _ => true

/-- A swap is filed only once it was claimed, and no burn is claimed before it. -/
structure BuyOrderDoc.Consistent (o : BuyOrderDoc) : Prop where
  early : o.status = .awaitingPayment ∨ o.status = .paymentDetected → o.swapTxHash = none
  burning : o.status = .burning → o.swapTxHash ≠ none

/-- What holds of an order and its job at any time; `s.2` while the watcher has claimed the
payment and is to add the job. -/
structure StrandInv (id : ObjectId) (s : World × Bool) : Prop where
  row : ∀ o, s.1.buyOrders.get id = some o → o.Consistent
  taken : s.2 = true ∨ s.1.buyQueue.has id = true →
    ∃ o, s.1.buyOrders.get id = some o ∧ o.status ≠ .awaitingPayment
  fresh : s.2 = true → s.1.buyQueue.has id = false
  alive : s.1.unfinished id = true → s.1.buyQueue.alive id = true ∨ s.2 = true

/-- The order can be left alone: it is not unfinished, or its job will be attempted. -/
def Attended (id : ObjectId) (s : World × Bool) : Prop :=
  s.1.unfinished id = true → s.1.buyQueue.attemptable id = true ∨ s.2 = true

/-- What the worker of the order's job may count on: nobody else writes the order, but that
a release delivers it, and nobody else ends the job. -/
structure OrderHeld (id : ObjectId) (w w' : World) : Prop where
  row : ∀ o, w.buyOrders.get id = some o → o.status ≠ .awaitingPayment →
    ∃ o', w'.buyOrders.get id = some o' ∧ (o' = o ∨
      o.movesTo .delivered = true ∧ o' = { o with status := .delivered })
  alive : w.buyQueue.alive id = true → w'.buyQueue.alive id = true

/-- Neither the order nor its job is concerned. -/
structure Beside (id : ObjectId) (w w' : World) : Prop where
  row : w'.buyOrders.get id = w.buyOrders.get id
  jobs : w'.buyQueue.named id = w.buyQueue.named id

variable {id : ObjectId} {w w' : World} {b : Bool}

theorem OrderHeld.refl (w : World) : OrderHeld id w w := ⟨fun o h _ => ⟨o, h, Or.inl rfl⟩, fun h => h⟩

theorem OrderHeld.trans {w₁ w₂ w₃ : World} (h : OrderHeld id w₁ w₂) (h' : OrderHeld id w₂ w₃) :
    OrderHeld id w₁ w₃ where
  row o ho hst := by
    obtain ⟨o', ho', rfl | ⟨hmoves, rfl⟩⟩ := h.row o ho hst
    · exact h'.row o' ho' hst
    · obtain ⟨o'', ho'', rfl | ⟨hmoves', _⟩⟩ := h'.row _ ho' (by simp)
      · exact ⟨_, ho'', Or.inr ⟨hmoves, rfl⟩⟩
      · simp [BuyOrderDoc.movesTo] at hmoves'
  alive hw := h'.alive (h.alive hw)

namespace Beside

theorem unfinished (h : Beside id w w') : w'.unfinished id = w.unfinished id := by
  simp only [World.unfinished, h.row]

theorem attemptable (h : Beside id w w') :
    w'.buyQueue.attemptable id = w.buyQueue.attemptable id := by
  simp only [JobQueue.attemptable_named, h.jobs]

theorem alive (h : Beside id w w') : w'.buyQueue.alive id = w.buyQueue.alive id := by
  simp only [JobQueue.alive_named, h.jobs]

theorem has (h : Beside id w w') : w'.buyQueue.has id = w.buyQueue.has id := by
  simp only [JobQueue.has_named, h.jobs]

theorem inv (h : Beside id w w') (hi : StrandInv id (w, b)) : StrandInv id (w', b) where
  row := by simpa only [h.row] using hi.row
  taken := by simpa only [h.row, h.has] using hi.taken
  fresh := by simpa only [h.has] using hi.fresh
  alive := by simpa only [h.unfinished, h.alive] using hi.alive

theorem held (h : Beside id w w') : OrderHeld id w w' where
  row o ho _ := ⟨o, h.row ▸ ho, Or.inl rfl⟩
  alive := by simp only [h.alive, imp_self]

theorem attended (h : Beside id w w') (ha : Attended id (w, b)) : Attended id (w', b) := by
  simpa only [Attended, h.unfinished, h.attemptable] using ha

theorem of_same (horders : w'.buyOrders = w.buyOrders) (hqueue : w'.buyQueue = w.buyQueue) :
    Beside id w w' := ⟨by rw [horders], by rw [hqueue]⟩

/-- A request that writes neither orders nor jobs. -/
theorem of_frame {β : Type} {op : Op β} {out : Outcome} {r : Except JsError β}
    (horders : op.part ≠ .buyOrders) (hqueue : op.part ≠ .queues)
    (h : answer none op out w = some (r, w')) : Beside id w w' :=
  .of_same ((answer_frame h).buyOrders horders) ((answer_frame h).buyQueue hqueue)

end Beside

def strandRely (id : ObjectId) : Option ObjectId → World × Bool → World × Bool → Prop
  | none, s, t => t.2 = s.2
  | some order, s, t => order = id → OrderHeld id s.1 t.1 ∧ (Attended id s → Attended id t)

theorem strandRely_refl (i : Option ObjectId) (s : World × Bool) : strandRely id i s s := by
  cases i with
  | none => rfl
  | some order => exact fun _ => ⟨.refl s.1, fun h => h⟩

theorem strandRely_trans {i : Option ObjectId} {s t u : World × Bool}
    (h : strandRely id i s t) (h' : strandRely id i t u) : strandRely id i s u := by
  cases i with
  | none => exact h'.trans h
  | some order => exact fun hid => ⟨(h hid).1.trans (h' hid).1, fun hs => (h' hid).2 ((h hid).2 hs)⟩

theorem Beside.rely (h : Beside id w w') (i : Option ObjectId) :
    strandRely id i (w, b) (w', b) := by
  cases i with
  | none => rfl
  | some order => exact fun _ => ⟨h.held, h.attended⟩

/-- Around the service an order is at most delivered or quoted. -/
theorem StrandInv.of_env {e : EnvEvent} (hi : StrandInv id (w, b)) (h : e.occur w = some w')
    (hdelivers : ∀ i st, e = .order i st → st = .delivered) :
    StrandInv id (w', b) ∧ ∀ i, strandRely id i (w, b) (w', b) := by
  have hqueue := EnvEvent.occur_buyQueue h
  obtain hsame | ⟨o, st, he, ho, hmoves, ho'⟩ | ⟨hnone, o, ho, hst, hswap⟩ :=
    EnvEvent.occur_order h id
  · have hbeside : Beside id w w' := ⟨hsame, by rw [hqueue]⟩
    exact ⟨hbeside.inv hi, hbeside.rely⟩
  · obtain rfl := hdelivers id st he
    have hfinished : w'.unfinished id = false := by
      simp [World.unfinished, ho', BuyOrderDoc.unfinished]
    have hopen : o.status ≠ .awaitingPayment := by
      intro hst
      simp [BuyOrderDoc.movesTo, hst] at hmoves
    refine ⟨⟨?_, fun _ => ⟨_, ho', by simp⟩, ?_, fun hun => by simp [hfinished] at hun⟩, fun i => ?_⟩
    · intro e he
      cases ho'.symm.trans he
      exact ⟨fun hst => by simp at hst, fun hst => by simp at hst⟩
    · rw [hqueue]
      exact hi.fresh
    · cases i with
      | none => rfl
      | some order =>
          refine fun _ => ⟨⟨fun e he _ => ?_, fun ha => by rwa [hqueue]⟩, fun _ hun => ?_⟩
          · cases ho.symm.trans he
            exact ⟨_, ho', Or.inr ⟨hmoves, rfl⟩⟩
          · simp [hfinished] at hun
  · have hfinished : w'.unfinished id = false := by
      simp [World.unfinished, ho, BuyOrderDoc.unfinished, hst]
    refine ⟨⟨?_, ?_, ?_, fun hun => by simp [hfinished] at hun⟩, fun i => ?_⟩
    · intro e he
      cases ho.symm.trans he
      exact ⟨fun _ => hswap, fun hb => by simp [hst] at hb⟩
    · intro htaken
      rw [hqueue] at htaken
      obtain ⟨e, he, _⟩ := hi.taken htaken
      cases hnone.symm.trans he
    · rw [hqueue]
      exact hi.fresh
    · cases i with
      | none => rfl
      | some order =>
          refine fun _ => ⟨⟨fun e he _ => ?_, fun ha => by rwa [hqueue]⟩, fun _ hun => ?_⟩
          · cases hnone.symm.trans he
          · simp [hfinished] at hun

def strandRules (cfg : Config) (id : ObjectId) :
    Rules (service cfg (strandRuns id true)) (World × Bool) where
  world s := s.1
  inv := StrandInv id
  rely := strandRely id
  guar i s t := ∀ j, i ≠ j → strandRely id j s t
  rest i s := match i with
    | none => s.2 = false
    | some order => order = id → Attended id s
  hist _ _ := True
  rely_refl := strandRely_refl
  rely_trans := strandRely_trans
  guar_refl _ s j _ := strandRely_refl j s
  guar_rely hij _ _ h := h _ hij
  rest_stable {i s t} _ _ h hs := by
    cases i with
    | none => exact Eq.trans h hs
    | some order => exact fun hid => (h hid).2 (hs hid)
  hist_refl _ := trivial
  hist_trans _ _ := trivial
  guar_hist _ _ _ := trivial
  env_step {e s w} hi he := by
    obtain ⟨hmay, he⟩ := service_env he
    obtain ⟨hi', hrely⟩ := hi.of_env he fun i st he => by
      subst he
      simpa [strandRuns] using hmay
    exact ⟨(w, s.2), rfl, hi', trivial, hrely⟩

section Watcher
variable {cfg : Config} {β : Type} {op : Op β} {i : Option ObjectId} {P : World × Bool → Prop}
  {M : Except JsError β → World × Bool → Prop}

theorem strand_performs (h : ∀ s out r w, StrandInv id s → P s →
      (strandRuns id true).may i op out s.1 = true → answer none op out s.1 = some (r, w) →
      ∃ b, StrandInv id (w, b) ∧ (∀ j, i ≠ j → strandRely id j s (w, b)) ∧ M r (w, b)) :
    (strandRules cfg id).Performs i P op M := by
  intro s out r w hi hs _ hmay hans
  simp only [service, Bool.and_eq_true] at hmay
  obtain ⟨b, hinv, hguar, hM⟩ := h s out r w hi hs hmay.2 hans
  exact ⟨(w, b), rfl, hinv, hguar, hM⟩

theorem strand_beside
    (h : ∀ s out r w, P s → (strandRuns id true).may i op out s.1 = true →
      answer none op out s.1 = some (r, w) → Beside id s.1 w ∧ M r (w, s.2)) :
    (strandRules cfg id).Performs i P op M := by
  refine strand_performs fun s out r w hi hs hmay hans => ?_
  obtain ⟨hbeside, hM⟩ := h s out r w hs hmay hans
  exact ⟨s.2, hbeside.inv hi, fun j _ => hbeside.rely j, hM⟩

/-- A request of the watcher that writes neither orders nor jobs. -/
theorem watcher_beside (horders : op.part ≠ .buyOrders) (hqueue : op.part ≠ .queues) :
    (strandRules cfg id).Performs none (fun s => s.2 = false) op
      (Answered (fun _ s => s.2 = false) fun s => s.2 = false) := by
  refine strand_beside fun s out r w hs _ hans => ⟨.of_frame horders hqueue hans, ?_⟩
  cases r <;> exact hs

theorem watcher_find (filter : BuyOrderDoc → Bool) (limit : Option Nat) :
    (strandRules cfg id).Performs none (fun s => s.2 = false) (.buyOrder (.find filter limit))
      (Answered (fun _ s => s.2 = false) fun s => s.2 = false) := by
  refine strand_beside fun s out r w hs _ hans => ⟨?_, ?_⟩
  · obtain ⟨_, _, _, rfl⟩ | ⟨x, hx, _⟩ := answer_cases hans
    · exact .of_same rfl rfl
    · cases limit <;> cases hx <;> exact .of_same rfl rfl
  · cases r <;> exact hs

/-- The watcher moves an open order on, and has its job to add if it is paid for. -/
theorem StrandInv.of_open {o o' : BuyOrderDoc} (b' : Bool) (hi : StrandInv id (w, b))
    (ho : w.buyOrders.get id = some o) (hst : o.status = .awaitingPayment)
    (ho' : w'.buyOrders.get id = some o') (hqueue : w'.buyQueue = w.buyQueue)
    (hconsistent : o'.Consistent) (hst' : o'.status ≠ .awaitingPayment)
    (hadding : o'.unfinished = true → b' = true) :
    StrandInv id (w', b') ∧ ∀ j, none ≠ j → strandRely id j (w, b) (w', b') := by
  have hfree : ¬ (b = true ∨ w.buyQueue.has id = true) := by
    intro htaken
    obtain ⟨e, he, hne⟩ := hi.taken htaken
    cases ho.symm.trans he
    exact hne hst
  have hun : w'.unfinished id = o'.unfinished := by simp [World.unfinished, ho']
  refine ⟨⟨?_, fun _ => ⟨o', ho', hst'⟩, fun _ => ?_, fun h => Or.inr (hadding (hun ▸ h))⟩, ?_⟩
  · intro e he
    cases ho'.symm.trans he
    exact hconsistent
  · rw [hqueue]
    exact Bool.eq_false_iff.mpr fun h => hfree (Or.inr h)
  · intro j hj
    cases j with
    | none => exact absurd rfl hj
    | some order =>
        refine fun _ => ⟨⟨fun e he hne => ?_, fun h => by rwa [hqueue]⟩,
          fun _ h => Or.inr (hadding (hun ▸ h))⟩
        cases ho.symm.trans he
        exact absurd hst hne

theorem watcher_expire (now : Nat) :
    (strandRules cfg id).Performs none (fun s => s.2 = false)
      (.buyOrderUpdateMany (staleOrder now) { status := some .expired })
      (Answered (fun _ s => s.2 = false) fun s => s.2 = false) := by
  refine strand_performs fun s out r w hi hs _ hans => ?_
  refine ⟨s.2, ?_⟩
  have hM : Answered (fun _ (s : World × Bool) => s.2 = false) (fun s => s.2 = false) r
      (w, s.2) := by
    cases r <;> exact hs
  obtain ⟨_, _, _, rfl⟩ | ⟨x, hx, _⟩ := answer_cases hans
  · exact ⟨hi, fun j _ => strandRely_refl j s, hM⟩
  · obtain rfl : s.1.setBuyOrders (staleOrder now) { status := some .expired } = w :=
      congrArg Prod.snd (Option.some.inj hx)
    have hbeside (hrow : (s.1.buyOrders.get id).any (staleOrder now) = false) :
        Beside id s.1 (s.1.setBuyOrders (staleOrder now) { status := some .expired }) := by
      refine ⟨(Collection.get_modifyAll _ _ _ _).trans ?_, rfl⟩
      cases ho : s.1.buyOrders.get id with
      | none => rfl
      | some o =>
          rw [ho, Option.any_some] at hrow
          rw [Option.map_some, hrow]
          rfl
    cases ho : s.1.buyOrders.get id with
    | none =>
        have hquiet := hbeside (by rw [ho]; rfl)
        exact ⟨hquiet.inv hi, fun j _ => hquiet.rely j, hM⟩
    | some o =>
        cases hstale : staleOrder now o with
        | false =>
            have hquiet := hbeside (by rw [ho]; exact hstale)
            exact ⟨hquiet.inv hi, fun j _ => hquiet.rely j, hM⟩
        | true =>
            have hrow := World.get_setBuyOrders ho (staleOrder now) { status := some .expired }
            rw [hstale, if_pos rfl] at hrow
            simp only [staleOrder, Bool.and_eq_true, beq_iff_eq] at hstale
            have hsafe := hi.of_open s.2 ho hstale.1 hrow rfl
              ⟨fun h => by simp [BuyOrderSet.apply] at h, fun h => by simp [BuyOrderSet.apply] at h⟩
              (by simp [BuyOrderSet.apply]) (by simp [BuyOrderSet.apply, BuyOrderDoc.unfinished])
            exact ⟨hsafe.1, hsafe.2, hM⟩

theorem watcher_claim (o : BuyOrderDoc) (n : Int) :
    (strandRules cfg id).Performs none (fun s => s.2 = false)
      (.buyOrder (.findOneAndUpdate (fun e => e.id == o.id && payable e) none (detected n)))
      (Answered (Found (fun e s => s.2 = decide (e.id = id)) fun s => s.2 = false)
        fun s => s.2 = false) := by
  refine strand_performs fun s out r w hi hs hmay hans => ?_
  obtain ⟨e, _, rfl, rfl⟩ | ⟨x, hx, hout⟩ := answer_cases hans
  · exact ⟨s.2, hi, fun j _ => strandRely_refl j s, hs⟩
  · have heff := (BuyOrder.effect_claim none o.id payable (detected n) s.1).symm.trans hx
    cases ho : (s.1.buyOrders.get o.id).filter payable with
    | none =>
        rw [ho] at heff
        cases heff
        refine ⟨s.2, hi, fun j _ => strandRely_refl j s, ?_⟩
        obtain ⟨_, rfl⟩ | ⟨_, _, rfl⟩ := hout <;> exact hs
    | some e =>
        rw [ho] at heff
        cases heff
        obtain ⟨he, hpay⟩ := Option.filter_eq_some_iff.mp ho
        have hrow := World.get_setBuyOrder he (detected n)
        by_cases hid : o.id = id
        · subst hid
          refine ⟨true, ?_⟩
          have hsafe := hi.of_open true he (by simpa [payable] using hpay) hrow rfl
            ⟨fun _ => by
              simpa [BuyOrderSet.apply, detected] using
                (hi.row e he).early (Or.inl (by simpa [payable] using hpay)),
              fun h => by simp [BuyOrderSet.apply, detected] at h⟩
            (by simp [BuyOrderSet.apply, detected]) (fun _ => rfl)
          refine ⟨hsafe.1, hsafe.2, ?_⟩
          obtain ⟨_, rfl⟩ | ⟨_, rfl, rfl⟩ := hout
          · exact (decide_eq_true (Collection.get_id he)).symm
          · have hkeeps := hmay
            simp [strandRuns, Op.losesJob, Outcome.isLost, detected, he, hpay] at hkeeps
            exact absurd (Collection.get_id he) hkeeps
        · have hbeside : Beside id s.1 (s.1.setBuyOrder o.id (detected n)) :=
            ⟨Collection.get_modify_other _ _ (Ne.symm hid), rfl⟩
          refine ⟨s.2, hbeside.inv hi, fun j _ => hbeside.rely j, ?_⟩
          have heid : e.id = o.id := Collection.get_id he
          obtain ⟨_, rfl⟩ | ⟨_, _, rfl⟩ := hout
          · refine hs.trans (decide_eq_false ?_).symm
            intro h
            exact hid (heid.symm.trans h)
          · exact hs

/-- The job of the claimed order is new to the queue. -/
theorem watcher_enqueue (order : ObjectId) :
    (strandRules cfg id).Performs none (fun s => s.2 = decide (order = id)) (.addBuyJob order)
      (Answered (fun _ s => s.2 = false) fun s => s.2 = false) := by
  refine strand_performs fun s out r w hi hs hmay hans => ?_
  have hM : Answered (fun _ (s : World × Bool) => s.2 = false) (fun s => s.2 = false) r
      (w, false) := by
    cases r <;> rfl
  refine ⟨false, ?_⟩
  obtain ⟨_, rfl, _, rfl⟩ | ⟨x, hx, _⟩ := answer_cases hans
  · have hother : order ≠ id := by
      simpa [strandRuns, Op.losesJob, Outcome.isFail] using hmay
    have hoff : s.2 = false := hs.trans (decide_eq_false hother)
    have hbeside : Beside id s.1 s.1 := ⟨rfl, rfl⟩
    exact ⟨hoff ▸ hi, fun j _ => hoff ▸ hbeside.rely j, hM⟩
  · cases hx
    by_cases hid : order = id
    · subst hid
      have hon : s.2 = true := hs.trans (decide_eq_true rfl)
      have hjob := JobQueue.attemptable_add (hi.fresh hon) ()
      refine ⟨⟨hi.row, fun _ => hi.taken (Or.inl hon), fun h => (by cases h),
        fun _ => Or.inl (JobQueue.alive_of_attemptable hjob)⟩, ?_, hM⟩
      intro j hj
      cases j with
      | none => exact absurd rfl hj
      | some _ => exact fun _ => ⟨⟨fun o ho _ => ⟨o, ho, Or.inl rfl⟩,
          fun h => JobQueue.alive_add h _ _⟩, fun _ _ => Or.inl hjob⟩
    · have hoff : s.2 = false := hs.trans (decide_eq_false hid)
      have hbeside : Beside id s.1
          { s.1 with buyQueue := s.1.buyQueue.add order () } :=
        ⟨rfl, JobQueue.named_add_other (Ne.symm hid) ()⟩
      have hi' : StrandInv id (s.1, false) := hoff ▸ hi
      have hs' : s = (s.1, false) := Prod.ext rfl hoff
      refine ⟨hbeside.inv hi', fun j _ => ?_, hM⟩
      rw [hs']
      exact hbeside.rely j

def strandOutline : PaymentOutline (strandRules cfg id) none where
  base s := s.2 = false
  listed _ s := s.2 = false
  read _ _ _ s := s.2 = false
  claimed order _ s := s.2 = decide (order = id)
  base_stable _ _ _ _ h hs := Eq.trans h hs
  listed_stable _ _ _ _ _ h hs := Eq.trans h hs
  read_stable _ _ _ _ _ _ _ h hs := Eq.trans h hs
  claimed_stable _ _ _ _ _ _ h hs := Eq.trans h hs
  base_rest _ _ h := h
  listed_base _ _ _ h := h
  read_settled _ _ _ := .of_rest fun _ _ h => h
  claimed_settled order _ := fun s _ hs hkill => by
    have hother : order ≠ id := by
      simpa [service, strandRuns, Op.diesWithJob, Op.synchronous] using hkill
    exact Eq.trans hs (decide_eq_false hother)
  aborted := watcher_beside (by decide) (by decide)
  clock := watcher_beside (by decide) (by decide)
  expire := watcher_expire
  find now := watcher_find _ _
  skip _ _ _ _ h := h
  balance _ _ _ _ := watcher_beside (fun h => by cases h) (fun h => by cases h)
  short _ _ _ _ _ _ h := h
  claim o _ n _ := watcher_claim o n
  enqueue order _ := watcher_enqueue order

end Watcher

end FairBridge

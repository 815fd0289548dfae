import FairBridge.Guarantees.PayoutAccounts
import Mathlib.Algebra.BigOperators.Group.Finset.Basic
import Mathlib.Algebra.Order.BigOperators.Group.Finset

/-!
What all the cycles pay together. The pool of a cycle is read as what the reward address
ever received, so that a later cycle shares again what an earlier one has paid.
-/

namespace FairBridge
open Store Async Async.Rules

/-- What the cycles have paid so far. -/
def World.paidOut (w : World) : Int :=
  ((w.fair.sends.filter fun s => s.payout.isSome).map Send.sats).sum

/-- A cycle is created although what earlier ones have paid and its own shares are more than
what was received. -/
def Op.overdraws {β : Type} (op : Op β) (w : World) : Bool :=
  match op with
  | .rewardCycle (.create d) => decide (0 < w.paidOut ∧
      w.fair.received < w.paidOut + d.payouts.length * d.perMasternodeFair)
  | _ => false

variable {id : ObjectId} {cfg : Config} {v w : World}

/-- No cycle is open. -/
def World.NoneOpen (w : World) : Prop := ∀ d ∈ w.rewardCycles.docs, d.isResumable = false

structure OpenInv (w : World) : Prop where
  sole : ∀ d ∈ w.rewardCycles.docs, ∀ e ∈ w.rewardCycles.docs, d.isResumable = true →
    e.isResumable = true → d.id = e.id
  deep : w.fair.confirmed ≤ w.fair.received

/-- A cycle is opened where none is open, for a pool that was received. -/
def OpenStep (v w : World) : Prop :=
  ∀ d ∈ w.rewardCycles.docs, d.isResumable = true →
    (∃ e ∈ v.rewardCycles.docs, e.isResumable = true ∧ e.id = d.id) ∨
    v.NoneOpen ∧ d.poolBalanceFair ≤ v.fair.received

/-- The cycles are the same, and what was received is not lost. -/
structure SameCycles (v w : World) : Prop where
  cycles : w.rewardCycles = v.rewardCycles
  received : v.fair.received ≤ w.fair.received
  confirmed : v.fair.confirmed ≤ v.fair.received → w.fair.confirmed ≤ w.fair.received

theorem SameCycles.refl (w : World) : SameCycles w w := ⟨rfl, Int.le_refl _, fun h => h⟩

theorem SameCycles.trans {u v w : World} (h : SameCycles u v) (h' : SameCycles v w) :
    SameCycles u w :=
  ⟨h'.cycles.trans h.cycles, Int.le_trans h.received h'.received,
    fun hc => h'.confirmed (h.confirmed hc)⟩

theorem SameCycles.noneOpen (h : SameCycles v w) (hv : v.NoneOpen) : w.NoneOpen := by
  rw [World.NoneOpen, h.cycles]
  exact hv

theorem OpenInv.same (hv : OpenInv v) (h : SameCycles v w) : OpenInv w where
  sole := by
    rw [h.cycles]
    exact hv.sole
  deep := h.confirmed hv.deep

theorem SameCycles.openStep (h : SameCycles v w) : OpenStep v w := by
  intro d hd hopen
  rw [h.cycles] at hd
  exact Or.inl ⟨d, hd, hopen, rfl⟩

theorem EnvEvent.occur_sameCycles {e : EnvEvent} (h : e.occur v = some w) : SameCycles v w := by
  refine ⟨(EnvEvent.occur_surroundings h).rewardCycles, ?_, ?_⟩
  all_goals
    cases e with
    | wait _ | transactionKnown _ _ | masternodes _ | abort | restart | serveFirst _ | market _
    | credit _ =>
        cases h
        simp only
        try intro
        omega
    | mine _ _ | foreignReceipt _ _ | baseBlock _ | fairBlock _ | confirm _ | intent _ _ _ _
    | order _ _ | quote _ =>
        simp only [occur] at h
        split at h <;> cases h
        simp only
        try intro
        omega

/-- What the address received is up to the others. -/
theorem answer_received {β : Type} {op : Op β} {row : Option ObjectId} {out : Outcome}
    {r : Except JsError β} (h : answer row op out v = some (r, w)) :
    w.fair.received = v.fair.received ∧ w.fair.confirmed = v.fair.confirmed := by
  by_cases hpayments : op.part = .payments
  · cases op with
    | sendToAddress _ _ _ =>
        obtain ⟨_, _, _, rfl⟩ | ⟨_, hx, _⟩ := answer_cases h
        · exact ⟨rfl, rfl⟩
        · obtain ⟨_, _, rfl⟩ | ⟨_, rfl, _⟩ := effect_sendToAddress hx <;> exact ⟨rfl, rfl⟩
    | _ => cases hpayments
  · have hfair := (answer_frame h).fair hpayments
    exact ⟨congrArg FairNode.received hfair, congrArg FairNode.confirmed hfair⟩

/-- The request opens no cycle. -/
def Op.opensNone {β : Type} : Op β → Prop
  | .rewardCycle (.findOneAndUpdate filter _ u) | .rewardCycle (.updateOne filter u) =>
      ∀ d, filter d = true → (u.apply d).isResumable = true → d.isResumable = true
  | .rewardCycle (.create d) => d.isResumable = false
  | _ => True

/-- Every cycle that is open was so before. -/
def OpenBefore (v w : World) : Prop :=
  ∀ d ∈ w.rewardCycles.docs, d.isResumable = true →
    ∃ e ∈ v.rewardCycles.docs, e.isResumable = true ∧ e.id = d.id

theorem OpenBefore.of_same (h : w.rewardCycles = v.rewardCycles) : OpenBefore v w :=
  fun d hd hopen => ⟨d, h ▸ hd, hopen, rfl⟩

theorem OpenBefore.of_update {filter : RewardCycleDoc → Bool}
    {sort : Option (RewardCycleDoc → Nat)} {u : RewardCycleSet}
    (hu : ∀ d, filter d = true → (u.apply d).isResumable = true → d.isResumable = true)
    (hw : w.rewardCycles = (v.rewardCycles.update refusals.duplicate filter sort u).2) :
    OpenBefore v w := by
  obtain ⟨_, hc⟩ | ⟨_, _, _, _, _, hc⟩ | ⟨d, hd, hfilter, _, _, hc⟩ :=
    v.rewardCycles.update_cases refusals.duplicate filter sort u
  · exact .of_same (hw.trans (congrArg Prod.snd hc))
  · exact .of_same (hw.trans (congrArg Prod.snd hc))
  · intro e he hopen
    rw [hw, hc] at he
    obtain ⟨d', hd', rfl⟩ | ⟨he, _⟩ := Collection.mem_modify.mp he
    · cases hd.symm.trans hd'
      exact ⟨d, Collection.get_mem hd, hu d hfilter hopen, rfl⟩
    · exact ⟨e, he, hopen, rfl⟩

theorem OpenBefore.of_answer {β : Type} {op : Op β} {row : Option ObjectId} {out : Outcome}
    {r : Except JsError β} (hop : op.opensNone) (h : answer row op out v = some (r, w)) :
    OpenBefore v w := by
  by_cases hcycles : op.part = .rewardCycles
  · cases op with
    | rewardCycle q =>
        obtain ⟨_, _, _, rfl⟩ | ⟨x, hx, _⟩ := answer_cases h
        · exact .of_same rfl
        · cases q with
          | findOne _ _ => cases hx; exact .of_same rfl
          | find _ limit => cases hx; cases limit <;> exact .of_same rfl
          | updateOne _ _ | findOneAndUpdate _ _ _ => cases hx; exact .of_update hop rfl
          | create doc =>
              obtain ⟨_, _, rfl⟩ | ⟨_, rfl⟩ := MasternodeRewardCycle.effect_create hx
              · exact .of_same rfl
              · intro d hd hopen
                obtain hd | hd := List.mem_append.mp hd
                · exact ⟨d, hd, hopen, rfl⟩
                · cases List.mem_singleton.mp hd
                  cases (show doc.isResumable = false from hop).symm.trans hopen
    | _ => cases hcycles
  · exact .of_same ((answer_frame h).rewardCycles hcycles)

theorem OpenInv.before (hv : OpenInv v) (h : OpenBefore v w)
    (hdeep : w.fair.confirmed ≤ w.fair.received) : OpenInv w where
  sole d hd e he hdopen heopen := by
    obtain ⟨d', hd', hdopen', hdid⟩ := h d hd hdopen
    obtain ⟨e', he', heopen', heid⟩ := h e he heopen
    rw [← hdid, ← heid]
    exact hv.sole d' hd' e' he' hdopen' heopen'
  deep := hdeep

/-- At most one cycle is open. -/
def openRules (cfg : Config) : Rules (service cfg (rewardRuns false)) World where
  world w := w
  inv := OpenInv
  rely _ := SameCycles
  guar _ := OpenStep
  rest _ _ := True
  hist _ _ := True
  rely_refl _ := .refl
  rely_trans := .trans
  guar_refl _ w := (SameCycles.refl w).openStep
  guar_rely hij _ _ _ := absurd rfl hij
  rest_stable _ _ _ _ := trivial
  hist_refl _ := trivial
  hist_trans _ _ := trivial
  guar_hist _ _ _ := trivial
  env_step hi he :=
    have h := EnvEvent.occur_sameCycles (service_env he).2
    ⟨_, rfl, hi.same h, trivial, fun _ => h⟩

section Outline
variable {α β : Type} {op : Op β} {P : World → Prop}

theorem open_performs {M : Except JsError β → World → Prop}
    (h : ∀ v out r w, OpenInv v → P v → answer none op out v = some (r, w) →
      OpenInv w ∧ OpenStep v w ∧ M r w) : (openRules cfg).Performs () P op M :=
  fun v out r w hi hs _ _ hans => ⟨w, rfl, h v out r w hi hs hans⟩

theorem open_only {prog : Promise α} (h : prog.Only Op.opensNone) :
    (openRules cfg).Triple () (fun _ => True) prog (fun _ _ => True) fun _ _ => True := by
  refine .harmless h (fun _ _ _ _ _ _ => trivial) (fun _ _ _ => trivial) fun op hop =>
    open_performs fun v out r w hi _ hans => ?_
  have hbefore : OpenBefore v w := .of_answer hop hans
  obtain ⟨hreceived, hconfirmed⟩ := answer_received hans
  exact ⟨hi.before hbefore (by rw [hreceived, hconfirmed]; exact hi.deep),
    fun d hd hopen => Or.inl (hbefore d hd hopen), trivial⟩

/-- No cycle is open, and the pool is part of what was received. -/
def ReadyToOpen (pool : Int) (w : World) : Prop := w.NoneOpen ∧ pool ≤ w.fair.received

theorem ReadyToOpen.stable {pool : Int} : (openRules cfg).Stable () (ReadyToOpen pool) :=
  fun _ _ _ _ h hs => ⟨h.noneOpen hs.1, Int.le_trans hs.2 h.received⟩

theorem noneOpen_stable : (openRules cfg).Stable () World.NoneOpen :=
  fun _ _ _ _ h hs => h.noneOpen hs

/-- A request that leaves the cycles alone. -/
def Op.leavesCycles {β : Type} : Op β → Prop
  | .rewardCycle (.findOne _ _) => True
  | .rewardCycle _ | .sendToAddress _ _ _ => False
  | _ => True

theorem SameCycles.of_answer {row : Option ObjectId} {out : Outcome} {r : Except JsError β}
    (hop : op.leavesCycles) (h : answer row op out v = some (r, w)) : SameCycles v w := by
  obtain ⟨hreceived, hconfirmed⟩ := answer_received h
  refine ⟨?_, Int.le_of_eq hreceived.symm, fun hdeep => by omega⟩
  by_cases hcycles : op.part = .rewardCycles
  · cases op with
    | rewardCycle q =>
        cases q with
        | findOne _ _ =>
            obtain ⟨_, _, _, rfl⟩ | ⟨_, hx, _⟩ := answer_cases h
            · rfl
            · cases hx
              rfl
        | _ => cases hop
    | _ => cases hcycles
  · exact (answer_frame h).rewardCycles hcycles

/-- What survives the others survives a request that leaves the cycles alone. -/
theorem open_beside (hop : op.leavesCycles) (hP : ∀ v w, SameCycles v w → P v → P w) :
    (openRules cfg).Performs () P op fun _ => P := by
  refine open_performs fun v out r w hi hs hans => ?_
  have hsame := SameCycles.of_answer hop hans
  exact ⟨hi.same hsame, hsame.openStep, hP v w hsame hs⟩

theorem open_keeps {prog : Promise α} (h : prog.Only Op.leavesCycles)
    (hP : ∀ v w, SameCycles v w → P v → P w) :
    (openRules cfg).Triple () P prog (fun _ => P) fun _ _ => True :=
  Triple.weaken (.harmless h (fun v w _ _ h => hP v w h) (fun _ _ _ => trivial) fun op hop =>
    open_beside hop hP) (fun _ _ h => h) (fun _ _ _ h => h) fun _ _ _ _ => trivial

theorem executeCycle_opensNone (cycle : RewardCycleDoc) :
    (executeCycle cfg cycle).Only Op.opensNone := by
  have hrows : RowRequests Op.opensNone cycle.id :=
    ⟨fun _ => trivial, fun _ => trivial, fun _ _ _ hopen => hopen⟩
  refine .bind (hrows.payoutSteps _ _ _ _ fun _ _ _ _ _ _ => trivial) fun failed =>
    finaliseCycle_only (fun _ => trivial) (fun _ => trivial) fun d _ hopen => ?_
  cases failed <;> cases hopen

theorem recordSkip_opensNone {status : RewardCycleStatus} (pool : Int) (count : Nat) (per : Int)
    (h : status ≠ .pending ∧ status ≠ .payingOut) :
    (recordSkip status pool count per).Only Op.opensNone := by
  refine .bind (.request trivial) fun now => .bind (.request ?_) fun _ => .request trivial
  simp [Op.opensNone, RewardCycleDoc.isResumable, h]

theorem claim_open :
    (openRules cfg).Performs () (fun _ => True)
      (.rewardCycle (.findOneAndUpdate RewardCycleDoc.isResumable
        (some RewardCycleDoc.createdAt) { status := some .payingOut }))
      (Answered (Found (fun _ _ => True) World.NoneOpen) fun _ => True) := by
  refine open_performs fun v out r w hi _ hans => ?_
  have hbefore : OpenBefore v w := by
    refine .of_answer ?_ hans
    exact fun _ hopen _ => hopen
  obtain ⟨hreceived, hconfirmed⟩ := answer_received hans
  refine ⟨hi.before hbefore (by rw [hreceived, hconfirmed]; exact hi.deep),
    fun d hd hopen => Or.inl (hbefore d hd hopen), ?_⟩
  obtain ⟨_, _, rfl, _⟩ | ⟨x, hx, ⟨_, rfl⟩ | ⟨_, _, rfl⟩⟩ := answer_cases hans
  · trivial
  · have heff := MasternodeRewardCycle.effect_findOneAndUpdate none RewardCycleDoc.isResumable
      (some RewardCycleDoc.createdAt) { status := some .payingOut } v
    cases hpick : pick RewardCycleDoc.isResumable (some RewardCycleDoc.createdAt)
      v.rewardCycles.docs with
    | none =>
        rw [hpick] at heff
        cases heff.symm.trans hx
        exact fun d hd => pick_none hpick hd
    | some d =>
        rw [hpick] at heff
        cases heff.symm.trans hx
        trivial
  · trivial

/-- The pool is what the node reports, and the node reports what was received. -/
theorem readPoolBalanceSats_open :
    (openRules cfg).Triple () World.NoneOpen (readPoolBalanceSats cfg) ReadyToOpen
      fun _ _ => True := by
  rw [readPoolBalanceSats]
  split
  · exact .throw noneOpen_stable fun _ _ _ => trivial
  · refine .call noneOpen_stable (.of_rest fun _ _ _ => trivial)
      (open_performs fun v out r w hi hs hans => ?_) (fun _ => ReadyToOpen.stable)
      fun _ _ _ _ _ _ => trivial
    have hsame : SameCycles v w := by
      refine .of_answer ?_ hans
      trivial
    refine ⟨hi.same hsame, hsame.openStep, ?_⟩
    obtain ⟨_, _, rfl, _⟩ | ⟨x, hx, ⟨_, rfl⟩ | ⟨_, _, rfl⟩⟩ := answer_cases hans
    · trivial
    · cases hx
      exact ⟨hs, hi.deep⟩
    · trivial

theorem readPool_open :
    (openRules cfg).Triple () World.NoneOpen (readPool cfg) (fun r => ReadyToOpen r.1)
      fun _ _ => True := by
  have hkept (pool : Int) (v w : World) (h : SameCycles v w) (hs : ReadyToOpen pool v) :
      ReadyToOpen pool w := ⟨h.noneOpen hs.1, Int.le_trans hs.2 h.received⟩
  have hnone (v w : World) (h : SameCycles v w) (hs : v.NoneOpen) : w.NoneOpen := h.noneOpen hs
  refine .bind (open_keeps (.request trivial) hnone) fun first => ?_
  split
  · refine .bind readPoolBalanceSats_open fun pool => ?_
    refine .bind (open_keeps (.request trivial) (hkept pool)) fun mnList => ?_
    exact .pure ReadyToOpen.stable fun _ _ h => h
  · refine .bind (open_keeps (.request trivial) hnone) fun mnList => ?_
    refine .bind readPoolBalanceSats_open fun pool => ?_
    exact .pure ReadyToOpen.stable fun _ _ h => h

/-- The cycle that is created is the only open one. -/
theorem create_open {doc : RewardCycleDoc} {pool : Int} (hpool : doc.poolBalanceFair = pool) :
    (openRules cfg).Performs () (ReadyToOpen pool) (.rewardCycle (.create doc))
      fun _ _ => True := by
  subst hpool
  refine open_performs fun v out r w hi hs hans => ?_
  obtain ⟨hreceived, hconfirmed⟩ := answer_received hans
  have hdeep : w.fair.confirmed ≤ w.fair.received := by
    rw [hreceived, hconfirmed]
    exact hi.deep
  have hsame (h : w.rewardCycles = v.rewardCycles) : OpenInv w ∧ OpenStep v w :=
    ⟨hi.before (.of_same h) hdeep, fun d hd hopen => Or.inl (OpenBefore.of_same h d hd hopen)⟩
  suffices h : OpenInv w ∧ OpenStep v w from ⟨h.1, h.2, trivial⟩
  obtain ⟨_, _, _, rfl⟩ | ⟨x, hx, _⟩ := answer_cases hans
  · exact hsame rfl
  · obtain ⟨_, _, rfl⟩ | ⟨_, rfl⟩ := MasternodeRewardCycle.effect_create hx
    · exact hsame rfl
    · have hnew : ∀ d ∈ (v.insertRewardCycle doc).rewardCycles.docs, d.isResumable = true →
          d = { doc with id := v.rewardCycles.nextId, createdAt := v.now } := by
        intro d hd hopen
        obtain hd | hd := List.mem_append.mp hd
        · cases (hs.1 d hd).symm.trans hopen
        · exact List.mem_singleton.mp hd
      refine ⟨⟨fun d hd e he hdopen heopen => ?_, hdeep⟩, fun d hd hopen => Or.inr ⟨hs.1, ?_⟩⟩
      · rw [hnew d hd hdopen, hnew e he heopen]
      · rw [hnew d hd hopen]
        exact hs.2

theorem sizeCycle_open (pool : Int) (mnList : List MasternodeListEntry) :
    (openRules cfg).Triple () (ReadyToOpen pool) (sizeCycle cfg pool mnList)
      (fun _ _ => True) fun _ _ => True := by
  have hkept (v w : World) (h : SameCycles v w) (hs : ReadyToOpen pool v) :
      ReadyToOpen pool w := ⟨h.noneOpen hs.1, Int.le_trans hs.2 h.received⟩
  have hskip : RewardCycleStatus.skippedBelowThreshold ≠ .pending ∧
      RewardCycleStatus.skippedBelowThreshold ≠ .payingOut := by decide
  refine .bind (open_keeps (.ofExcept _) hkept) fun minBalanceSats => ?_
  split
  · exact Triple.pre (open_only (recordSkip_opensNone _ _ _ hskip)) fun _ _ _ => trivial
  · split
    · exact Triple.pre (open_only (recordSkip_opensNone _ _ _ (by decide))) fun _ _ _ => trivial
    · refine .bind (open_keeps (.ofExcept _) hkept) fun per => ?_
      split
      · exact Triple.pre (open_only (recordSkip_opensNone _ _ _ hskip)) fun _ _ _ => trivial
      · refine .bind (open_keeps (.request trivial) hkept) fun now => ?_
        refine .bind (M := fun _ _ => True) (.request ReadyToOpen.stable
          (.of_rest fun _ _ _ => trivial) (create_open ?_) (fun _ _ _ _ _ _ _ => trivial)
          fun _ _ _ _ _ _ _ => trivial) fun cycle => open_only ?_
        · rfl
        refine .bind (.request trivial) fun found => ?_
        cases found with
        | none => trivial
        | some lean => exact executeCycle_opensNone lean

theorem runMasternodeRewardTick_open :
    (openRules cfg).Triple () (fun _ => True) (Task.program cfg .runMasternodeRewardTick)
      (fun _ _ => True) fun _ _ => True := by
  have hstable (found : Option RewardCycleDoc) : (openRules cfg).Stable ()
      (Found (fun _ _ => True) World.NoneOpen found) := by
    cases found with
    | none => exact noneOpen_stable
    | some _ => exact fun _ _ _ _ _ _ => trivial
  have hnone (v w : World) (h : SameCycles v w) (hs : v.NoneOpen) : w.NoneOpen := h.noneOpen hs
  change (openRules cfg).Triple () _ (FairBridge.runMasternodeRewardTick cfg) _ _
  rw [runMasternodeRewardTick]
  split
  · exact .pure (fun _ _ _ _ _ _ => trivial) fun _ _ _ => trivial
  · refine .bind (.step (fun _ _ _ _ _ _ => trivial) (fun _ _ _ => trivial) claim_open hstable)
      fun found => ?_
    cases found with
    | some cycle => exact open_only (executeCycle_opensNone cycle)
    | none =>
        refine .bind (open_keeps (.request trivial) hnone) fun now => ?_
        refine .bind (open_keeps (.bind (.request trivial) fun _ => trivial) hnone)
          fun recent => ?_
        split
        · exact .pure noneOpen_stable fun _ _ _ => trivial
        · exact .bind readPool_open fun pool => sizeCycle_open _ _

end Outline

/-- The shares of the rows that are not paid yet. -/
def World.unpaidShares (w : World) (d : RewardCycleDoc) : Int :=
  ∑ i ∈ Finset.range d.payouts.length,
    if (w.paidTo d.id i).isEmpty then d.perMasternodeFair else 0

/-- What has been paid was received, and so is what an open cycle still has to pay. -/
structure PoolInv (w : World) : Prop where
  spent : w.paidOut ≤ w.fair.received
  reserved : ∀ d ∈ w.rewardCycles.docs, d.isResumable = true →
    w.paidOut + w.unpaidShares d ≤ w.fair.received

theorem World.unpaidShares_congr {d e : RewardCycleDoc} (hid : d.id = e.id)
    (hlength : d.payouts.length = e.payouts.length)
    (hper : d.perMasternodeFair = e.perMasternodeFair)
    (hpaid : ∀ i, w.paidTo e.id i = v.paidTo e.id i) : w.unpaidShares d = v.unpaidShares e := by
  simp only [unpaidShares, hid, hlength, hper, hpaid]

/-- Nothing has been paid yet. -/
theorem World.unpaidShares_new {d : RewardCycleDoc} (h : ∀ i, w.paidTo d.id i = []) :
    w.unpaidShares d = d.payouts.length * d.perMasternodeFair := by
  simp [unpaidShares, h]

/-- A row is paid. -/
theorem World.unpaidShares_paid {d : RewardCycleDoc} {n : Nat} (hn : n < d.payouts.length)
    (hv : v.paidTo d.id n = []) (hw : w.paidTo d.id n ≠ [])
    (hother : ∀ i, i ≠ n → w.paidTo d.id i = v.paidTo d.id i) :
    w.unpaidShares d + d.perMasternodeFair = v.unpaidShares d := by
  have hmem : n ∈ Finset.range d.payouts.length := Finset.mem_range.mpr hn
  rw [unpaidShares, unpaidShares, ← Finset.add_sum_erase _ _ hmem,
    ← Finset.add_sum_erase (Finset.range d.payouts.length) _ hmem]
  have hrest : ∑ i ∈ (Finset.range d.payouts.length).erase n,
        (if (w.paidTo d.id i).isEmpty then d.perMasternodeFair else 0) =
      ∑ i ∈ (Finset.range d.payouts.length).erase n,
        if (v.paidTo d.id i).isEmpty then d.perMasternodeFair else 0 := by
    refine Finset.sum_congr rfl fun i hi => ?_
    rw [hother i (Finset.ne_of_mem_erase hi)]
  rw [hrest, hv, if_neg (by simpa using hw)]
  simp [Int.add_comm]

theorem World.unpaidShares_nonneg {d : RewardCycleDoc} (h : 0 ≤ d.perMasternodeFair) :
    0 ≤ w.unpaidShares d := by
  refine Finset.sum_nonneg fun i _ => ?_
  split
  · exact h
  · exact Int.le_refl 0

theorem World.paidOut_append {s : Send} (h : w.fair.sends = v.fair.sends ++ [s]) :
    w.paidOut = v.paidOut + if s.payout.isSome then s.sats else 0 := by
  rw [paidOut, h, List.filter_append, List.map_append, List.sum_append, ← paidOut]
  cases hs : s.payout.isSome <;> simp [hs]

theorem World.paidTo_append {s : Send} (h : w.fair.sends = v.fair.sends ++ [s]) (id : ObjectId)
    (i : Nat) : w.paidTo id i =
      v.paidTo id i ++ if s.payout = some (id, i) then [s] else [] := by
  rw [paidTo, h, List.filter_append, ← paidTo]
  by_cases hs : s.payout = some (id, i) <;> simp [hs]

section Step
variable (hv : ∀ id, PayoutInv cfg id v) (hw : ∀ id, PayoutInv cfg id w)
  (hstep : ∀ id, PayoutStep id v w)

include hstep in
/-- An open cycle was open before, or it is new. -/
theorem PayoutStep.opened {d : RewardCycleDoc} (hopened : OpenStep v w)
    (hd : d ∈ w.rewardCycles.docs) (hopen : d.isResumable = true) :
    (∃ e ∈ v.rewardCycles.docs, e.isResumable = true ∧ d.id = e.id ∧
      d.payouts.length = e.payouts.length ∧ d.perMasternodeFair = e.perMasternodeFair) ∨
    v.rewardCycles.get d.id = none ∧ v.NoneOpen ∧ d.poolBalanceFair ≤ v.fair.received := by
  have hget : w.rewardCycles.get d.id = some d := Collection.get_of_mem hd
  obtain ⟨e, he, heopen, hid⟩ | hnew := hopened d hd hopen
  · have hold : v.rewardCycles.get d.id = some e := hid ▸ Collection.get_of_mem he
    obtain ⟨d', hd', _, hlength, hper⟩ := (hstep d.id).same e hold
    cases hget.symm.trans hd'
    exact Or.inl ⟨e, he, heopen, hid.symm, hlength, hper⟩
  · refine Or.inr ⟨?_, hnew⟩
    cases hold : v.rewardCycles.get d.id with
    | none => rfl
    | some e =>
        obtain ⟨d', hd', hkept, _⟩ := (hstep d.id).same e hold
        cases hget.symm.trans hd'
        cases (hnew.1 e (Collection.get_mem hold)).symm.trans (hkept hopen)

include hv hw hstep in
/-- A step that pays nothing. -/
theorem PoolInv.unpaid (hi : PoolInv v) (hopened : OpenStep v w)
    (hfee : ∀ fee, cfg.masternodeRewardsPayoutFeeFair.toSats = .ok fee → 0 ≤ fee)
    (hout : w.paidOut = v.paidOut) (hpaid : ∀ id i, w.paidTo id i = v.paidTo id i)
    (hreceived : v.fair.received ≤ w.fair.received)
    (hcovered : ∀ d ∈ w.rewardCycles.docs, v.rewardCycles.get d.id = none → v.paidOut ≤ 0 ∨
      v.paidOut + d.payouts.length * d.perMasternodeFair ≤ v.fair.received) : PoolInv w where
  spent := by
    rw [hout]
    exact Int.le_trans hi.spent hreceived
  reserved d hd hopen := by
    refine Int.le_trans ?_ hreceived
    rw [hout]
    obtain ⟨e, he, heopen, hid, hlength, hper⟩ | ⟨hnone, _, hpool⟩ :=
      PayoutStep.opened hstep hopened hd hopen
    · rw [World.unpaidShares_congr hid hlength hper (hpaid e.id)]
      exact hi.reserved e he heopen
    · rw [World.unpaidShares_new fun i => (hpaid d.id i).trans ((hv d.id).absent hnone i)]
      cases hcovered d hd hnone with
      | inr hcovered => exact hcovered
      | inl hnothing =>
          by_cases hnil : d.payouts = []
          · simpa [hnil] using hi.spent
          · obtain ⟨fee, hok, hle, _⟩ :=
              ((hw d.id).accounts d (Collection.get_of_mem hd)).pool hnil
            have hpos : 0 ≤ (d.payouts.length : Int) * fee :=
              Int.mul_nonneg (Int.natCast_nonneg _) (hfee fee hok)
            omega

include hw hstep in
/-- A step that pays a row. -/
theorem PoolInv.paid (hi : PoolInv v) (hopened : OpenStep v w) (hsole : OpenInv v) {s : Send}
    {id : ObjectId} {n : Nat} (hsends : w.fair.sends = v.fair.sends ++ [s])
    (hpayout : s.payout = some (id, n)) (hpos : 0 < s.sats)
    (hreceived : v.fair.received ≤ w.fair.received) : PoolInv w := by
  have hpaid := World.paidTo_append hsends id n
  rw [if_pos hpayout] at hpaid
  have hother : ∀ i, i ≠ n → w.paidTo id i = v.paidTo id i := by
    intro i hin
    rw [World.paidTo_append hsends, if_neg (by simp [hpayout, Ne.symm hin]), List.append_nil]
  -- only an open cycle pays
  obtain ⟨e, he, heopen⟩ : ∃ e, v.rewardCycles.get id = some e ∧ e.isResumable = true := by
    by_contra hnone
    have hsame := (hstep id).shut (fun d hd => Bool.eq_false_iff.mpr
      fun hopen => hnone ⟨d, hd, hopen⟩) n
    rw [hpaid] at hsame
    simp at hsame
  have hid : e.id = id := Collection.get_id he
  obtain ⟨d, hd, _, hlength, hper⟩ := (hstep id).same e he
  -- and the row had not been paid
  obtain ⟨p, hp, hrow, hamount⟩ : ∃ p, d.payouts[n]? = some p ∧ v.paidTo id n = [] ∧
      s.sats = p.amountSats := by
    obtain ⟨hnil, _⟩ | ⟨p, t, hp, hone, _⟩ := (hw id).rows d hd n
    · simp [hpaid] at hnil
    · rw [hpaid] at hone
      cases hv : v.paidTo id n with
      | nil =>
          rw [hv] at hone
          cases hone
          exact ⟨p, hp, rfl, rfl⟩
      | cons _ _ => simp [hv] at hone
  have hshare : s.sats = e.perMasternodeFair := by
    rw [hamount, ((hw id).accounts d hd).shares p (List.mem_of_getElem? hp), hper]
  have hn : n < e.payouts.length := hlength ▸ (List.getElem?_eq_some_iff.mp hp).1
  have hout : w.paidOut = v.paidOut + e.perMasternodeFair := by
    rw [World.paidOut_append hsends, hpayout, ← hshare]
    rfl
  have hless : w.unpaidShares e + e.perMasternodeFair = v.unpaidShares e := by
    rw [← hid] at hrow hpaid hother
    refine World.unpaidShares_paid hn hrow ?_ hother
    simp [hpaid]
  have hreserved := hi.reserved e (Collection.get_mem he) heopen
  have hrest : 0 ≤ w.unpaidShares e := World.unpaidShares_nonneg (by omega)
  refine ⟨by omega, fun d' hd' hopen' => ?_⟩
  obtain ⟨e', he', heopen', hid', hlength', hper'⟩ | ⟨_, hnone, _⟩ :=
    PayoutStep.opened hstep hopened hd' hopen'
  · have hsame := hsole.sole e' he' e (Collection.get_mem he) heopen' heopen
    obtain rfl : e' = e := by
      have hget : v.rewardCycles.get e'.id = some e' := Collection.get_of_mem he'
      rw [hsame, hid] at hget
      exact Option.some.inj (hget.symm.trans he)
    rw [World.unpaidShares_congr hid' hlength' hper' fun _ => rfl]
    omega
  · cases (hnone e (Collection.get_mem he)).symm.trans heopen

end Step

/-- A request pays at most once, and something. -/
theorem answer_sends {β : Type} {op : Op β} {row : Option ObjectId} {out : Outcome}
    {r : Except JsError β} (h : answer row op out v = some (r, w)) :
    w.fair.sends = v.fair.sends ∨
      ∃ s, w.fair.sends = v.fair.sends ++ [s] ∧ 0 < s.sats := by
  by_cases hpayments : op.part = .payments
  · cases op with
    | sendToAddress _ _ _ =>
        obtain ⟨_, _, _, rfl⟩ | ⟨_, hx, _⟩ := answer_cases h
        · exact Or.inl rfl
        · obtain ⟨_, _, rfl⟩ | ⟨_, rfl, hpos, _⟩ := effect_sendToAddress hx
          · exact Or.inl rfl
          · exact Or.inr ⟨_, rfl, hpos⟩
    | _ => cases hpayments
  · exact Or.inl (congrArg FairNode.sends ((answer_frame h).fair hpayments))

/-- A cycle that is new has been created by the request. -/
theorem answer_covered {β : Type} {op : Op β} {row : Option ObjectId} {out : Outcome}
    {r : Except JsError β} (h : answer row op out v = some (r, w)) (hop : op.overdraws v = false) :
    ∀ d ∈ w.rewardCycles.docs, v.rewardCycles.get d.id = none → v.paidOut ≤ 0 ∨
      v.paidOut + d.payouts.length * d.perMasternodeFair ≤ v.fair.received := by
  intro d hd hnone
  have hold (hmem : d ∈ v.rewardCycles.docs) {P : Prop} : P := by
    cases hnone.symm.trans (Collection.get_of_mem hmem)
  have hsame (hc : w.rewardCycles = v.rewardCycles) {P : Prop} : P := hold (hc ▸ hd)
  have hupdated {filter : RewardCycleDoc → Bool} {sort : Option (RewardCycleDoc → Nat)}
      {u : RewardCycleSet} {P : Prop}
      (hw : w.rewardCycles = (v.rewardCycles.update refusals.duplicate filter sort u).2) : P := by
    obtain ⟨_, hc⟩ | ⟨_, _, _, _, _, hc⟩ | ⟨e, he, _, _, _, hc⟩ :=
      v.rewardCycles.update_cases refusals.duplicate filter sort u
    · exact hsame (hw.trans (congrArg Prod.snd hc))
    · exact hsame (hw.trans (congrArg Prod.snd hc))
    · rw [hw, hc] at hd
      obtain ⟨e', he', rfl⟩ | ⟨hmem, _⟩ := Collection.mem_modify.mp hd
      · cases he.symm.trans he'
        cases hnone.symm.trans he
      · exact hold hmem
  by_cases hcycles : op.part = .rewardCycles
  · cases op with
    | rewardCycle q =>
        obtain ⟨_, _, _, rfl⟩ | ⟨x, hx, _⟩ := answer_cases h
        · exact hsame rfl
        · cases q with
          | findOne _ _ => cases hx; exact hsame rfl
          | find _ limit => cases hx; cases limit <;> exact hsame rfl
          | updateOne _ _ | findOneAndUpdate _ _ _ => cases hx; exact hupdated rfl
          | create doc =>
              obtain ⟨_, _, rfl⟩ | ⟨_, rfl⟩ := MasternodeRewardCycle.effect_create hx
              · exact hsame rfl
              · obtain hmem | hnew := List.mem_append.mp hd
                · exact hold hmem
                · cases List.mem_singleton.mp hnew
                  simp only [Op.overdraws, decide_eq_false_iff_not, not_and, not_lt] at hop
                  by_cases hpos : 0 < v.paidOut
                  · exact Or.inr (hop hpos)
                  · exact Or.inl (by omega)
    | _ => cases hcycles
  · exact hsame ((answer_frame h).rewardCycles hcycles)

theorem PoolInv.same (hi : PoolInv v) (hcycles : w.rewardCycles = v.rewardCycles)
    (hsends : w.fair.sends = v.fair.sends) (hreceived : v.fair.received ≤ w.fair.received) :
    PoolInv w := by
  have hout : w.paidOut = v.paidOut := by rw [World.paidOut, World.paidOut, hsends]
  refine ⟨by rw [hout]; exact Int.le_trans hi.spent hreceived, fun d hd hopen => ?_⟩
  have hpaid : ∀ i, w.paidTo d.id i = v.paidTo d.id i := by
    intro i
    rw [World.paidTo, World.paidTo, hsends]
  rw [hout, World.unpaidShares_congr rfl rfl rfl hpaid]
  exact Int.le_trans (hi.reserved d (hcycles ▸ hd) hopen) hreceived

/-- All that is known of a pool of reward ticks. -/
structure PoolGood (cfg : Config) (p : Pool Op JsError World Unit) : Prop where
  payouts : ∀ id, Good (payoutRules cfg false id) p p.world
  opened : Good (openRules cfg) p p.world
  paid : PoolInv p.world

theorem open_starts : (openRules cfg).Starts := by
  intro i t s hi _ hready
  cases t with
  | runMasternodeRewardTick => exact runMasternodeRewardTick_open s hi trivial
  | _ => cases hready

variable {p q : Pool Op JsError World Unit} {e : Event JsError Unit Task EnvEvent}

theorem PoolGood.next (h : PoolGood cfg p)
    (hfee : ∀ fee, cfg.masternodeRewardsPayoutFeeFair.toSats = .ok fee → 0 ≤ fee)
    (hn : (service cfg (rewardRuns false)).next p e = some q)
    (hop : System.Asks (fun p _ op => op.overdraws p.world = false) p e) : PoolGood cfg q := by
  have hpermit (id : ObjectId) : Permitted (payoutRules cfg false id) p p.world e :=
    .of_all (fun _ _ _ => by rintro ⟨⟩) p p.world e
  have hallowed : Permitted (openRules cfg) p p.world e := .of_all (fun _ _ _ => trivial) p p.world e
  have hpayouts (id : ObjectId) : Good (payoutRules cfg false id) q q.world := by
    obtain ⟨t, ht, _⟩ := (h.payouts id).next payouts_starts (hpermit id) hn
    have hworld : t = q.world := ht.world
    exact hworld ▸ ht
  have hopened : Good (openRules cfg) q q.world := by
    obtain ⟨t, ht, _⟩ := h.opened.next open_starts hallowed hn
    have hworld : t = q.world := ht.world
    exact hworld ▸ ht
  refine ⟨hpayouts, hopened, ?_⟩
  cases e with
  | start i t =>
      simp only [System.next] at hn
      split at hn <;> cases hn
      exact h.paid
  | kill i =>
      simp only [System.next] at hn
      split at hn
      · split at hn <;> cases hn
        exact h.paid
      · cases hn
  | env e =>
      obtain ⟨w, hw, rfl⟩ := Option.map_eq_some_iff.mp hn
      have hsame := EnvEvent.occur_sameCycles (service_env hw).2
      exact h.paid.same hsame.cycles (EnvEvent.occur_surroundings (service_env hw).2).sends
        hsame.received
  | step i out =>
      have hstep (id : ObjectId) : PayoutStep id p.world q.world := by
        obtain ⟨t, ht, hguar⟩ := (h.payouts id).step (hpermit id) hn
        have hworld : t = q.world := ht.world
        exact hworld ▸ hguar
      have hopens : OpenStep p.world q.world := by
        obtain ⟨t, ht, hguar⟩ := h.opened.step hallowed hn
        have hworld : t = q.world := ht.world
        exact hworld ▸ hguar
      have hv (id : ObjectId) : PayoutInv cfg id p.world := (h.payouts id).inv
      have hw (id : ObjectId) : PayoutInv cfg id q.world := (hpayouts id).inv
      simp only [System.next] at hn
      simp only [System.Asks] at hop
      split at hn
      · rename_i op k hslot
        rw [hslot] at hop
        split at hn <;> try contradiction
        obtain ⟨⟨r, w⟩, hans, rfl⟩ := Option.map_eq_some_iff.mp hn
        have hreceived := Int.le_of_eq (answer_received hans).1.symm
        have hnothing (hout : World.paidOut w = p.world.paidOut)
            (hpaid : ∀ id i, World.paidTo w id i = p.world.paidTo id i) : PoolInv w :=
          h.paid.unpaid hv hw hstep hopens hfee hout hpaid hreceived (answer_covered hans hop)
        obtain hsends | ⟨s, hsends, hpos⟩ := answer_sends hans
        · refine hnothing ?_ fun id i => ?_
          · rw [World.paidOut, World.paidOut, hsends]
          · rw [World.paidTo, World.paidTo, hsends]
        · cases hpayout : s.payout with
          | none =>
              refine hnothing ?_ fun id i => ?_
              · simp [World.paidOut_append hsends, hpayout]
              · simp [World.paidTo_append hsends, hpayout]
          | some row =>
              exact h.paid.paid hw hstep hopens h.opened.inv hsends hpayout hpos hreceived
      · cases hn

namespace Sample

/-- A cycle pays the pool, and after more than the interval another is created. -/
def twoCycles : List (Event JsError Unit Task EnvEvent) :=
  .start () .runMasternodeRewardTick :: List.replicate 18 (.step () .done) ++
    .env (.wait 604800001) :: .start () .runMasternodeRewardTick ::
      List.replicate 15 (.step () .done)

/-- The same, but as much again has been received in the meantime, and is not deep enough
to be reported. -/
def creditedCycles : List (Event JsError Unit Task EnvEvent) :=
  .env (.credit 2000000000) :: twoCycles

end Sample

end FairBridge

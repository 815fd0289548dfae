import FairBridge.Async.History
import FairBridge.Guarantees.PayoutAccounts

/-!
Reward ticks that overlap. A cycle can be claimed by any number of ticks, and each of them
pays the rows of its own copy; two ticks can also find that no cycle is recent and create
one each.
-/

namespace FairBridge
open Store Async Async.Rules

/-- What is kept of the ticks beside the world: the tick that claimed or created the cycle and
may still be at it, the rows of the cycle for which a payment was called, and how many cycles
there were when a tick last looked. -/
structure TickRecord (ι : Type) where
  holder : Option ι := none
  calls : List Nat := []
  seen : ι → Nat := fun _ => 0

variable {ι : Type}

/-- Who holds the cycle when `i` starts a tick: no longer its own last one. -/
def TickRecord.besides [DecidableEq ι] (h : TickRecord ι) (i : ι) : Option ι :=
  if h.holder = some i then none else h.holder

def noteTick [DecidableEq ι] (id : ObjectId) {β : Type} (i : ι) (op : Op β) (out : Outcome)
    (w : World) (h : TickRecord ι) : TickRecord ι :=
  match op with
  | .rewardCycle (.findOneAndUpdate filter sort _) =>
      if out.isDone && (pick filter sort w.rewardCycles.docs).any fun d => d.id == id then
        { h with holder := (h.besides i).or (some i) }
      else { h with holder := h.besides i }
  | .rewardCycle (.create d) =>
      if out.isDone && rewardCycleSchema.valid d && w.rewardCycles.nextId == id then
        { h with holder := some i }
      else h
  | .rewardCycle (.findOne _ _) =>
      { h with seen := Function.update h.seen i w.rewardCycles.nextId }
  | .sendToAddress _ _ (some (cycle, index)) =>
      if cycle = id then { h with calls := h.calls ++ [index] } else h
  | _ => h

/-- A tick claims the cycle with a row to be paid although another tick holds it or the row has
been called for, or creates a cycle although one has been created since it looked. -/
def Op.overlapsTick [DecidableEq ι] (id : ObjectId) {β : Type} (i : ι) (op : Op β) (w : World)
    (h : TickRecord ι) : Bool :=
  match op with
  | .rewardCycle (.findOneAndUpdate filter sort _) =>
      (pick filter sort w.rewardCycles.docs).any fun d => d.id == id &&
        d.payouts.zipIdx.any fun p =>
          p.1.txid.isNone && ((h.besides i).isSome || h.calls.contains p.2)
  | .rewardCycle (.create _) => h.seen i != w.rewardCycles.nextId
  | _ => false

/-- Any number of reward ticks, and any faults. -/
def tickRuns : Faults ι where
  ready _ _ t := match t with
    | .runMasternodeRewardTick => true
    | _ => false
  may _ _ _ _ := true
  mayKill _ _ _ := true
  row _ := none

variable [DecidableEq ι] {id : ObjectId} {cfg : Config} {i j : ι} {v w : World}

/-- The service, with the record of its ticks. -/
def ticking (cfg : Config) (id : ObjectId) :
    System Op JsError (World × TickRecord ι) ι Task EnvEvent :=
  (service cfg tickRuns).recordedBy (noteTick id)

/-- No request loses a cycle. -/
theorem answer_keepsCycle {β : Type} {op : Op β} {row : Option ObjectId} {out : Outcome}
    {r : Except JsError β} (h : answer row op out v = some (r, w)) {d : RewardCycleDoc}
    (hd : v.rewardCycles.get id = some d) :
    ∃ e, w.rewardCycles.get id = some e ∧ e.triggeredAt = d.triggeredAt := by
  by_cases hcycles : op.part = .rewardCycles
  · cases op with
    | rewardCycle q =>
        obtain ⟨_, _, _, rfl⟩ | ⟨_, hx, _⟩ := answer_cases h
        · exact ⟨d, hd, rfl⟩
        · cases hx
          exact Query.run_keeps (P := fun e : RewardCycleDoc => e.triggeredAt = d.triggeredAt)
            (fun _ _ he => he) refusals v.now q hd rfl
    | _ => cases hcycles
  · exact ⟨d, (congrArg (fun c => c.get id) ((answer_frame h).rewardCycles hcycles)).trans hd, rfl⟩

section Calls
variable {s t : World × TickRecord ι} {rows : List PayoutDoc} {n : Nat}

/-- A row is called for once at most, and a cycle that is not there is held by nobody. -/
structure CallsInv (id : ObjectId) (s : World × TickRecord ι) : Prop where
  once : s.2.calls.Nodup
  absent : s.1.rewardCycles.get id = none → s.2.holder = none ∧ s.2.calls = []

/-- The holder stays the holder, and nobody else calls for its rows. -/
def HolderKept (i : ι) (s t : World × TickRecord ι) : Prop :=
  s.2.holder = some i → t.2.holder = some i ∧ t.2.calls = s.2.calls

theorem HolderKept.refl (i : ι) (s : World × TickRecord ι) : HolderKept i s s := fun h => ⟨h, rfl⟩

theorem HolderKept.trans {u : World × TickRecord ι} (h : HolderKept i s t)
    (h' : HolderKept i t u) : HolderKept i s u := by
  intro hs
  obtain ⟨ht, hcalls⟩ := h hs
  obtain ⟨hu, hcalls'⟩ := h' ht
  exact ⟨hu, hcalls'.trans hcalls⟩

def callRules (cfg : Config) (id : ObjectId) :
    Rules (ticking cfg id : System Op JsError (World × TickRecord ι) ι Task EnvEvent)
      (World × TickRecord ι) where
  world s := s
  inv := CallsInv id
  rely := HolderKept
  guar i s t := ∀ j, i ≠ j → HolderKept j s t
  rest _ _ := True
  hist _ _ := True
  permits i op s := op.overlapsTick id i s.1 s.2 = false
  rely_refl := .refl
  rely_trans := .trans
  guar_refl _ s := fun j _ => .refl j s
  guar_rely hij _ _ h := h _ hij
  rest_stable _ _ _ _ := trivial
  hist_refl _ := trivial
  hist_trans _ _ := trivial
  guar_hist _ _ _ := trivial
  env_step {e s w} hi he := by
    obtain ⟨v, hv, rfl⟩ := Option.map_eq_some_iff.mp he
    have hcycles := (EnvEvent.occur_surroundings (service_env hv).2).rewardCycles
    refine ⟨(v, s.2), rfl, ⟨hi.once, fun hnone => hi.absent ?_⟩, trivial, fun i => .refl i s⟩
    rw [← hcycles]
    exact hnone

/-- The tick holds the cycle, and of the rows from `n` on none that is to be paid has been
called for. -/
def HoldsRows (i : ι) (n : Nat) (rows : List PayoutDoc) (s : World × TickRecord ι) : Prop :=
  s.2.holder = some i ∧ ∀ k p, rows[k]? = some p → p.txid = none → n + k ∉ s.2.calls

theorem HoldsRows.later {p : PayoutDoc} (h : HoldsRows i n (p :: rows) s) :
    HoldsRows i (n + 1) rows s := by
  refine ⟨h.1, fun k q hq hnone => ?_⟩
  have hcalls := h.2 (k + 1) q (by simpa using hq) hnone
  rwa [show n + 1 + k = n + (k + 1) by omega]

/-- What only speaks of the holder and its calls. -/
def OfCalls (P : World × TickRecord ι → Prop) : Prop :=
  ∀ s t, t.2.holder = s.2.holder → t.2.calls = s.2.calls → P s → P t

theorem HoldsRows.kept : OfCalls (HoldsRows i n rows) := by
  intro s t hholder hcalls hs
  refine ⟨hholder.trans hs.1, ?_⟩
  rw [hcalls]
  exact hs.2

theorem HoldsRows.stable : (callRules cfg id).Stable i (HoldsRows i n rows) := by
  intro s t _ _ hst hs
  obtain ⟨hholder, hcalls⟩ := hst hs.1
  exact HoldsRows.kept s t (hholder.trans hs.1.symm) hcalls hs

/-- The request neither claims nor creates a cycle, and calls for no row of the cycle. -/
def Op.sparesTick (id : ObjectId) {β : Type} : Op β → Prop
  | .rewardCycle (.findOneAndUpdate _ _ _) | .rewardCycle (.create _) => False
  | .sendToAddress _ _ payout => ∀ n, payout ≠ some (id, n)
  | _ => True

theorem Op.sparesTick.note {β : Type} {op : Op β} (hop : op.sparesTick id) (i : ι) (out : Outcome)
    (w : World) (h : TickRecord ι) :
    (noteTick id i op out w h).holder = h.holder ∧ (noteTick id i op out w h).calls = h.calls := by
  cases op with
  | rewardCycle q =>
      cases q with
      | findOneAndUpdate _ _ _ | create _ => cases hop
      | _ => exact ⟨rfl, rfl⟩
  | sendToAddress address amountFair payout =>
      cases payout with
      | none => exact ⟨rfl, rfl⟩
      | some row =>
          have hne : row.1 ≠ id := by
            rintro rfl
            exact hop row.2 rfl
          simp [noteTick, hne]
  | _ => exact ⟨rfl, rfl⟩

variable {α β : Type} {op : Op β} {P : World × TickRecord ι → Prop}

theorem CallsInv.present {row : Option ObjectId} {out : Outcome} {r : Except JsError β}
    (hi : CallsInv id s) (hans : answer row op out s.1 = some (r, w))
    (hnone : w.rewardCycles.get id = none) : s.2.holder = none ∧ s.2.calls = [] := by
  refine hi.absent ?_
  cases hd : s.1.rewardCycles.get id with
  | none => rfl
  | some d =>
      obtain ⟨e, he, _⟩ := answer_keepsCycle hans hd
      cases hnone.symm.trans he

theorem calls_performs {M : Except JsError β → World × TickRecord ι → Prop}
    (h : ∀ s out r w, CallsInv id s → P s → op.overlapsTick id i s.1 s.2 = false →
      answer none op out s.1 = some (r, w) →
      CallsInv id (w, noteTick id i op out s.1 s.2) ∧
        (∀ j, i ≠ j → HolderKept j s (w, noteTick id i op out s.1 s.2)) ∧
        M r (w, noteTick id i op out s.1 s.2)) :
    (callRules cfg id).Performs i P op M := by
  intro s out r t hi hs hperm _ hans
  obtain ⟨⟨x, w⟩, hw, rfl, rfl⟩ := Option.map_eq_some_iff.mp hans
  exact ⟨_, rfl, h s out x w hi hs hperm hw⟩

/-- What is known of the holder and its calls survives every other request. -/
theorem calls_only {prog : Promise α} (h : prog.Only fun op => op.sparesTick id)
    (hstable : (callRules cfg id).Stable i P) (hP : OfCalls P) :
    (callRules cfg id).Triple i P prog (fun _ => P) fun _ => P := by
  refine .harmless h hstable (fun _ _ _ => trivial) fun op hop =>
    calls_performs fun s out r w hi hs _ hans => ?_
  obtain ⟨hholder, hcalls⟩ := hop.note i out s.1 s.2
  refine ⟨⟨?_, fun hnone => ?_⟩, fun j _ hj => ⟨hholder.trans hj, hcalls⟩,
    hP _ _ hholder hcalls hs⟩
  · rw [hcalls]
    exact hi.once
  · rw [hholder, hcalls]
    exact hi.present hans hnone

theorem holding_only {prog : Promise α} (h : prog.Only fun op => op.sparesTick id) :
    (callRules cfg id).Triple i (HoldsRows i n rows) prog (fun _ => HoldsRows i n rows)
      fun _ _ => True :=
  Triple.weaken (calls_only h HoldsRows.stable HoldsRows.kept) (fun _ _ h => h) (fun _ _ _ h => h)
    fun _ _ _ _ => trivial

theorem idle_only {prog : Promise α} (h : prog.Only fun op => op.sparesTick id) :
    (callRules cfg id).Triple i (fun _ => True) prog (fun _ _ => True) fun _ _ => True :=
  calls_only h (fun _ _ _ _ _ _ => trivial) fun _ _ _ _ _ => trivial

theorem rowRequests_sparesTick (cycleId : ObjectId) :
    RowRequests (fun op => op.sparesTick id) cycleId :=
  ⟨fun _ => trivial, fun _ => trivial, fun _ => trivial⟩

theorem finaliseCycle_sparesTick (cycleId : ObjectId) (failed : Bool) :
    (finaliseCycle cycleId failed).Only fun op => op.sparesTick id :=
  finaliseCycle_only (fun _ => trivial) (fun _ => trivial) trivial

/-- The holder calls for a row that is to be paid. -/
theorem send_calls {p : PayoutDoc} (hp : p.txid = none) (address : String) (amountFair : ℚ) :
    (callRules cfg id).Performs i (HoldsRows i n (p :: rows))
      (.sendToAddress address amountFair (some (id, n))) fun _ => HoldsRows i (n + 1) rows := by
  refine calls_performs fun s out r w hi hs _ hans => ?_
  have hnote : noteTick id i (.sendToAddress address amountFair (some (id, n))) out s.1 s.2 =
      { s.2 with calls := s.2.calls ++ [n] } := by simp [noteTick]
  rw [hnote]
  refine ⟨⟨?_, fun hnone => ?_⟩, fun j hij hj => ?_, hs.1, fun k q hq hnone hmem => ?_⟩
  · refine List.nodup_append.mpr ⟨hi.once, List.nodup_singleton n, ?_⟩
    rintro m hm k hk rfl
    cases List.mem_singleton.mp hk
    exact hs.2 0 p rfl hp hm
  · cases hs.1.symm.trans (hi.present hans hnone).1
  · exact absurd (Option.some.inj (hs.1.symm.trans hj)) hij
  · obtain hm | hm := List.mem_append.mp hmem
    · exact hs.later.2 k q hq hnone hm
    · have heq := List.mem_singleton.mp hm
      omega

theorem payoutStep_calls (skip : List String) (p : PayoutDoc) :
    (callRules cfg id).Triple i (HoldsRows i n (p :: rows)) (payoutStep cfg id skip n p)
      (fun _ => HoldsRows i (n + 1) rows) fun _ _ => True := by
  rw [payoutStep]
  split
  · refine Triple.weaken (holding_only ((rowRequests_sparesTick id).reconcilePayout _ _ _)) (fun _ _ h => h)
      (fun _ _ _ h => h.later) fun _ _ _ h => h
  · rename_i hp
    split
    · exact .pure HoldsRows.stable fun _ _ h => h.later
    · refine .tryCatch (M := fun _ => HoldsRows i (n + 1) rows) ?_ fun err => ?_
      · refine .bind (.request HoldsRows.stable (.of_rest fun _ _ _ => trivial)
          (send_calls hp _ _) (fun _ => HoldsRows.stable) fun _ => HoldsRows.stable) fun t => ?_
        exact calls_only (.bind (.request trivial) fun _ => .bind (.request trivial)
          fun _ => trivial) HoldsRows.stable HoldsRows.kept
      · exact holding_only ((rowRequests_sparesTick id).failRow _ _ _)

/-- By induction on the rows that are left. -/
theorem payoutSteps_calls (skip : List String) (failed : Bool) (payouts : List PayoutDoc) :
    (callRules cfg id).Triple i (HoldsRows i n payouts) (payoutSteps cfg id skip n failed payouts)
      (fun _ _ => True) fun _ _ => True := by
  induction payouts generalizing n failed with
  | nil => exact .pure HoldsRows.stable fun _ _ _ => trivial
  | cons p payouts ih => exact .bind (payoutStep_calls skip p) fun _ => ih _

/-- The cycle a tick goes on with: it is another, it has no row to be paid, or the tick holds
it. -/
def HeldCycle (id : ObjectId) (i : ι) (cycle : RewardCycleDoc) (s : World × TickRecord ι) : Prop :=
  cycle.id = id → (∀ p ∈ cycle.payouts, p.txid.isSome = true) ∨ HoldsRows i 0 cycle.payouts s

theorem HeldCycle.stable {cycle : RewardCycleDoc} :
    (callRules cfg id).Stable i (HeldCycle id i cycle) :=
  fun s t hs ht hst h hid => (h hid).imp_right (HoldsRows.stable s t hs ht hst)

theorem executeCycle_calls (cycle : RewardCycleDoc) :
    (callRules cfg id).Triple i (HeldCycle id i cycle) (executeCycle cfg cycle)
      (fun _ _ => True) fun _ _ => True := by
  by_cases hspared : cycle.id ≠ id ∨ ∀ p ∈ cycle.payouts, p.txid.isSome = true
  · refine Triple.pre (idle_only (.bind ((rowRequests_sparesTick cycle.id).payoutSteps _ _ _ _
      fun p hp hnone n _ _ m => ?_) fun _ => finaliseCycle_sparesTick _ _)) fun _ _ _ => trivial
    rintro ⟨⟩
    have hsome := hspared.resolve_left (not_not.mpr rfl) p hp
    rw [hnone] at hsome
    cases hsome
  · obtain ⟨hid, hrows⟩ := not_or.mp hspared
    obtain rfl := not_not.mp hid
    refine Triple.pre (P := HoldsRows i 0 cycle.payouts) ?_ fun s _ hs => (hs rfl).resolve_left hrows
    exact .bind (payoutSteps_calls _ _ _) fun _ => idle_only (finaliseCycle_sparesTick _ _)

/-- A cycle is claimed. -/
theorem claim_calls :
    (callRules cfg id).Performs i (fun _ => True)
      (.rewardCycle (.findOneAndUpdate RewardCycleDoc.isResumable
        (some RewardCycleDoc.createdAt) { status := some .payingOut }))
      (Answered (Found (HeldCycle id i) fun _ => True) fun _ => True) := by
  refine calls_performs fun s out r w hi _ hperm hans => ?_
  have hnote : noteTick id i (.rewardCycle (.findOneAndUpdate RewardCycleDoc.isResumable
      (some RewardCycleDoc.createdAt) { status := some .payingOut })) out s.1 s.2 =
      if out.isDone && (pick RewardCycleDoc.isResumable (some RewardCycleDoc.createdAt)
          s.1.rewardCycles.docs).any (fun d => d.id == id) then
        { s.2 with holder := (s.2.besides i).or (some i) }
      else { s.2 with holder := s.2.besides i } := rfl
  rw [hnote]
  have hbesides (j : ι) (hij : i ≠ j) (hj : s.2.holder = some j) : s.2.besides i = some j := by
    rw [TickRecord.besides, hj, if_neg (by simpa using Ne.symm hij)]
  refine ⟨?_, fun j hij hj => ?_, ?_⟩
  · split
    · rename_i hpicked
      refine ⟨hi.once, fun hnone => ?_⟩
      cases hpick : pick RewardCycleDoc.isResumable (some RewardCycleDoc.createdAt)
        s.1.rewardCycles.docs with
      | none => simp [hpick] at hpicked
      | some d =>
          have hid : out.isDone = true ∧ d.id = id := by simpa [hpick] using hpicked
          obtain rfl := hid.2
          obtain ⟨e, he, _⟩ := answer_keepsCycle hans
            (Collection.get_of_mem (pick_some hpick).1 : s.1.rewardCycles.get d.id = some d)
          cases hnone.symm.trans he
    · refine ⟨hi.once, fun hnone => ?_⟩
      obtain ⟨hholder, hcalls⟩ := hi.present hans hnone
      exact ⟨by simp [TickRecord.besides, hholder], hcalls⟩
  · have hheld := hbesides j hij hj
    split
    · exact ⟨by simp [hheld], rfl⟩
    · exact ⟨hheld, rfl⟩
  · obtain ⟨_, _, rfl, _⟩ | ⟨x, hx, ⟨rfl, rfl⟩ | ⟨_, _, rfl⟩⟩ := answer_cases hans
    · trivial
    · have heff := MasternodeRewardCycle.effect_findOneAndUpdate none RewardCycleDoc.isResumable
        (some RewardCycleDoc.createdAt) { status := some .payingOut } s.1
      cases hpick : pick RewardCycleDoc.isResumable (some RewardCycleDoc.createdAt)
        s.1.rewardCycles.docs with
      | none =>
          rw [hpick] at heff
          cases heff.symm.trans hx
          trivial
      | some d =>
          rw [hpick] at heff
          cases heff.symm.trans hx
          intro hid
          have hid : d.id = id := hid
          simp only [Op.overlapsTick, hpick, Option.any_some, hid, beq_self_eq_true,
            Bool.true_and, List.any_eq_false] at hperm
          simp only [Outcome.isDone, Option.any_some, hid, beq_self_eq_true, Bool.true_and, if_true]
          by_cases hrows : ∀ p ∈ d.payouts, p.txid.isSome = true
          · exact Or.inl hrows
          · refine Or.inr ⟨?_, fun k p hp hnone => ?_⟩
            · obtain ⟨p, hp⟩ := not_forall.mp hrows
              obtain ⟨hmem, hnone⟩ := Classical.not_imp.mp hp
              obtain ⟨k, hk, rfl⟩ := List.getElem_of_mem hmem
              have hfree := hperm (d.payouts[k], k) (List.mem_zipIdx_iff_getElem?.mpr
                (List.getElem?_eq_getElem hk))
              have hrow : d.payouts[k].txid = none := by simpa using hnone
              have hbeside : s.2.besides i = none := by
                cases hb : s.2.besides i with
                | none => rfl
                | some _ => simp [hb, hrow] at hfree
              simp [hbeside]
            · have hfree := hperm (p, k) (List.mem_zipIdx_iff_getElem?.mpr hp)
              simp [hnone] at hfree
              simpa using hfree.2
    · trivial

/-- Nothing has been called for yet. -/
def FreshlyHeld (id : ObjectId) (i : ι) (cycle : RewardCycleDoc) (s : World × TickRecord ι) :
    Prop :=
  cycle.id = id → s.2.holder = some i ∧ s.2.calls = []

theorem FreshlyHeld.kept {cycle : RewardCycleDoc} : OfCalls (FreshlyHeld id i cycle) := by
  intro s t hholder hcalls h hid
  obtain ⟨hi, hnil⟩ := h hid
  exact ⟨hholder.trans hi, hcalls.trans hnil⟩

theorem FreshlyHeld.stable {cycle : RewardCycleDoc} :
    (callRules cfg id).Stable i (FreshlyHeld id i cycle) := by
  intro s t _ _ hst h hid
  obtain ⟨hi, hnil⟩ := h hid
  obtain ⟨hholder, hcalls⟩ := hst hi
  exact ⟨hholder, hcalls.trans hnil⟩

/-- A cycle is created, and held by the tick that creates it. -/
theorem create_calls (doc : RewardCycleDoc) :
    (callRules cfg id).Performs i (fun _ => True) (.rewardCycle (.create doc))
      (Answered (FreshlyHeld id i) fun _ => True) := by
  refine calls_performs fun s out r w hi _ _ hans => ?_
  have hnote : noteTick id i (.rewardCycle (.create doc)) out s.1 s.2 =
      if out.isDone && rewardCycleSchema.valid doc && s.1.rewardCycles.nextId == id then
        { s.2 with holder := some i }
      else s.2 := rfl
  rw [hnote]
  by_cases hnew : (out.isDone && rewardCycleSchema.valid doc &&
    s.1.rewardCycles.nextId == id) = true
  · rw [if_pos hnew]
    simp only [Bool.and_eq_true, beq_iff_eq] at hnew
    obtain ⟨⟨hdone, hvalid⟩, rfl⟩ := hnew
    have hnone := hi.absent (Collection.get_nextId s.1.rewardCycles)
    obtain ⟨_, rfl, _⟩ | ⟨x, hx, ⟨rfl, rfl⟩ | ⟨_, rfl, _⟩⟩ := answer_cases hans
    · cases hdone
    · rw [MasternodeRewardCycle.effect_create_eq, if_pos hvalid] at hx
      cases hx
      refine ⟨⟨hi.once, fun habsent => ?_⟩, fun j _ hj => ?_, fun _ => ⟨rfl, hnone.2⟩⟩
      · have hget := s.1.rewardCycles.get_insert s.1.now doc s.1.rewardCycles.nextId
        rw [if_pos rfl] at hget
        cases habsent.symm.trans hget
      · cases hnone.1.symm.trans hj
    · cases hdone
  · rw [if_neg hnew]
    refine ⟨⟨hi.once, hi.present hans⟩, fun j _ => .refl j s, ?_⟩
    obtain ⟨_, _, rfl, _⟩ | ⟨x, hx, ⟨rfl, rfl⟩ | ⟨_, _, rfl⟩⟩ := answer_cases hans
    · trivial
    · rw [MasternodeRewardCycle.effect_create_eq] at hx
      split at hx <;> cases hx
      · rename_i hvalid
        intro hid
        have hid : s.1.rewardCycles.nextId = id := hid
        exact absurd (by simp [Outcome.isDone, hvalid, hid]) hnew
      · trivial
    · trivial

theorem recordSkip_calls (status : RewardCycleStatus) (pool : Int) (count : Nat) (per : Int) :
    (callRules cfg id).Triple i (fun _ => True) (recordSkip status pool count per)
      (fun _ _ => True) fun _ _ => True := by
  refine .bind (idle_only (.request trivial)) fun now => ?_
  refine .bind (M := fun c => FreshlyHeld id i c) (.step (fun _ _ _ _ _ _ => trivial)
    (fun _ _ _ => trivial) (create_calls _) fun _ => FreshlyHeld.stable) fun cycle => ?_
  exact Triple.pre (idle_only (.request trivial)) fun _ _ _ => trivial

/-- The cycle that was created is read back. -/
theorem findById_calls (cycle : RewardCycleDoc) :
    (callRules cfg id).Triple i (FreshlyHeld id i cycle)
      (MasternodeRewardCycle.findById cycle.id)
      (fun found s => FreshlyHeld id i cycle s ∧ ∀ d, found = some d → d.id = cycle.id)
      fun _ _ => True := by
  refine .step FreshlyHeld.stable (fun _ _ _ => trivial) ?_ fun found => ?_
  · refine calls_performs fun s out r w hi hs _ hans => ?_
    refine ⟨⟨hi.once, hi.present hans⟩, fun j _ => .refl j s, ?_⟩
    obtain ⟨_, _, rfl, _⟩ | ⟨x, hx, ⟨_, rfl⟩ | ⟨_, _, rfl⟩⟩ := answer_cases hans
    · trivial
    · cases hx
      exact ⟨hs, fun d hd => by simpa using (pick_some hd).2⟩
    · trivial
  · exact fun s t hs ht hst h => ⟨FreshlyHeld.stable s t hs ht hst h.1, h.2⟩

theorem startCycle_calls (pool per : Int) (eligible : List MasternodeListEntry) :
    (callRules cfg id).Triple i (fun _ => True) (startCycle cfg pool per eligible)
      (fun _ _ => True) fun _ _ => True := by
  refine .bind (idle_only (.request trivial)) fun now => ?_
  refine .bind (M := fun c => FreshlyHeld id i c) (.step (fun _ _ _ _ _ _ => trivial)
    (fun _ _ _ => trivial) (create_calls _) fun _ => FreshlyHeld.stable) fun cycle => ?_
  refine .bind (findById_calls cycle) fun found => ?_
  cases found with
  | none =>
      refine Triple.pre (P := fun _ => True) ?_ fun _ _ _ => trivial
      exact .pure (fun _ _ _ _ _ _ => trivial) fun _ _ _ => trivial
  | some lean =>
      refine Triple.pre (executeCycle_calls lean) fun s _ hs hid => Or.inr ?_
      obtain ⟨hholder, hnil⟩ := hs.1 ((hs.2 lean rfl).symm.trans hid)
      refine ⟨hholder, fun k p _ _ => ?_⟩
      rw [hnil]
      exact List.not_mem_nil

theorem sizeCycle_calls (pool : Int) (mnList : List MasternodeListEntry) :
    (callRules cfg id).Triple i (fun _ => True) (sizeCycle cfg pool mnList) (fun _ _ => True)
      fun _ _ => True := by
  refine .bind (idle_only (.ofExcept _)) fun minBalanceSats => ?_
  split
  · exact recordSkip_calls _ _ _ _
  · split
    · exact recordSkip_calls _ _ _ _
    · refine .bind (idle_only (.ofExcept _)) fun per => ?_
      split
      · exact recordSkip_calls _ _ _ _
      · exact startCycle_calls _ _ _

theorem runMasternodeRewardTick_calls :
    (callRules cfg id).Triple i (fun _ => True) (Task.program cfg .runMasternodeRewardTick)
      (fun _ _ => True) fun _ _ => True := by
  have hstable (found : Option RewardCycleDoc) : (callRules cfg id).Stable i
      (Found (HeldCycle id i) (fun _ => True) found) := by
    cases found with
    | none => exact fun _ _ _ _ _ _ => trivial
    | some cycle => exact HeldCycle.stable
  change (callRules cfg id).Triple i _ (FairBridge.runMasternodeRewardTick cfg) _ _
  rw [runMasternodeRewardTick]
  split
  · exact .pure (fun _ _ _ _ _ _ => trivial) fun _ _ _ => trivial
  · refine .bind (.step (fun _ _ _ _ _ _ => trivial) (fun _ _ _ => trivial) claim_calls hstable)
      fun found => ?_
    cases found with
    | some cycle => exact executeCycle_calls cycle
    | none =>
        refine .bind (idle_only (.request trivial)) fun now => ?_
        refine .bind (idle_only (.bind (.request trivial) fun _ => trivial)) fun recent => ?_
        split
        · exact .pure (fun _ _ _ _ _ _ => trivial) fun _ _ _ => trivial
        · exact .bind (idle_only (readPool_only trivial (fun _ => trivial) trivial)) fun pool => sizeCycle_calls _ _

theorem call_starts : (callRules (ι := ι) cfg id).Starts := by
  intro i t s hi _ hready
  cases t with
  | runMasternodeRewardTick => exact runMasternodeRewardTick_calls s hi trivial
  | _ => simp [callRules, ticking, System.recordedBy, service, tickRuns] at hready

end Calls

section Cadence
variable {s t u : World × TickRecord ι} {start t₀ : Nat}

/-- The cycles that were there are there as they were triggered, and the clock goes on. -/
structure Aged (v w : World) : Prop where
  now : v.now ≤ w.now
  nextId : v.rewardCycles.nextId ≤ w.rewardCycles.nextId
  old : ∀ e ∈ w.rewardCycles.docs, e.id < v.rewardCycles.nextId →
    ∃ d ∈ v.rewardCycles.docs, d.id = e.id ∧ d.triggeredAt = e.triggeredAt

theorem Aged.of_same (hnow : v.now ≤ w.now) (h : w.rewardCycles = v.rewardCycles) : Aged v w :=
  ⟨hnow, Nat.le_of_eq (by rw [h]), fun e he _ => ⟨e, h ▸ he, rfl, rfl⟩⟩

theorem Aged.refl (w : World) : Aged w w := .of_same (Nat.le_refl _) rfl

theorem Aged.trans {v' : World} (h : Aged v v') (h' : Aged v' w) : Aged v w := by
  refine ⟨h.now.trans h'.now, h.nextId.trans h'.nextId, fun e he hlt => ?_⟩
  obtain ⟨d, hd, hid, htrig⟩ := h'.old e he (Nat.lt_of_lt_of_le hlt h.nextId)
  obtain ⟨d', hd', hid', htrig'⟩ := h.old d hd (hid ▸ hlt)
  exact ⟨d', hd', hid'.trans hid, htrig'.trans htrig⟩

def Op.isCreate {β : Type} : Op β → Bool
  | .rewardCycle q => q.isCreate
  | _ => false

/-- No request makes a cycle younger, and only a creation adds one. -/
theorem answer_aged {β : Type} {op : Op β} {row : Option ObjectId} {out : Outcome}
    {r : Except JsError β} (h : answer row op out v = some (r, w)) : Aged v w ∧
      (op.isCreate = false → w.rewardCycles.nextId = v.rewardCycles.nextId) := by
  have hnow : v.now ≤ w.now := Nat.le_of_eq (answer_frame h).now.symm
  by_cases hcycles : op.part = .rewardCycles
  · cases op with
    | rewardCycle q =>
        obtain ⟨_, _, _, rfl⟩ | ⟨_, hx, _⟩ := answer_cases h
        · exact ⟨.of_same hnow rfl, fun _ => rfl⟩
        · cases hx
          obtain ⟨hnext, hsame⟩ := q.run_nextId refusals v.now v.rewardCycles
          refine ⟨⟨hnow, hnext, fun e he hlt => ?_⟩, hsame⟩
          refine (Query.run_origin (f := RewardCycleDoc.triggeredAt) (fun _ _ => rfl) refusals
            v.now q he).resolve_right fun hnew => ?_
          exact absurd hlt (Nat.not_lt.mpr (Nat.le_of_eq hnew.symm))
    | _ => cases hcycles
  · have hsame := (answer_frame h).rewardCycles hcycles
    exact ⟨.of_same hnow hsame, fun _ => by rw [hsame]⟩

/-- The cycles from `start` on keep their distance from all the earlier ones. -/
def Spaced (cfg : Config) (start : Nat) (s : World × TickRecord ι) : Prop :=
  ∀ d ∈ s.1.rewardCycles.docs, ∀ e ∈ s.1.rewardCycles.docs, start ≤ e.id → d.id < e.id →
    d.triggeredAt + cfg.masternodeRewardsIntervalMs < e.triggeredAt

theorem Spaced.aged (h : Spaced cfg start s) (hst : Aged s.1 t.1)
    (hnext : t.1.rewardCycles.nextId = s.1.rewardCycles.nextId) : Spaced cfg start t := by
  intro d hd e he hstart hlt
  obtain ⟨d', hd', hid, htrig⟩ := hst.old d hd (hnext ▸ t.1.rewardCycles.below d hd)
  obtain ⟨e', he', heid, hetrig⟩ := hst.old e he (hnext ▸ t.1.rewardCycles.below e he)
  rw [← htrig, ← hetrig]
  rw [← heid] at hstart
  rw [← hid, ← heid] at hlt
  exact h d' hd' e' he' hstart hlt

/-- What a tick may rely on: nobody else writes what it has seen. -/
structure SeenKept (i : ι) (s t : World × TickRecord ι) : Prop where
  seen : t.2.seen i = s.2.seen i
  aged : Aged s.1 t.1

theorem SeenKept.refl (i : ι) (s : World × TickRecord ι) : SeenKept i s s := ⟨rfl, .refl _⟩

theorem SeenKept.trans (h : SeenKept i s t) (h' : SeenKept i t u) : SeenKept i s u :=
  ⟨h'.seen.trans h.seen, h.aged.trans h'.aged⟩

def cadenceRules (cfg : Config) (id : ObjectId) (start : Nat) :
    Rules (ticking cfg id : System Op JsError (World × TickRecord ι) ι Task EnvEvent)
      (World × TickRecord ι) where
  world s := s
  inv := Spaced cfg start
  rely := SeenKept
  guar i s t := ∀ j, i ≠ j → SeenKept j s t
  rest _ _ := True
  hist _ _ := True
  permits i op s := op.overlapsTick id i s.1 s.2 = false
  rely_refl := .refl
  rely_trans := .trans
  guar_refl _ s := fun j _ => .refl j s
  guar_rely hij _ _ h := h _ hij
  rest_stable _ _ _ _ := trivial
  hist_refl _ := trivial
  hist_trans _ _ := trivial
  guar_hist _ _ _ := trivial
  env_step {e s w} hi he := by
    obtain ⟨v, hv, rfl⟩ := Option.map_eq_some_iff.mp he
    have hocc := (service_env hv).2
    have hcycles := (EnvEvent.occur_surroundings hocc).rewardCycles
    have haged : Aged s.1 v := .of_same (EnvEvent.occur_now hocc) hcycles
    exact ⟨(v, s.2), rfl, hi.aged (t := (v, s.2)) haged (by rw [hcycles]), trivial,
      fun i => ⟨rfl, haged⟩⟩

/-- The tick has looked at time `t₀`, and none of the cycles it saw was recent. -/
structure Looked (cfg : Config) (i : ι) (t₀ : Nat) (s : World × TickRecord ι) : Prop where
  now : t₀ ≤ s.1.now
  seen : s.2.seen i ≤ s.1.rewardCycles.nextId
  old : ∀ e ∈ s.1.rewardCycles.docs, e.id < s.2.seen i →
    e.triggeredAt + cfg.masternodeRewardsIntervalMs < t₀

theorem Looked.kept (h : Looked cfg i t₀ s) (hst : SeenKept i s t) : Looked cfg i t₀ t where
  now := h.now.trans hst.aged.now
  seen := hst.seen ▸ h.seen.trans hst.aged.nextId
  old e he hlt := by
    rw [hst.seen] at hlt
    obtain ⟨d, hd, hid, htrig⟩ := hst.aged.old e he (Nat.lt_of_lt_of_le hlt h.seen)
    rw [← htrig]
    exact h.old d hd (hid ▸ hlt)

/-- What the steps of the others do not change. -/
def OfSeen (i : ι) (P : World × TickRecord ι → Prop) : Prop :=
  ∀ s t, SeenKept i s t → P s → P t

theorem OfSeen.stable {P : World × TickRecord ι → Prop} (h : OfSeen i P) :
    (cadenceRules cfg id start).Stable i P := fun s t _ _ hst hs => h s t hst hs

theorem Looked.ofSeen : OfSeen i (Looked cfg i t₀) := fun _ _ hst h => h.kept hst

theorem noteTick_seen {β : Type} {op : Op β} {out : Outcome} {h : TickRecord ι} (hij : i ≠ j) :
    (noteTick id i op out w h).seen j = h.seen j := by
  cases op with
  | rewardCycle q =>
      cases q with
      | findOne _ _ => exact Function.update_of_ne (Ne.symm hij) _ _
      | findOneAndUpdate _ _ _ | create _ =>
          simp only [noteTick]
          split <;> rfl
      | _ => rfl
  | sendToAddress _ _ payout =>
      cases payout with
      | none => rfl
      | some row =>
          simp only [noteTick]
          split <;> rfl
  | _ => rfl

variable {α β : Type} {op : Op β} {P : World × TickRecord ι → Prop}

theorem cadence_performs {M : Except JsError β → World × TickRecord ι → Prop}
    (h : ∀ s out r w, Spaced cfg start s → P s → op.overlapsTick id i s.1 s.2 = false →
      answer none op out s.1 = some (r, w) → Aged s.1 w →
      Spaced cfg start (w, noteTick id i op out s.1 s.2) ∧
        M r (w, noteTick id i op out s.1 s.2)) :
    (cadenceRules cfg id start).Performs i P op M := by
  intro s out r t hi hs hperm _ hans
  obtain ⟨⟨x, w⟩, hw, rfl, rfl⟩ := Option.map_eq_some_iff.mp hans
  have haged := (answer_aged hw).1
  obtain ⟨hinv, hM⟩ := h s out x w hi hs hperm hw haged
  exact ⟨_, rfl, hinv, fun j hij => ⟨noteTick_seen hij, haged⟩, hM⟩

/-- A program that creates no cycle. -/
theorem uncreated_only {prog : Promise α} (h : prog.Only fun op => op.isCreate = false) :
    (cadenceRules cfg id start).Triple i (fun _ => True) prog (fun _ _ => True)
      fun _ _ => True :=
  .harmless h (fun _ _ _ _ _ _ => trivial) (fun _ _ _ => trivial) fun op hop =>
    cadence_performs fun s out r w hi _ _ hans haged =>
      ⟨hi.aged (t := (w, _)) haged ((answer_aged hans).2 hop), trivial⟩

/-- The request neither creates a cycle nor looks for one. -/
def Op.blind {β : Type} : Op β → Prop
  | .rewardCycle _ | .sendToAddress _ _ _ => False
  | _ => True

theorem Op.blind.note {op : Op β} (hop : op.blind) (i : ι) (out : Outcome) (w : World)
    (h : TickRecord ι) : noteTick id i op out w h = h := by
  cases op with
  | rewardCycle _ | sendToAddress _ _ _ => cases hop
  | _ => rfl

theorem Op.blind.isCreate {op : Op β} (hop : op.blind) : op.isCreate = false := by
  cases op with
  | rewardCycle _ => cases hop
  | _ => rfl

theorem blind_only {prog : Promise α} (h : prog.Only Op.blind) (hP : OfSeen i P) :
    (cadenceRules cfg id start).Triple i P prog (fun _ => P) fun _ _ => True := by
  refine Triple.weaken (.harmless h hP.stable (fun _ _ _ => trivial) fun op hop =>
    cadence_performs fun s out r w hi hs _ hans haged => ?_) (fun _ _ h => h) (fun _ _ _ h => h)
      fun _ _ _ _ => trivial
  rw [hop.note]
  exact ⟨hi.aged (t := (w, s.2)) haged ((answer_aged hans).2 hop.isCreate),
    hP s (w, s.2) ⟨rfl, haged⟩ hs⟩

theorem executeCycle_cadence (cycle : RewardCycleDoc) :
    (executeCycle cfg cycle).Only fun op => op.isCreate = false := by
  have hrows : RowRequests (fun op => op.isCreate = false) cycle.id :=
    ⟨fun _ => rfl, fun _ => rfl, fun _ => rfl⟩
  exact .bind (hrows.payoutSteps _ _ _ _ fun _ _ _ _ _ _ => rfl) fun _ =>
    finaliseCycle_only (fun _ => rfl) (fun _ => rfl) rfl

/-- The clock is read. -/
theorem dateNow_cadence (hP : OfSeen i P) {F : Nat → Prop} (hF : ∀ s, P s → F s.1.now) :
    (cadenceRules cfg id start).Triple i P (call .dateNow)
      (fun now s => P s ∧ F now ∧ now ≤ s.1.now) fun _ _ => True := by
  refine .step hP.stable (fun _ _ _ => trivial) ?_ fun now => ?_
  · refine cadence_performs fun s out r w hi hs _ hans haged => ?_
    refine ⟨hi.aged (t := (w, s.2)) haged ((answer_aged hans).2 rfl), ?_⟩
    obtain ⟨_, _, rfl, _⟩ | ⟨x, hx, ⟨_, rfl⟩ | ⟨_, _, rfl⟩⟩ := answer_cases hans
    · trivial
    · cases hx
      exact ⟨hP s (_, s.2) ⟨rfl, haged⟩ hs, hF s hs, Nat.le_refl _⟩
    · trivial
  · exact fun s t _ _ hst h => ⟨hP s t hst h.1, h.2.1, h.2.2.trans hst.aged.now⟩

/-- A tick that finds no recent cycle has seen how far back they all are. -/
theorem hasRecentCycle_cadence (now : Nat) :
    (cadenceRules cfg id start).Triple i (fun s => now ≤ s.1.now)
      (hasRecentCycle now cfg.masternodeRewardsIntervalMs)
      (fun recent s => recent = false → Looked cfg i now s) fun _ _ => True := by
  have hnow : OfSeen i fun s : World × TickRecord ι => now ≤ s.1.now :=
    fun s t hst h => h.trans hst.aged.now
  refine .bind (M := fun found s => found = none → Looked cfg i now s) ?_ fun found => ?_
  · refine .step hnow.stable (fun _ _ _ => trivial) ?_ fun found s t _ _ hst h hnone =>
      (h hnone).kept hst
    refine cadence_performs fun s out r w hi hs _ hans haged => ?_
    refine ⟨hi.aged (t := (w, _)) haged ((answer_aged hans).2 rfl), ?_⟩
    obtain ⟨_, _, rfl, _⟩ | ⟨x, hx, ⟨_, rfl⟩ | ⟨_, _, rfl⟩⟩ := answer_cases hans
    · trivial
    · cases hx
      intro hnone
      have hseen : (noteTick id i (.rewardCycle (.findOne
          (recentCycle now cfg.masternodeRewardsIntervalMs) none)) .done s.1 s.2).seen i =
          s.1.rewardCycles.nextId := Function.update_self ..
      refine ⟨hs, Nat.le_of_eq hseen, fun e he _ => ?_⟩
      have hfar := pick_none hnone he
      simpa [recentCycle] using hfar
    · trivial
  · refine .pure (fun s t _ _ hst h hnone => (h hnone).kept hst) fun s _ h hfalse => ?_
    cases found with
    | none => exact h rfl
    | some _ => cases hfalse

/-- A cycle that is created as the tick has seen things keeps its distance. -/
theorem create_cadence {doc : RewardCycleDoc} {now : Nat} (hdoc : doc.triggeredAt = now)
    (ht : t₀ ≤ now) :
    (cadenceRules cfg id start).Performs i (Looked cfg i t₀) (.rewardCycle (.create doc))
      fun _ _ => True := by
  refine cadence_performs fun s out r w hi hs hperm hans haged => ⟨?_, trivial⟩
  have hseen : s.2.seen i = s.1.rewardCycles.nextId := by
    simpa [Op.overlapsTick] using hperm
  have hsame (h : w.rewardCycles = s.1.rewardCycles) (k : TickRecord ι) :
      Spaced cfg start (w, k) := hi.aged (t := (w, k)) haged (by rw [h])
  obtain ⟨_, _, _, rfl⟩ | ⟨x, hx, _⟩ := answer_cases hans
  · exact hsame rfl _
  · obtain ⟨_, _, rfl⟩ | ⟨_, rfl⟩ := MasternodeRewardCycle.effect_create hx
    · exact hsame rfl _
    · intro d hd e he hstart hlt
      have hnew {b : RewardCycleDoc} (hb : b ∈ (s.1.rewardCycles.insert s.1.now doc).docs) :
          b ∈ s.1.rewardCycles.docs ∨
            b = { doc with id := s.1.rewardCycles.nextId, createdAt := s.1.now } :=
        (List.mem_append.mp hb).imp_right List.mem_singleton.mp
      obtain hd | rfl := hnew hd
      · obtain he | rfl := hnew he
        · exact hi d hd e he hstart hlt
        · have hfar := hs.old d hd (hseen ▸ s.1.rewardCycles.below d hd)
          exact Nat.lt_of_lt_of_le hfar (hdoc ▸ ht)
      · obtain he | rfl := hnew he
        · exact absurd hlt (Nat.not_lt.mpr (Nat.le_of_lt (s.1.rewardCycles.below e he)))
        · exact absurd hlt (Nat.lt_irrefl _)

theorem recordSkip_cadence (status : RewardCycleStatus) (pool : Int) (count : Nat) (per : Int) :
    (cadenceRules cfg id start).Triple i (Looked cfg i t₀) (recordSkip status pool count per)
      (fun _ _ => True) fun _ _ => True := by
  refine .bind (dateNow_cadence Looked.ofSeen fun s hs => hs.now) fun now => ?_
  refine .fact (fun _ _ hs => hs.2.1) fun ht => Triple.pre (P := Looked cfg i t₀) ?_
    fun _ _ hs => hs.1
  refine .bind (M := fun _ _ => True) (.request Looked.ofSeen.stable (.of_rest fun _ _ _ => trivial)
    (create_cadence rfl ht) (fun _ _ _ _ _ _ _ => trivial) fun _ _ _ _ _ _ _ => trivial)
      fun cycle => uncreated_only (.request rfl)

theorem startCycle_cadence (pool per : Int) (eligible : List MasternodeListEntry) :
    (cadenceRules cfg id start).Triple i (Looked cfg i t₀) (startCycle cfg pool per eligible)
      (fun _ _ => True) fun _ _ => True := by
  refine .bind (dateNow_cadence Looked.ofSeen fun s hs => hs.now) fun now => ?_
  refine .fact (fun _ _ hs => hs.2.1) fun ht => Triple.pre (P := Looked cfg i t₀) ?_
    fun _ _ hs => hs.1
  refine .bind (M := fun _ _ => True) (.request Looked.ofSeen.stable (.of_rest fun _ _ _ => trivial)
    (create_cadence rfl ht) (fun _ _ _ _ _ _ _ => trivial) fun _ _ _ _ _ _ _ => trivial)
      fun cycle => uncreated_only (.bind (.request rfl) fun found => ?_)
  cases found with
  | none => trivial
  | some lean => exact executeCycle_cadence lean

theorem sizeCycle_cadence (pool : Int) (mnList : List MasternodeListEntry) :
    (cadenceRules cfg id start).Triple i (Looked cfg i t₀) (sizeCycle cfg pool mnList)
      (fun _ _ => True) fun _ _ => True := by
  refine .bind (blind_only (.ofExcept _) Looked.ofSeen) fun minBalanceSats => ?_
  split
  · exact recordSkip_cadence _ _ _ _
  · split
    · exact recordSkip_cadence _ _ _ _
    · refine .bind (blind_only (.ofExcept _) Looked.ofSeen) fun per => ?_
      split
      · exact recordSkip_cadence _ _ _ _
      · exact startCycle_cadence _ _ _

theorem runMasternodeRewardTick_cadence :
    (cadenceRules cfg id start).Triple i (fun _ => True)
      (Task.program cfg .runMasternodeRewardTick) (fun _ _ => True) fun _ _ => True := by
  have hrest : OfSeen i fun _ : World × TickRecord ι => True := fun _ _ _ _ => trivial
  change (cadenceRules cfg id start).Triple i _ (FairBridge.runMasternodeRewardTick cfg) _ _
  rw [runMasternodeRewardTick]
  split
  · exact .pure hrest.stable fun _ _ _ => trivial
  · refine .bind (uncreated_only (.request rfl)) fun found => ?_
    cases found with
    | some cycle => exact uncreated_only (executeCycle_cadence cycle)
    | none =>
        refine .bind (dateNow_cadence hrest (F := fun _ => True) fun _ _ => trivial) fun now => ?_
        refine Triple.pre (P := fun s => now ≤ s.1.now) ?_ fun _ _ hs => hs.2.2
        refine .bind (hasRecentCycle_cadence now) fun recent => ?_
        cases recent with
        | true =>
            refine Triple.pre (P := fun _ => True) ?_ fun _ _ _ => trivial
            exact .pure hrest.stable fun _ _ _ => trivial
        | false =>
            refine Triple.pre (P := Looked cfg i now) ?_ fun _ _ hs => hs rfl
            exact .bind (blind_only (readPool_only trivial (fun _ => trivial) trivial)
              Looked.ofSeen) fun pool => sizeCycle_cadence _ _

theorem cadence_starts : (cadenceRules (ι := ι) cfg id start).Starts := by
  intro i t s hi _ hready
  cases t with
  | runMasternodeRewardTick => exact runMasternodeRewardTick_cadence s hi trivial
  | _ => simp [cadenceRules, ticking, System.recordedBy, service, tickRuns] at hready

end Cadence

/-- Where no tick claims the cycle while another holds it, or with a row that has been called
for and has no transaction on file, and none creates a cycle after one has been created since
it looked, a row is called for at most once and the new cycles keep their distance. -/
theorem ticks_apart (cfg : Config) {id : ObjectId} {w : World}
    {es : List (Event JsError ι Task EnvEvent)} {q : Pool Op JsError (World × TickRecord ι) ι}
    (hq : (ticking cfg id).exec ((Pool.init w).withRecord {}) es = some q)
    (hes : (ticking cfg id).Along
      (fun p i op => op.overlapsTick id i p.world.1 p.world.2 = false)
      ((Pool.init w).withRecord {}) es) :
    (∀ n, q.world.2.calls.count n ≤ 1) ∧
    ∀ d ∈ q.world.1.rewardCycles.docs, ∀ e ∈ q.world.1.rewardCycles.docs,
      w.rewardCycles.nextId ≤ e.id → d.id < e.id →
        d.triggeredAt + cfg.masternodeRewardsIntervalMs < e.triggeredAt := by
  constructor
  · obtain ⟨s, hs, _⟩ := Good.exec_along (R := callRules cfg id)
      (c := fun p i op => op.overlapsTick id i p.world.1 p.world.2 = false)
      (fun p s i op hgood hop => (show s = p.world from hgood.world) ▸ hop) call_starts
      (s := (w, {})) (.init rfl ⟨List.nodup_nil, fun _ => ⟨rfl, rfl⟩⟩ fun _ => trivial) hq hes
    have hworld : s = q.world := hs.world
    subst hworld
    exact fun n => List.nodup_iff_count_le_one.mp hs.inv.once n
  · have hinit : Spaced cfg w.rewardCycles.nextId (w, ({} : TickRecord ι)) :=
      fun d _ e he hstart _ => absurd (w.rewardCycles.below e he) (Nat.not_lt.mpr hstart)
    obtain ⟨s, hs, _⟩ := Good.exec_along (R := cadenceRules cfg id w.rewardCycles.nextId)
      (c := fun p i op => op.overlapsTick id i p.world.1 p.world.2 = false)
      (fun p s i op hgood hop => (show s = p.world from hgood.world) ▸ hop) cadence_starts
      (s := (w, {})) (.init rfl hinit fun _ => trivial) hq hes
    have hworld : s = q.world := hs.world
    subst hworld
    exact hs.inv

namespace Sample

/-- Two ticks, one after the other, the second once the interval is over. -/
def ticksApart : List (Event JsError Bool Task EnvEvent) :=
  .start true .runMasternodeRewardTick :: List.replicate 18 (.step true .done) ++
    .env (.wait (rewardConfig.masternodeRewardsIntervalMs + 1)) ::
    .start false .runMasternodeRewardTick :: List.replicate 18 (.step false .done)

/-- The second tick claims the cycle that the first has just created. -/
def resumedMeanwhile : List (Event JsError Bool Task EnvEvent) :=
  .start true .runMasternodeRewardTick :: List.replicate 8 (.step true .done) ++
    .start false .runMasternodeRewardTick :: List.replicate 2 (.step false .done) ++
    List.replicate 2 (.step true .done)

/-- Both ticks look for a recent cycle before either creates one. -/
def createdTwice : List (Event JsError Bool Task EnvEvent) :=
  .start true .runMasternodeRewardTick :: List.replicate 3 (.step true .done) ++
    .start false .runMasternodeRewardTick :: List.replicate 8 (.step false .done) ++
    List.replicate 5 (.step true .done)

end Sample

theorem sample_ticks_apart : ∃ q, (ticking Sample.rewardConfig 0).exec
      ((Pool.init Sample.rewardWorld).withRecord {}) Sample.ticksApart = some q ∧
    q.world.1.rewardCycles.docs.length = 2 ∧ (∀ n, q.world.2.calls.count n ≤ 1) ∧
    ∀ d ∈ q.world.1.rewardCycles.docs, ∀ e ∈ q.world.1.rewardCycles.docs, 0 ≤ e.id →
      d.id < e.id →
        d.triggeredAt + Sample.rewardConfig.masternodeRewardsIntervalMs < e.triggeredAt := by
  have h : ((ticking Sample.rewardConfig 0).exec
      ((Pool.init Sample.rewardWorld).withRecord {}) Sample.ticksApart).map
        (fun q => q.world.1.rewardCycles.docs.length) = some 2 := by
    decide +kernel
  obtain ⟨q, hq, hlength⟩ := Option.map_eq_some_iff.mp h
  obtain ⟨hcalls, hspaced⟩ := ticks_apart Sample.rewardConfig hq (by decide +kernel)
  exact ⟨q, hq, hlength, hcalls, hspaced⟩

/-- A row is paid by both ticks, and two cycles are created at once. -/
theorem ticks_meet :
    (∃ q, (ticking Sample.rewardConfig 0).exec
        ((Pool.init Sample.rewardWorld).withRecord {}) Sample.resumedMeanwhile = some q ∧
      q.world.2.calls.count 0 = 2 ∧ (q.world.1.paidTo 0 0).length = 2) ∧
    ∃ q, (ticking Sample.rewardConfig 0).exec
        ((Pool.init Sample.rewardWorld).withRecord {}) Sample.createdTwice = some q ∧
      q.world.1.rewardCycles.docs.map (fun d => (d.id, d.triggeredAt)) = [(0, 0), (1, 0)] := by
  constructor
  · have h : ((ticking Sample.rewardConfig 0).exec
        ((Pool.init Sample.rewardWorld).withRecord {}) Sample.resumedMeanwhile).map
          (fun q => (q.world.2.calls.count 0, (q.world.1.paidTo 0 0).length)) = some (2, 2) := by
      decide +kernel
    obtain ⟨q, hq, hpaid⟩ := Option.map_eq_some_iff.mp h
    obtain ⟨hcalls, hpaid⟩ := Prod.mk.inj hpaid
    exact ⟨q, hq, hcalls, hpaid⟩
  · have h : ((ticking Sample.rewardConfig 0).exec
        ((Pool.init Sample.rewardWorld).withRecord {}) Sample.createdTwice).map
          (fun q => q.world.1.rewardCycles.docs.map fun d => (d.id, d.triggeredAt)) =
        some [(0, 0), (1, 0)] := by
      decide +kernel
    exact Option.map_eq_some_iff.mp h

end FairBridge

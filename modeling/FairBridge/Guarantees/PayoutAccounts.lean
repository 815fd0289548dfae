import FairBridge.Model.Frame
import FairBridge.Service
import FairBridge.Worker.RewardOutline

/-!
The accounts of a reward cycle. A row is paid once, what is on file for it is that payment,
and the cycle ends as its rows did. An answer that is lost on the way back from the node
leaves a row that is paid without a transaction on file.
-/

namespace FairBridge
open Store Async Async.Rules

/-- The payments of a row of a cycle. -/
def World.paidTo (w : World) (id : ObjectId) (index : Nat) : List Send :=
  w.fair.sends.filter fun s => s.payout == some (id, index)

/-- The payment of a row. -/
def PayoutDoc.payment (p : PayoutDoc) (id : ObjectId) (index : Nat) (txid : Txid) : Send :=
  ⟨txid, p.payoutAddress, p.amountSats, none, some (id, index)⟩

/-- The update that puts the transaction id of a payment on its row. -/
def Op.filesPayout {β : Type} : Op β → Bool
  | .rewardCycle (.updateOne _ u) => u.payout.any fun p => p.txid.isSome && p.status.isNone
  | _ => false

/-- The reward worker alone. It may die, and its requests may raise with or without effect,
anywhere but between a payment and the filing of its id; whether the answer to a payment can
be `lost` is left open. -/
def rewardRuns (lost : Bool) : Faults Unit where
  ready _ _ t := match t with
    | .runMasternodeRewardTick => true
    | _ => false
  may _ op out _ := match op with
    | .sendToAddress _ _ _ => lost || !out.isLost
    | op => !op.filesPayout || !out.isFail
  mayKill _ op _ := !op.filesPayout
  row _ := none

variable {id : ObjectId} {cfg : Config} {lost : Bool} {w w' : World}

/-- A row without a transaction on file has been paid. -/
def World.unfiled (w : World) (id : ObjectId) (d : RewardCycleDoc) : Bool :=
  d.payouts.zipIdx.any fun p => p.1.txid.isNone && !(w.paidTo id p.2).isEmpty

/-- A run resumes the cycle while a row of it is paid without its transaction on file. -/
def Op.resumesUnfiled (id : ObjectId) {β : Type} (op : Op β) (w : World) : Bool :=
  match op with
  | .rewardCycle (.findOneAndUpdate filter sort _) =>
      (pick filter sort w.rewardCycles.docs).any fun d => d.id == id && w.unfiled id d
  | _ => false

/-- The rows have outpoints of their own. -/
def RewardCycleDoc.distinct (d : RewardCycleDoc) : Prop :=
  (d.payouts.map PayoutDoc.masternodeOutpoint).Nodup

/-- What a cycle says of its rows and of its pool. -/
structure RewardCycleDoc.Accounts (cfg : Config) (d : RewardCycleDoc) : Prop where
  final : d.status ≠ .payingOut → ∀ p ∈ d.payouts, p.isFinal = true
  complete : d.status = .complete → d.distinct → ∀ p ∈ d.payouts, p.isPaid = true
  failed : d.status = .failed → ∃ p ∈ d.payouts, p.status = .failed
  shares : ∀ p ∈ d.payouts, p.amountSats = d.perMasternodeFair
  pool : d.payouts ≠ [] → ∃ fee, cfg.masternodeRewardsPayoutFeeFair.toSats = .ok fee ∧
    d.payouts.length * d.perMasternodeFair + d.payouts.length * fee ≤ d.poolBalanceFair ∧
    d.poolBalanceFair < d.payouts.length * (d.perMasternodeFair + 1) + d.payouts.length * fee

/-- A row is not paid yet, or it is paid what it is owed, once. -/
def World.PaidOnce (w : World) (id : ObjectId) (d : RewardCycleDoc) (i : Nat) : Prop :=
  (w.paidTo id i = [] ∧ ∀ p, d.payouts[i]? = some p → p.txid = none) ∨
  ∃ p t, d.payouts[i]? = some p ∧ w.paidTo id i = [p.payment id i t] ∧
    (p.txid = none ∨ p.txid = some t)

structure PayoutInv (cfg : Config) (id : ObjectId) (w : World) : Prop where
  accounts : ∀ d, w.rewardCycles.get id = some d → d.Accounts cfg
  rows : ∀ d, w.rewardCycles.get id = some d → ∀ i, w.PaidOnce id d i
  absent : w.rewardCycles.get id = none → ∀ i, w.paidTo id i = []

/-- The rows without a transaction on file that have not been paid. -/
def World.Unpaid (w : World) (id : ObjectId) (rows : Nat → Prop) : Prop :=
  ∀ d i p, w.rewardCycles.get id = some d → rows i → d.payouts[i]? = some p → p.txid = none →
    w.paidTo id i = []

/-- What a run leaves behind: unless answers can be lost, a payment that was made is on file. -/
def PaymentsOnFile (lost : Bool) (id : ObjectId) (w : World) : Prop :=
  w.Unpaid id fun _ => lost = false

/-- Neither the cycles nor the payments differ. -/
structure SamePayouts (v w : World) : Prop where
  cycles : w.rewardCycles = v.rewardCycles
  sends : w.fair.sends = v.fair.sends

/-- The cycle and its payments are left alone. -/
structure PayoutsKept (id : ObjectId) (v w : World) : Prop where
  row : w.rewardCycles.get id = v.rewardCycles.get id
  paid : ∀ i, w.paidTo id i = v.paidTo id i

theorem SamePayouts.refl (w : World) : SamePayouts w w := ⟨rfl, rfl⟩

theorem SamePayouts.trans {u v w : World} (h : SamePayouts u v) (h' : SamePayouts v w) :
    SamePayouts u w := ⟨h'.cycles.trans h.cycles, h'.sends.trans h.sends⟩

theorem SamePayouts.kept (h : SamePayouts w w') : PayoutsKept id w w' where
  row := by rw [h.cycles]
  paid i := by rw [World.paidTo, World.paidTo, h.sends]

theorem PayoutInv.kept (hi : PayoutInv cfg id w) (h : PayoutsKept id w w') :
    PayoutInv cfg id w' where
  accounts d hd := hi.accounts d (h.row ▸ hd)
  rows d hd i := by
    rw [World.PaidOnce, h.paid]
    exact hi.rows d (h.row ▸ hd) i
  absent hnone i := by
    rw [h.paid]
    exact hi.absent (h.row ▸ hnone) i

theorem World.Unpaid.kept {rows : Nat → Prop} (hs : w.Unpaid id rows) (h : PayoutsKept id w w') :
    w'.Unpaid id rows := by
  intro d i p hd hi hp hnone
  rw [h.paid]
  exact hs d i p (h.row ▸ hd) hi hp hnone

theorem World.Unpaid.mono {rows rows' : Nat → Prop} (hs : w.Unpaid id rows)
    (h : ∀ i, rows' i → rows i) : w.Unpaid id rows' :=
  fun d i p hd hi hp hnone => hs d i p hd (h i hi) hp hnone

theorem World.paidTo_send_other (w : World) {id : ObjectId} {index : Nat} {row : Option ObjectId}
    {address : String} {sats : Int} {payout : Option (ObjectId × Nat)}
    (h : payout ≠ some (id, index)) :
    (w.send row address sats payout).paidTo id index = w.paidTo id index := by
  simp [paidTo, send, h]

theorem World.paidTo_send (w : World) (id : ObjectId) (index : Nat) (row : Option ObjectId)
    (address : String) (sats : Int) :
    (w.send row address sats (some (id, index))).paidTo id index = w.paidTo id index ++
      [⟨w.fair.txidOf w.fair.sends.length, address, sats, row, some (id, index)⟩] := by
  simp [paidTo, send]

/-- The request leaves the cycle alone, and pays none of its rows. -/
def Op.sparesPayouts (id : ObjectId) {β : Type} : Op β → Prop
  | .rewardCycle (.findOne _ _) | .rewardCycle (.find _ _) => True
  | .rewardCycle (.updateOne filter _) => ∀ d : RewardCycleDoc, d.id = id → filter d = false
  | .rewardCycle _ => False
  | .sendToAddress _ _ payout => ∀ i, payout ≠ some (id, i)
  | _ => True

theorem PayoutsKept.of_update {filter : RewardCycleDoc → Bool} {u : RewardCycleSet}
    (h : ∀ d : RewardCycleDoc, d.id = id → filter d = false) :
    PayoutsKept id w
      { w with rewardCycles := (w.rewardCycles.update refusals.duplicate filter none u).2 } := by
  refine ⟨?_, fun _ => rfl⟩
  obtain ⟨_, hc⟩ | ⟨_, _, _, _, _, hc⟩ | ⟨d, _, hfilter, _, _, hc⟩ :=
    w.rewardCycles.update_cases refusals.duplicate filter none u
  · rw [hc]
  · rw [hc]
  · rw [hc]
    refine Collection.get_modify_other w.rewardCycles u ?_
    intro heq
    cases hfilter.symm.trans (h d heq.symm)

theorem PayoutsKept.of_effect {β : Type} {op : Op β} {row : Option ObjectId}
    {x : Except JsError β} (hop : op.sparesPayouts id) (h : effect row op w = some (x, w')) :
    PayoutsKept id w w' := by
  by_cases hcycles : op.part = .rewardCycles
  · cases op with
    | rewardCycle q =>
        cases h
        cases q with
        | findOne _ _ => exact SamePayouts.kept ⟨rfl, rfl⟩
        | find _ limit => cases limit <;> exact SamePayouts.kept ⟨rfl, rfl⟩
        | updateOne filter u => exact .of_update hop
        | findOneAndUpdate _ _ _ | create _ => cases hop
    | _ => cases hcycles
  · by_cases hpayments : op.part = .payments
    · cases op with
      | sendToAddress address amountFair payout =>
          obtain ⟨_, _, rfl⟩ | ⟨_, rfl, _⟩ := effect_sendToAddress h
          · exact SamePayouts.kept ⟨rfl, rfl⟩
          · exact ⟨rfl, fun i => w.paidTo_send_other (hop i)⟩
      | _ => cases hpayments
    · have hframe := effect_frame h
      exact SamePayouts.kept ⟨hframe.rewardCycles hcycles, congrArg _ (hframe.fair hpayments)⟩

/-- What a step does to a cycle. Only an open cycle pays, none is opened again, and none gets
other shares. -/
structure PayoutStep (id : ObjectId) (v w : World) : Prop where
  shut : (∀ d, v.rewardCycles.get id = some d → d.isResumable = false) →
    ∀ i, w.paidTo id i = v.paidTo id i
  same : ∀ d, v.rewardCycles.get id = some d → ∃ d', w.rewardCycles.get id = some d' ∧
    (d'.isResumable = true → d.isResumable = true) ∧
    d'.payouts.length = d.payouts.length ∧ d'.perMasternodeFair = d.perMasternodeFair

theorem PayoutsKept.trans {u v : World} (h : PayoutsKept id u v) (h' : PayoutsKept id v w) :
    PayoutsKept id u w :=
  ⟨h'.row.trans h.row, fun i => (h'.paid i).trans (h.paid i)⟩

theorem PayoutsKept.payoutStep (h : PayoutsKept id w w') : PayoutStep id w w' :=
  ⟨fun _ => h.paid, fun d hd => ⟨d, h.row.trans hd, fun hopen => hopen, rfl, rfl⟩⟩

theorem PayoutStep.refl (w : World) : PayoutStep id w w :=
  (SamePayouts.refl w).kept.payoutStep

/-- A step of the open cycle itself. -/
theorem PayoutStep.of_open {d d' : RewardCycleDoc} (hd : w.rewardCycles.get id = some d)
    (hopen : d.isResumable = true) (hd' : w'.rewardCycles.get id = some d')
    (hlength : d'.payouts.length = d.payouts.length)
    (hper : d'.perMasternodeFair = d.perMasternodeFair) : PayoutStep id w w' where
  shut h := by cases (h d hd).symm.trans hopen
  same e he := by
    cases hd.symm.trans he
    exact ⟨d', hd', fun _ => hopen, hlength, hper⟩

theorem PayoutStep.of_update {d : RewardCycleDoc} (hd : w.rewardCycles.get id = some d)
    (hopen : d.isResumable = true) (u : RewardCycleSet) :
    PayoutStep id w (w.setRewardCycle id u) := by
  refine .of_open hd hopen (World.get_setRewardCycle hd u) ?_ rfl
  rw [RewardCycleSet.apply]
  cases u.payout with
  | none => rfl
  | some _ => exact List.length_modify ..

theorem RewardCycleDoc.isResumable_of_paying {d : RewardCycleDoc} (h : d.status = .payingOut) :
    d.isResumable = true := by
  rw [isResumable, h]
  rfl

/-- The record of a call is no part of a cycle. -/
theorem recordCall_payouts {β : Type} (op : Op β) (w : World) :
    SamePayouts w (recordCall op w) := by
  cases op <;> exact ⟨rfl, rfl⟩

def payoutRules (cfg : Config) (lost : Bool) (id : ObjectId) :
    Rules (service cfg (rewardRuns lost)) World where
  world w := w
  inv := PayoutInv cfg id
  rely _ := SamePayouts
  guar _ := PayoutStep id
  rest _ := PaymentsOnFile lost id
  hist _ _ := True
  permits _ op w := lost = true → op.resumesUnfiled id w = false
  rely_refl _ := .refl
  rely_trans := .trans
  guar_refl _ := .refl
  guar_rely hij _ _ _ := absurd rfl hij
  rest_stable _ _ h hs := hs.kept h.kept
  hist_refl _ := trivial
  hist_trans _ _ := trivial
  guar_hist _ _ _ := trivial
  env_step {e s w} hi he := by
    have hsame := EnvEvent.occur_surroundings (service_env he).2
    have hrely : SamePayouts s w := ⟨hsame.rewardCycles, hsame.sends⟩
    exact ⟨w, rfl, hi.kept hrely.kept, trivial, fun _ => hrely⟩

/-- How far a run has come with a cycle it has loaded: it has dealt with the rows before `n`,
and the rows from `m` on are as they were. -/
structure Progress (cycle : RewardCycleDoc) (n m : Nat) (failed : Bool) (d : RewardCycleDoc) :
    Prop where
  paying : d.status = .payingOut
  outpoints : d.payouts.map PayoutDoc.masternodeOutpoint =
    cycle.payouts.map PayoutDoc.masternodeOutpoint
  ahead : ∀ i, m ≤ i → d.payouts[i]? = cycle.payouts[i]?
  failures : failed = true → ∃ i p, i < n ∧ d.payouts[i]? = some p ∧ p.status = .failed
  paid : failed = false → d.distinct → ∀ i p, i < n → d.payouts[i]? = some p → p.isPaid = true

/-- The cycle with one of its rows updated. -/
def RewardCycleDoc.setPayout (d : RewardCycleDoc) (u : PayoutSet) : RewardCycleDoc :=
  RewardCycleSet.apply { payout := some u } d

section Rows
variable {cycle d : RewardCycleDoc} {n m : Nat} {failed : Bool} {u : PayoutSet} {p : PayoutDoc}

theorem RewardCycleDoc.payouts_setPayout (d : RewardCycleDoc) (u : PayoutSet) :
    (d.setPayout u).payouts = d.payouts.modify u.index u.apply := rfl

theorem RewardCycleDoc.setPayout_row (h : d.payouts[u.index]? = some p) :
    (d.setPayout u).payouts[u.index]? = some (u.apply p) := by
  simp [payouts_setPayout, h]

theorem RewardCycleDoc.setPayout_other {i : Nat} (h : i ≠ u.index) :
    (d.setPayout u).payouts[i]? = d.payouts[i]? := by
  simp [payouts_setPayout, Ne.symm h]

/-- What an update leaves alone of every row, no update of a row changes. -/
theorem RewardCycleDoc.map_setPayout {α : Type} (f : PayoutDoc → α)
    (hf : ∀ (u : PayoutSet) p, f (u.apply p) = f p) (d : RewardCycleDoc) (u : PayoutSet) :
    (d.setPayout u).payouts.map f = d.payouts.map f := by
  refine List.ext_getElem? fun i => ?_
  simp only [payouts_setPayout, List.getElem?_map, List.getElem?_modify]
  cases d.payouts[i]? with
  | none => rfl
  | some p =>
      simp only [Option.map_some]
      split
      · exact congrArg some (hf u p)
      · rfl

theorem RewardCycleDoc.outpoints_setPayout (d : RewardCycleDoc) (u : PayoutSet) :
    (d.setPayout u).payouts.map PayoutDoc.masternodeOutpoint =
      d.payouts.map PayoutDoc.masternodeOutpoint :=
  map_setPayout _ (fun _ _ => rfl) d u

/-- An update of a row of a cycle that is paying out changes nothing its accounts say. -/
theorem RewardCycleDoc.Accounts.setPayout (h : d.Accounts cfg) (hpaying : d.status = .payingOut)
    (u : PayoutSet) : (d.setPayout u).Accounts cfg := by
  have hstatus : (d.setPayout u).status = .payingOut := hpaying
  have hlength : (d.setPayout u).payouts.length = d.payouts.length := by
    simp [payouts_setPayout]
  refine ⟨fun hne => absurd hstatus hne, fun hc => ?_, fun hf => ?_, fun p hp => ?_, fun hne => ?_⟩
  · cases hstatus.symm.trans hc
  · cases hstatus.symm.trans hf
  · have hmem : p.amountSats ∈ (d.setPayout u).payouts.map PayoutDoc.amountSats :=
      List.mem_map_of_mem hp
    rw [map_setPayout _ (fun _ _ => rfl)] at hmem
    obtain ⟨e, he, hsame⟩ := List.mem_map.mp hmem
    exact hsame ▸ h.shares e he
  · rw [hlength]
    refine h.pool fun hnil => hne ?_
    simp [payouts_setPayout, hnil]

theorem Progress.setPayout (h : Progress cycle n m failed d) (hu : u.index = n) (hm : m ≤ n + 1) :
    Progress cycle n (n + 1) failed (d.setPayout u) where
  paying := h.paying
  outpoints := (d.outpoints_setPayout u).trans h.outpoints
  ahead i hi := (RewardCycleDoc.setPayout_other (by omega)).trans (h.ahead i (by omega))
  failures hf := by
    obtain ⟨i, p, hi, hp, hstatus⟩ := h.failures hf
    exact ⟨i, p, hi, (RewardCycleDoc.setPayout_other (by omega)).trans hp, hstatus⟩
  paid hf hdist i p hi hp := by
    rw [RewardCycleDoc.setPayout_other (by omega)] at hp
    rw [RewardCycleDoc.distinct, d.outpoints_setPayout u] at hdist
    exact h.paid hf hdist i p hi hp

theorem Progress.loose (h : Progress cycle n n failed d) : Progress cycle n (n + 1) failed d :=
  ⟨h.paying, h.outpoints, fun i hi => h.ahead i (by omega), h.failures, h.paid⟩

/-- The row has been dealt with. -/
theorem Progress.next {r : Bool} (h : Progress cycle n (n + 1) failed d)
    (hp : d.payouts[n]? = some p) (hfailed : r = true → p.status = .failed)
    (hpaid : r = false → d.distinct → p.isPaid = true) :
    Progress cycle (n + 1) (n + 1) (failed || r) d where
  paying := h.paying
  outpoints := h.outpoints
  ahead := h.ahead
  failures hf := by
    cases (Bool.or_eq_true _ _).mp hf with
    | inl hf =>
        obtain ⟨i, e, hi, he, hstatus⟩ := h.failures hf
        exact ⟨i, e, by omega, he, hstatus⟩
    | inr hr => exact ⟨n, p, by omega, hp, hfailed hr⟩
  paid hf hdist i e hi he := by
    obtain ⟨hf, hr⟩ := (Bool.or_eq_false_iff).mp hf
    by_cases hin : i = n
    · subst hin
      cases hp.symm.trans he
      exact hpaid hr hdist
    · exact h.paid hf hdist i e (by omega) he

end Rows

/-- A transaction id is only put on the row it paid. -/
theorem PayoutInv.setPayout (hi : PayoutInv cfg id w) {d : RewardCycleDoc}
    (hd : w.rewardCycles.get id = some d) (hpaying : d.status = .payingOut) {u : PayoutSet}
    (htx : ∀ p t, d.payouts[u.index]? = some p → u.txid = some t →
      w.paidTo id u.index = [p.payment id u.index t]) :
    PayoutInv cfg id (w.setRewardCycle id { payout := some u }) := by
  have hset := World.get_setRewardCycle hd { payout := some u }
  refine ⟨fun e he => ?_, fun e he i => ?_, fun hnone => ?_⟩
  · cases hset.symm.trans he
    exact (hi.accounts d hd).setPayout hpaying u
  · cases hset.symm.trans he
    by_cases hiu : i = u.index
    · subst hiu
      obtain ⟨hnil, hnone⟩ | ⟨p, t, hp, hpaid, hfiled⟩ := hi.rows d hd u.index
      · refine Or.inl ⟨hnil, fun e he => ?_⟩
        cases hp : d.payouts[u.index]? with
        | none => simp [RewardCycleSet.apply, hp] at he
        | some p =>
            cases (d.setPayout_row hp).symm.trans he
            cases htxid : u.txid with
            | none => simp [PayoutSet.apply, htxid, hnone p hp]
            | some t => cases hnil.symm.trans (htx p t hp htxid)
      · refine Or.inr ⟨u.apply p, t, d.setPayout_row hp, hpaid, ?_⟩
        cases htxid : u.txid with
        | none => simpa [PayoutSet.apply, htxid] using hfiled
        | some t' =>
            have hsame := hpaid.symm.trans (htx p t' hp htxid)
            simp only [PayoutDoc.payment, List.cons.injEq, Send.mk.injEq] at hsame
            simp [PayoutSet.apply, htxid, hsame.1.1]
    · have hrow := d.setPayout_other hiu
      have hold := hi.rows d hd i
      rw [World.PaidOnce, ← hrow] at hold
      exact hold
  · cases hnone.symm.trans hset

theorem World.Unpaid.setPayout {rows : Nat → Prop} (hs : w.Unpaid id rows) (u : PayoutSet) :
    (w.setRewardCycle id { payout := some u }).Unpaid id rows := by
  intro e i p he hi hp hnone
  rw [World.setRewardCycle, Collection.get_modify_self] at he
  obtain ⟨d, hd, rfl⟩ := Option.map_eq_some_iff.mp he
  have hrow : (d.setPayout u).payouts[i]? = some p := hp
  by_cases hiu : i = u.index
  · subst hiu
    cases hold : d.payouts[u.index]? with
    | none => simp [RewardCycleDoc.payouts_setPayout, hold] at hrow
    | some q =>
        cases (d.setPayout_row hold).symm.trans hrow
        exact hs d u.index q hd hi hold (Option.or_eq_none_iff.mp hnone).2
  · exact hs d i p hd hi ((d.setPayout_other hiu).symm.trans hrow) hnone

/-- A run is at row `n` of a cycle it has loaded, and from `m` on nothing is paid without
being on file. -/
structure AtRow (lost : Bool) (id : ObjectId) (cycle : RewardCycleDoc) (n m : Nat) (failed : Bool)
    (w : World) : Prop where
  row : ∃ d, w.rewardCycles.get id = some d ∧ Progress cycle n m failed d
  unpaid : w.Unpaid id fun i => lost = false ∨ m ≤ i

/-- The row has been paid, and the id of the payment is to be put on file. -/
structure PaymentMade (lost : Bool) (id : ObjectId) (cycle : RewardCycleDoc) (n : Nat)
    (failed : Bool) (t : Txid) (w : World) : Prop where
  row : ∃ d p, w.rewardCycles.get id = some d ∧ Progress cycle n (n + 1) failed d ∧
    d.payouts[n]? = some p ∧ w.paidTo id n = [p.payment id n t]
  unpaid : w.Unpaid id fun i => i ≠ n ∧ (lost = false ∨ n + 1 ≤ i)

/-- The row has that transaction on file. -/
def FiledPayout (id : ObjectId) (n : Nat) (t : Txid) (w : World) : Prop :=
  ∃ d p, w.rewardCycles.get id = some d ∧ d.payouts[n]? = some p ∧ p.txid = some t

/-- What only speaks of the cycle and its payments. -/
def OfPayouts (id : ObjectId) (P : World → Prop) : Prop :=
  ∀ v w, PayoutsKept id v w → P v → P w

section Outline
variable {α β : Type} {op : Op β} {P Q N : World → Prop} {cycle : RewardCycleDoc} {n m : Nat}
  {failed : Bool} {t : Txid} {p : PayoutDoc}

theorem AtRow.kept : OfPayouts id (AtRow lost id cycle n m failed) :=
  fun _ _ h hs => ⟨h.row ▸ hs.row, hs.unpaid.kept h⟩

theorem PaymentMade.kept : OfPayouts id (PaymentMade lost id cycle n failed t) := by
  intro v w h hs
  obtain ⟨d, p, hd, hrow⟩ := hs.row
  exact ⟨⟨d, p, h.row ▸ hd, (h.paid n).symm ▸ hrow⟩, hs.unpaid.kept h⟩

theorem FiledPayout.kept : OfPayouts id (FiledPayout id n t) := by
  intro v w h hs
  obtain ⟨d, p, hd, hrow⟩ := hs
  exact ⟨d, p, h.row ▸ hd, hrow⟩

theorem PaymentsOnFile.kept : OfPayouts id (PaymentsOnFile lost id) :=
  fun _ _ h hs => World.Unpaid.kept hs h

theorem OfPayouts.and (hP : OfPayouts id P) (hQ : OfPayouts id Q) :
    OfPayouts id fun w => P w ∧ Q w :=
  fun v w h hs => ⟨hP v w h hs.1, hQ v w h hs.2⟩

theorem OfPayouts.stable (hP : OfPayouts id P) : (payoutRules cfg lost id).Stable () P :=
  fun s t _ _ hst hs => hP s t hst.kept hs

theorem AtRow.on_file (h : AtRow lost id cycle n m failed w) : PaymentsOnFile lost id w :=
  h.unpaid.mono fun _ => Or.inl

theorem AtRow.loose (h : AtRow lost id cycle n n failed w) :
    AtRow lost id cycle n (n + 1) failed w := by
  obtain ⟨d, hd, hprogress⟩ := h.row
  exact ⟨⟨d, hd, hprogress.loose⟩, h.unpaid.mono fun i hi => hi.imp_right (by omega)⟩

theorem payouts_performs {M : Except JsError β → World → Prop}
    (h : ∀ v out r w, PayoutInv cfg id v → P v → (lost = true → op.resumesUnfiled id v = false) →
      (rewardRuns lost).may () op out v = true → answer none op out v = some (r, w) →
      PayoutInv cfg id w ∧ PayoutStep id v w ∧ M r w) :
    (payoutRules cfg lost id).Performs () P op M := by
  intro v out r w hi hs hperm hmay hans
  simp only [service, Bool.and_eq_true] at hmay
  exact ⟨w, rfl, h v out r w hi hs hperm hmay.2 hans⟩

/-- A request that spares the payouts changes nothing that is known of them. -/
theorem payouts_spared (hop : op.sparesPayouts id) (hP : OfPayouts id P) :
    (payoutRules cfg lost id).Performs () P op fun _ => P := by
  refine payouts_performs fun v out r w hi hs _ _ hans => ?_
  have hrec : PayoutsKept id v (recordCall op v) := (recordCall_payouts op v).kept
  obtain ⟨_, _, _, rfl⟩ | ⟨x, hx, _⟩ := answer_cases hans
  · exact ⟨hi.kept hrec, hrec.payoutStep, hP _ _ hrec hs⟩
  · have hkept : PayoutsKept id v w := hrec.trans (.of_effect hop hx)
    exact ⟨hi.kept hkept, hkept.payoutStep, hP _ _ hkept hs⟩

theorem payouts_only {prog : Promise α} (h : prog.Only fun op => op.sparesPayouts id)
    (hP : OfPayouts id P) (hrest : ∀ w, P w → PaymentsOnFile lost id w) :
    (payoutRules cfg lost id).Triple () P prog (fun _ => P) fun _ => P :=
  .harmless h hP.stable (fun w _ => hrest w) fun _ hop => payouts_spared hop hP

theorem rest_only {prog : Promise α} (h : prog.Only fun op => op.sparesPayouts id) :
    (payoutRules cfg lost id).Triple () (PaymentsOnFile lost id) prog
      (fun _ => PaymentsOnFile lost id) fun _ => PaymentsOnFile lost id :=
  payouts_only h PaymentsOnFile.kept fun _ h => h

/-- An update of the cycle. -/
theorem payouts_update {cond : RewardCycleDoc → Bool} {u : RewardCycleSet}
    (h : ∀ w, PayoutInv cfg id w → P w → ∀ d, w.rewardCycles.get id = some d → cond d = true →
      PayoutInv cfg id (w.setRewardCycle id u) ∧ d.status = .payingOut ∧
        Q (w.setRewardCycle id u))
    (hcond : ∀ w, PayoutInv cfg id w → P w →
      (w.rewardCycles.get id).filter cond = none → Q w)
    (hP : (.rewardCycle (.updateOne (fun d => d.id == id && cond d) u) : Op Unit).filesPayout =
      false → ∀ w, P w → N w)
    (hQ : ∀ w, Q w → N w) :
    (payoutRules cfg lost id).Performs () P
      (.rewardCycle (.updateOne (fun d => d.id == id && cond d) u)) (Answered (fun _ => Q) N) := by
  refine payouts_performs fun v out r w hi hs _ hmay hans => ?_
  obtain ⟨e, rfl, rfl, rfl⟩ | ⟨x, hx, hout⟩ := answer_cases hans
  · refine ⟨hi, .refl _, hP ?_ _ hs⟩
    simp only [rewardRuns, Bool.or_eq_true] at hmay
    exact Bool.not_eq_true' _ ▸ hmay.resolve_right (by simp [Outcome.isFail])
  · have hw : PayoutInv cfg id w ∧ PayoutStep id v w ∧ Q w := by
      cases hrow : (v.rewardCycles.get id).filter cond with
      | none =>
          have heff := MasternodeRewardCycle.effect_updateWhere none id cond u v
          rw [hrow] at heff
          cases heff.symm.trans hx
          exact ⟨hi, .refl _, hcond _ hi hs hrow⟩
      | some d =>
          have heff := MasternodeRewardCycle.effect_updateWhere none id cond u v
          rw [hrow] at heff
          cases heff.symm.trans hx
          obtain ⟨hd, hc⟩ := Option.filter_eq_some_iff.mp hrow
          obtain ⟨hinv, hpaying, hq⟩ := h v hi hs d hd hc
          have hopen := RewardCycleDoc.isResumable_of_paying hpaying
          exact ⟨hinv, .of_update hd hopen u, hq⟩
    refine ⟨hw.1, hw.2.1, ?_⟩
    obtain ⟨rfl, rfl⟩ | ⟨_, _, rfl⟩ := hout
    · have heff := MasternodeRewardCycle.effect_updateWhere none id cond u v
      cases heff.symm.trans hx
      exact hw.2.2
    · exact hQ w hw.2.2

/-- An update of a row of the cycle that is paying out. -/
theorem payouts_setRow (cycle : RewardCycleDoc) (failed : Bool) {u : PayoutSet} (hu : u.index = n) (hm : m ≤ n + 1)
    (hP : ∀ w, P w → ∃ d, w.rewardCycles.get id = some d ∧ Progress cycle n m failed d)
    (htx : ∀ w, PayoutInv cfg id w → P w → ∀ d p t, w.rewardCycles.get id = some d →
      d.payouts[n]? = some p → u.txid = some t → w.paidTo id n = [p.payment id n t])
    (hunpaid : ∀ w, P w → w.Unpaid id fun i => i ≠ n ∧ (lost = false ∨ n + 1 ≤ i))
    (hself : ∀ w, P w → u.txid = none → lost = false → w.Unpaid id fun i => i = n)
    (hQ : ∀ w d p, PayoutInv cfg id w → AtRow lost id cycle n (n + 1) failed w →
      w.rewardCycles.get id = some d → d.payouts[n]? = some (u.apply p) → Q w)
    (hn : n < cycle.payouts.length)
    (hfail : (u.txid.isSome && u.status.isNone) = false → ∀ w, P w → N w) (hN : ∀ w, Q w → N w) :
    (payoutRules cfg lost id).Performs () P
      (.rewardCycle (.updateOne (fun d => d.id == id && true) { payout := some u }))
      (Answered (fun _ => Q) N) := by
  subst hu
  refine payouts_update (fun w hi hs d hd _ => ?_) (fun w hi hs hnone => ?_)
    (fun hfiles => hfail hfiles) hN
  · obtain ⟨e, he, hprogress⟩ := hP w hs
    cases hd.symm.trans he
    have hset := World.get_setRewardCycle hd { payout := some u }
    have hrow : ∃ p, d.payouts[u.index]? = some p := by
      have hlength : d.payouts.length = cycle.payouts.length := by
        simpa using congrArg List.length hprogress.outpoints
      exact ⟨_, List.getElem?_eq_getElem (hlength ▸ hn)⟩
    obtain ⟨p, hp⟩ := hrow
    have hinv := hi.setPayout hd hprogress.paying fun p t hp ht => htx w hi hs d p t hd hp ht
    refine ⟨hinv, hprogress.paying, hQ _ _ p hinv ⟨⟨_, hset, hprogress.setPayout rfl hm⟩, ?_⟩ hset
      (d.setPayout_row hp)⟩
    intro e i q he hi hq hnone
    by_cases hiu : i = u.index
    · subst hiu
      cases hset.symm.trans he
      cases (d.setPayout_row hp).symm.trans hq
      obtain ⟨htxid, hold⟩ := Option.or_eq_none_iff.mp hnone
      exact hself w hs htxid (hi.resolve_right (by omega)) d u.index p hd rfl hp hold
    · exact (hunpaid w hs).setPayout u e i q he ⟨hiu, hi⟩ hq hnone
  · obtain ⟨e, he, _⟩ := hP w hs
    rw [he] at hnone
    cases hnone

/-- The payment of a row that has not been paid. -/
theorem send_payouts (hp : cycle.payouts[n]? = some p) (hnone : p.txid = none) :
    (payoutRules cfg lost id).Performs () (AtRow lost id cycle n n failed)
      (.sendToAddress p.payoutAddress (satsToFair p.amountSats) (some (id, n)))
      (Answered (fun t => PaymentMade lost id cycle n failed t)
        (AtRow lost id cycle n (n + 1) failed)) := by
  refine payouts_performs fun v out r w hi hs _ hmay hans => ?_
  have hrec : PayoutsKept id v (recordCall
      (.sendToAddress p.payoutAddress (satsToFair p.amountSats) (some (id, n))) v) :=
    (recordCall_payouts _ v).kept
  have hi := hi.kept hrec
  have hs := AtRow.kept _ _ hrec hs
  obtain ⟨d, hd, hprogress⟩ := hs.row
  have hstep (u : World) (hu : u.rewardCycles.get id = some d) : PayoutStep id v u :=
    .of_open (hrec.row.symm.trans hd) (RewardCycleDoc.isResumable_of_paying hprogress.paying) hu
      rfl rfl
  obtain ⟨_, _, rfl, rfl⟩ | ⟨x, hx, hout⟩ := answer_cases hans
  · exact ⟨hi, hrec.payoutStep, hs.loose⟩
  · generalize recordCall (.sendToAddress p.payoutAddress (satsToFair p.amountSats) (some (id, n)))
      v = v at hi hs hx hd
    obtain ⟨e, rfl, rfl⟩ | ⟨rfl, rfl, _⟩ := effect_sendToAddress hx
    · refine ⟨hi, hstep _ hd, ?_⟩
      obtain ⟨_, rfl⟩ | ⟨_, _, rfl⟩ := hout <;> exact hs.loose
    · rw [fairValueToSats_satsToFair] at *
      have hrow : d.payouts[n]? = some p := (hprogress.ahead n (Nat.le_refl n)).trans hp
      have hpaid := v.paidTo_send id n none p.payoutAddress p.amountSats
      rw [hs.unpaid d n p hd (Or.inr (Nat.le_refl n)) hrow hnone] at hpaid
      have hother : ∀ i, i ≠ n → (v.send none p.payoutAddress p.amountSats
          (some (id, n))).paidTo id i = v.paidTo id i :=
        fun i hin => v.paidTo_send_other (by simp [Ne.symm hin])
      have hunpaid : (v.send none p.payoutAddress p.amountSats (some (id, n))).Unpaid id
          fun i => i ≠ n ∧ (lost = false ∨ n + 1 ≤ i) := by
        intro e i q he hi hq hfresh
        rw [hother i hi.1]
        exact hs.unpaid e i q he (hi.2.imp_right (by omega)) hq hfresh
      refine ⟨⟨hi.accounts, fun e he i => ?_, fun habsent => ?_⟩, hstep _ hd, ?_⟩
      · cases hd.symm.trans he
        by_cases hin : i = n
        · subst hin
          exact Or.inr ⟨p, _, hrow, hpaid, Or.inl hnone⟩
        · rw [World.PaidOnce, hother i hin]
          exact hi.rows d hd i
      · cases hd.symm.trans habsent
      · obtain ⟨_, rfl⟩ | ⟨_, rfl, rfl⟩ := hout
        · exact ⟨⟨d, p, hd, hprogress.loose, hrow, hpaid⟩, hunpaid⟩
        · have hlost : lost = true := by simpa [rewardRuns, Outcome.isLost] using hmay
          refine ⟨⟨d, hd, hprogress.loose⟩, hunpaid.mono fun i hi => ?_⟩
          have hbehind : n + 1 ≤ i := hi.resolve_left (by simp [hlost])
          exact ⟨by omega, Or.inr hbehind⟩

theorem PaymentMade.row_lt (h : PaymentMade lost id cycle n failed t w) :
    n < cycle.payouts.length := by
  obtain ⟨d, p, _, hprogress, hp, _⟩ := h.row
  have hlength : d.payouts.length = cycle.payouts.length := by
    simpa using congrArg List.length hprogress.outpoints
  exact hlength ▸ (List.getElem?_eq_some_iff.mp hp).1

/-- The id of the payment goes on the row. -/
theorem persist_payouts (hn : n < cycle.payouts.length) :
    (payoutRules cfg lost id).Performs () (PaymentMade lost id cycle n failed t)
      (.rewardCycle (.updateOne (fun d => d.id == id && true)
        { payout := some { index := n, txid := some t } }))
      (Answered (fun _ w => AtRow lost id cycle n (n + 1) failed w ∧ FiledPayout id n t w)
        (AtRow lost id cycle n (n + 1) failed)) := by
  refine payouts_setRow cycle failed (m := n + 1) (n := n) rfl (Nat.le_refl _)
    (fun w hs => ?_) (fun w hi hs d p t' hd hp ht => ?_) (fun w hs => hs.unpaid) (by rintro _ _ ⟨⟩)
    (fun w d p _ hs hd hp => ⟨hs, d, _, hd, hp, rfl⟩) hn (by rintro ⟨⟩) fun w hs => hs.1
  · obtain ⟨d, _, hd, hprogress, _⟩ := hs.row
    exact ⟨d, hd, hprogress⟩
  · cases ht
    obtain ⟨e, q, he, _, hq, hpaid⟩ := hs.row
    cases hd.symm.trans he
    cases hp.symm.trans hq
    exact hpaid

/-- A row that has its payment on file was paid so. -/
theorem PayoutInv.filed (hi : PayoutInv cfg id w) {d : RewardCycleDoc}
    (hd : w.rewardCycles.get id = some d) (hp : d.payouts[n]? = some p) (ht : p.txid = some t) :
    w.paidTo id n = [p.payment id n t] := by
  obtain ⟨_, hnone⟩ | ⟨q, t', hq, hpaid, hfiled⟩ := hi.rows d hd n
  · cases (hnone p hp).symm.trans ht
  · cases hp.symm.trans hq
    rw [ht] at hfiled
    obtain rfl : t = t' := by simpa using hfiled
    exact hpaid

/-- The row is marked as broadcast. -/
theorem broadcast_payouts (hn : n < cycle.payouts.length) (hm : m ≤ n + 1)
    (hN : ∀ w, AtRow lost id cycle n m failed w → N w)
    (hQ : ∀ w, AtRow lost id cycle n (n + 1) failed w → N w) :
    (payoutRules cfg lost id).Performs ()
      (fun w => AtRow lost id cycle n m failed w ∧ FiledPayout id n t w)
      (.rewardCycle (.updateOne (fun d => d.id == id && true)
        { payout := some { index := n, status := some .broadcast, txid := some t } }))
      (Answered (fun _ w => AtRow lost id cycle (n + 1) (n + 1) failed w ∧
        AtRow lost id cycle n (n + 1) failed w) N) := by
  refine payouts_setRow cycle failed (m := m) (n := n) rfl hm
    (fun w hs => hs.1.row) (fun w hi hs d p t' hd hp ht => ?_)
    (fun w hs => hs.1.unpaid.mono fun i hi => hi.2.imp_right (by omega)) (by rintro _ _ ⟨⟩)
    (fun w d p _ hs hd hp => ?_) hn (fun _ w hs => hN w hs.1) fun w hs => hQ w hs.2
  · cases ht
    obtain ⟨e, q, he, hq, htxid⟩ := hs.2
    cases hd.symm.trans he
    cases hp.symm.trans hq
    exact hi.filed hd hp htxid
  · obtain ⟨e, he, hprogress⟩ := hs.row
    cases hd.symm.trans he
    have hnext := hprogress.next (r := false) hp (by rintro ⟨⟩) fun _ _ => rfl
    exact ⟨⟨⟨d, hd, by simpa using hnext⟩, hs.unpaid⟩, hs⟩

/-- The row is marked as failed. -/
theorem markFailed_payouts (message : String) (hn : n < cycle.payouts.length) (hm : m ≤ n + 1) :
    (payoutRules cfg lost id).Performs () (AtRow lost id cycle n m failed)
      (.rewardCycle (.updateOne (fun d => d.id == id && true)
        { payout := some { index := n, status := some .failed, errorMessage := some message } }))
      (Answered (fun _ => AtRow lost id cycle (n + 1) (n + 1) true) (PaymentsOnFile lost id)) := by
  refine payouts_setRow cycle failed (m := m) (n := n) rfl hm
    (fun w hs => hs.row) (by rintro _ _ _ _ _ _ _ _ ⟨⟩)
    (fun w hs => hs.unpaid.mono fun i hi => hi.2.imp_right (by omega))
    (fun w hs _ hlost => hs.unpaid.mono fun _ _ => Or.inl hlost)
    (fun w d p _ hs hd hp => ?_) hn (fun _ w hs => hs.on_file) fun w hs => hs.on_file
  obtain ⟨e, he, hprogress⟩ := hs.row
  cases hd.symm.trans he
  have hnext := hprogress.next (r := true) hp (fun _ => rfl) (by rintro ⟨⟩)
  exact ⟨⟨d, hd, by simpa using hnext⟩, hs.unpaid⟩

theorem AtRow.row_lt (hn : cycle.payouts[n]? = some p) : n < cycle.payouts.length :=
  (List.getElem?_eq_some_iff.mp hn).1

/-- A row that has failed is marked so, and the operator is told. -/
theorem failRow_payouts (message text : String) (hn : n < cycle.payouts.length) (hm : m ≤ n + 1) :
    (payoutRules cfg lost id).Triple () (AtRow lost id cycle n m failed)
      (do markPayoutFailed id n message; alert cfg text; return true)
      (fun r => AtRow lost id cycle (n + 1) (n + 1) (failed || r))
      fun _ => PaymentsOnFile lost id := by
  refine .bind (.step AtRow.kept.stable (fun w _ hs => hs.on_file)
    (markFailed_payouts message hn hm) fun _ => AtRow.kept.stable) fun _ => ?_
  refine .bind (M := fun _ => AtRow lost id cycle (n + 1) (n + 1) true) ?_ fun _ => ?_
  · exact (payouts_only (alert_only (fun _ => trivial) text) AtRow.kept fun w hs => hs.on_file).weaken
      (fun _ _ h => h) (fun _ _ _ h => h) fun _ w _ hs => hs.on_file
  · refine .pure AtRow.kept.stable fun w _ hs => ?_
    rw [Bool.or_true]
    exact hs

theorem payFresh_payouts (hp : cycle.payouts[n]? = some p) (hnone : p.txid = none) :
    (payoutRules cfg lost id).Triple () (AtRow lost id cycle n n failed)
      (payFresh cfg id n p) (fun r => AtRow lost id cycle (n + 1) (n + 1) (failed || r))
      fun _ => PaymentsOnFile lost id := by
  have hn := AtRow.row_lt hp
  have hcaught : (payoutRules cfg lost id).Stable () (AtRow lost id cycle n (n + 1) failed) :=
    AtRow.kept.stable
  refine .tryCatch (M := fun _ => AtRow lost id cycle n (n + 1) failed) ?_ fun err =>
    failRow_payouts _ _ hn (Nat.le_refl _)
  refine .bind (.call AtRow.kept.stable (.of_rest fun w _ hs => hs.on_file)
    (send_payouts hp hnone) (fun _ => PaymentMade.kept.stable) hcaught) fun t => ?_
  refine .bind (.call PaymentMade.kept.stable (fun _ _ _ hkill => by cases hkill)
    (persist_payouts hn) (fun _ => (AtRow.kept.and FiledPayout.kept).stable) hcaught) fun _ => ?_
  refine .bind (.call (AtRow.kept.and FiledPayout.kept).stable (.of_rest fun w _ hs => hs.1.on_file)
    (broadcast_payouts hn (Nat.le_refl _) (fun _ hs => hs) fun _ hs => hs)
    (fun _ => (AtRow.kept.and AtRow.kept).stable) hcaught) fun _ => ?_
  refine .pure (AtRow.kept.and AtRow.kept).stable fun w _ hs => ?_
  rw [Bool.or_false]
  exact hs.1

/-- A row that has a transaction on file is not paid again. -/
theorem reconcilePayout_payouts (hp : cycle.payouts[n]? = some p) (ht : p.txid = some t) :
    (payoutRules cfg lost id).Triple () (AtRow lost id cycle n n failed)
      (reconcilePayout cfg id n p t)
      (fun r => AtRow lost id cycle (n + 1) (n + 1) (failed || r))
      fun _ => PaymentsOnFile lost id := by
  have hn := AtRow.row_lt hp
  have hrow : ∀ w, AtRow lost id cycle n n failed w →
      ∃ d, w.rewardCycles.get id = some d ∧ Progress cycle n n failed d ∧
        d.payouts[n]? = some p := by
    intro w hs
    obtain ⟨d, hd, hprogress⟩ := hs.row
    exact ⟨d, hd, hprogress, (hprogress.ahead n (Nat.le_refl n)).trans hp⟩
  rw [reconcilePayout]
  split
  · rename_i hstatus
    refine .pure AtRow.kept.stable fun w _ hs => ?_
    obtain ⟨d, hd, hprogress, hp⟩ := hrow w hs
    refine ⟨⟨d, hd, hprogress.loose.next hp (by rintro ⟨⟩) fun _ _ => ?_⟩,
      hs.unpaid.mono fun i hi => hi.imp_right (by omega)⟩
    simpa [PayoutDoc.isPaid, ht] using hstatus
  · refine .bind (M := fun _ => AtRow lost id cycle n n failed) ?_ fun exists' => ?_
    · exact (payouts_only (fairTxExists_only (fun _ => trivial) t) AtRow.kept fun w hs => hs.on_file).weaken
        (fun _ _ h => h) (fun _ _ _ h => h) fun _ w _ hs => hs.on_file
    · split
      · refine Triple.pre (P := fun w => AtRow lost id cycle n n failed w ∧ FiledPayout id n t w) ?_
          fun w _ hs => ?_
        · refine .bind (.step (AtRow.kept.and FiledPayout.kept).stable (fun w _ hs => hs.1.on_file)
            (broadcast_payouts hn (Nat.le_succ n) (fun w hs => hs.on_file) fun w hs => hs.on_file)
            fun _ => (AtRow.kept.and AtRow.kept).stable) fun _ => ?_
          refine .pure (AtRow.kept.and AtRow.kept).stable fun w _ hs => ?_
          rw [Bool.or_false]
          exact hs.1
        · obtain ⟨d, hd, _, hp⟩ := hrow w hs
          exact ⟨hs, d, p, hd, hp, ht⟩
      · exact failRow_payouts _ _ hn (Nat.le_succ n)

/-- With outpoints of their own, no row is taken for another that has been paid. -/
theorem payoutStep_payouts (hp : cycle.payouts[n]? = some p) :
    (payoutRules cfg lost id).Triple () (AtRow lost id cycle n n failed)
      (payoutStep cfg id (alreadyBroadcastOutpoints cycle) n p)
      (fun r => AtRow lost id cycle (n + 1) (n + 1) (failed || r))
      fun _ => PaymentsOnFile lost id := by
  rw [payoutStep]
  cases ht : p.txid with
  | some t => exact reconcilePayout_payouts hp ht
  | none =>
      simp only
      split
      · rename_i hskip
        refine .pure AtRow.kept.stable fun w _ hs => ?_
        obtain ⟨d, hd, hprogress⟩ := hs.row
        refine ⟨⟨d, hd, hprogress.loose.next ((hprogress.ahead n (Nat.le_refl n)).trans hp)
          (by rintro ⟨⟩) fun _ hdist => ?_⟩, hs.unpaid.mono fun i hi => hi.imp_right (by omega)⟩
        rw [List.contains_iff_mem] at hskip
        obtain ⟨q, hq, hsame⟩ := List.mem_map.mp hskip
        obtain ⟨hq, hpaid⟩ := List.mem_filter.mp hq
        rw [RewardCycleDoc.distinct, hprogress.outpoints] at hdist
        obtain rfl := List.inj_on_of_nodup_map hdist hq (List.mem_of_getElem? hp) hsame
        exact hpaid
      · exact payFresh_payouts hp ht

/-- By induction on the rows that are left. -/
theorem payoutSteps_payouts (payouts : List PayoutDoc) (hrest : cycle.payouts.drop n = payouts)
    (hn : n ≤ cycle.payouts.length) :
    (payoutRules cfg lost id).Triple () (AtRow lost id cycle n n failed)
      (payoutSteps cfg id (alreadyBroadcastOutpoints cycle) n failed payouts)
      (fun r => AtRow lost id cycle cycle.payouts.length cycle.payouts.length r)
      fun _ => PaymentsOnFile lost id := by
  induction payouts generalizing n failed with
  | nil =>
      have hend : n = cycle.payouts.length :=
        Nat.le_antisymm hn (List.drop_eq_nil_iff.mp hrest)
      subst hend
      exact .pure AtRow.kept.stable fun _ _ hs => hs
  | cons p payouts ih =>
      have hp : cycle.payouts[n]? = some p := by
        have hhead := congrArg List.head? hrest
        rwa [List.head?_drop] at hhead
      have htail : cycle.payouts.drop (n + 1) = payouts := by
        have h := congrArg List.tail hrest
        rwa [List.tail_drop] at h
      exact .bind (payoutStep_payouts hp) fun r => ih htail (AtRow.row_lt hp)

/-- A cycle is read back as it is on file. -/
theorem findById_payouts (cycleId : ObjectId) (hP : OfPayouts id P)
    (hrest : ∀ w, P w → PaymentsOnFile lost id w) :
    (payoutRules cfg lost id).Triple () P (MasternodeRewardCycle.findById cycleId)
      (fun found w => P w ∧ (∀ d, found = some d → d.id = cycleId) ∧
        (cycleId = id → found = w.rewardCycles.get id))
      fun _ => PaymentsOnFile lost id := by
  refine .step hP.stable (fun w _ => hrest w) ?_ fun found => ?_
  · refine payouts_performs fun v out r w hi hs _ _ hans => ?_
    obtain ⟨_, _, rfl, rfl⟩ | ⟨x, hx, hout⟩ := answer_cases hans
    · exact ⟨hi, .refl _, hrest _ hs⟩
    · cases hx
      refine ⟨hi, .refl _, ?_⟩
      obtain ⟨_, rfl⟩ | ⟨_, _, rfl⟩ := hout
      · refine ⟨hs, fun d hd => ?_, ?_⟩
        · simpa using (pick_some hd).2
        · rintro rfl
          rfl
      · exact hrest _ hs
  · exact OfPayouts.stable (hP.and fun v w h hs =>
      ⟨hs.1, fun hid => (hs.2 hid).trans h.row.symm⟩)

/-- The cycle ends as its rows did. -/
theorem finalise_payouts {fresh : RewardCycleDoc}
    (hfinal : fresh.payouts.all PayoutDoc.isFinal = true) :
    (payoutRules cfg lost id).Performs ()
      (fun w => AtRow lost id cycle cycle.payouts.length cycle.payouts.length failed w ∧
        w.rewardCycles.get id = some fresh)
      (.rewardCycle (.updateOne (fun d => d.id == id && d.status == .payingOut)
        (finalStatus failed)))
      (Answered (fun _ => PaymentsOnFile lost id) (PaymentsOnFile lost id)) := by
  refine payouts_update (fun w hi hs d hd _ => ?_) (fun w _ hs _ => hs.1.on_file)
    (fun _ w hs => hs.1.on_file) fun _ h => h
  have hfinal : d.payouts.all PayoutDoc.isFinal = true := by
    cases hd.symm.trans hs.2
    exact hfinal
  have hset := World.get_setRewardCycle hd (finalStatus failed)
  have hold := hi.accounts d hd
  obtain ⟨e, he, hprogress⟩ := hs.1.row
  cases hd.symm.trans he
  have hlength : d.payouts.length = cycle.payouts.length := by
    simpa using congrArg List.length hprogress.outpoints
  have hpayouts : ((finalStatus failed).apply d).payouts = d.payouts := by
    cases failed <;> rfl
  have hunpaid : (w.setRewardCycle id (finalStatus failed)).Unpaid id fun _ => lost = false := by
    intro e i p he hi hp hnone
    cases hset.symm.trans he
    rw [hpayouts] at hp
    exact hs.1.on_file d i p hd hi hp hnone
  refine ⟨⟨fun e he => ?_, fun e he i => ?_, fun habsent => ?_⟩, hprogress.paying, hunpaid⟩
  · cases hset.symm.trans he
    have hper : ((finalStatus failed).apply d).perMasternodeFair = d.perMasternodeFair := by
      cases failed <;> rfl
    have hpool : ((finalStatus failed).apply d).poolBalanceFair = d.poolBalanceFair := by
      cases failed <;> rfl
    refine ⟨fun _ p hp => ?_, fun hcomplete hdist p hp => ?_, fun hstatus => ?_, fun p hp => ?_,
      fun hne => ?_⟩
    · rw [hpayouts] at hp
      exact List.all_eq_true.mp hfinal p hp
    · cases failed with
      | true => cases hcomplete
      | false =>
          obtain ⟨i, hi, rfl⟩ := List.getElem_of_mem hp
          exact hprogress.paid rfl hdist i _ (hlength ▸ hi) (List.getElem?_eq_getElem hi)
    · cases failed with
      | false => cases hstatus
      | true =>
          obtain ⟨i, p, _, hp, hfailed⟩ := hprogress.failures rfl
          exact ⟨p, List.mem_of_getElem? hp, hfailed⟩
    · rw [hpayouts] at hp
      rw [hper]
      exact hold.shares p hp
    · rw [hpayouts, hper, hpool] at *
      exact hold.pool hne
  · cases hset.symm.trans he
    have hrow := hi.rows d hd i
    rw [World.PaidOnce, ← hpayouts] at hrow
    exact hrow
  · cases hset.symm.trans habsent

theorem finaliseCycle_payouts :
    (payoutRules cfg lost id).Triple ()
      (AtRow lost id cycle cycle.payouts.length cycle.payouts.length failed)
      (finaliseCycle id failed) (fun _ => PaymentsOnFile lost id)
      fun _ => PaymentsOnFile lost id := by
  have hrow (fresh : RewardCycleDoc) :
      OfPayouts id fun w => w.rewardCycles.get id = some fresh :=
    fun v w h hs => h.row.trans hs
  refine .bind (findById_payouts id AtRow.kept fun w hs => hs.on_file) fun found => ?_
  cases found with
  | none =>
      refine Triple.pre (P := PaymentsOnFile lost id) ?_ fun w _ hs => hs.1.on_file
      exact .pure .rest fun _ _ h => h
  | some fresh =>
      simp only
      refine Triple.pre (P := fun w =>
        AtRow lost id cycle cycle.payouts.length cycle.payouts.length failed w ∧
          w.rewardCycles.get id = some fresh) ?_ fun w _ hs => ⟨hs.1, (hs.2.2 trivial).symm⟩
      split
      · rename_i hfinal
        refine .bind (.step (AtRow.kept.and (hrow fresh)).stable (fun w _ hs => hs.1.on_file)
          (finalise_payouts hfinal) fun _ => .rest) fun _ => ?_
        exact rest_only (.request trivial)
      · exact .pure (AtRow.kept.and (hrow fresh)).stable fun w _ hs => hs.1.on_file

/-- The cycle a run goes on with. If it is this one the run has it as it is on file. -/
def LoadedPayouts (lost : Bool) (id : ObjectId) (cycle : RewardCycleDoc) (w : World) : Prop :=
  PaymentsOnFile lost id w ∧ (cycle.id = id → AtRow lost id cycle 0 0 false w)

theorem LoadedPayouts.kept : OfPayouts id (LoadedPayouts lost id cycle) :=
  fun v w h hs => ⟨PaymentsOnFile.kept v w h hs.1, fun hid => AtRow.kept v w h (hs.2 hid)⟩

theorem rowRequests_sparesPayouts {cycleId : ObjectId} (h : cycleId ≠ id) :
    RowRequests (fun op => op.sparesPayouts id) cycleId where
  known _ := trivial
  webhook _ := trivial
  update _ d hd := by simp [hd, Ne.symm h]

theorem executeCycle_payouts (cycle : RewardCycleDoc) :
    (payoutRules cfg lost id).Triple () (LoadedPayouts lost id cycle) (executeCycle cfg cycle)
      (fun _ => PaymentsOnFile lost id) fun _ => PaymentsOnFile lost id := by
  by_cases hid : cycle.id = id
  · subst hid
    refine Triple.pre (P := AtRow lost cycle.id cycle 0 0 false) ?_ fun w _ hs => hs.2 rfl
    exact .bind (payoutSteps_payouts cycle.payouts rfl (Nat.zero_le _)) fun _ =>
      finaliseCycle_payouts
  · refine Triple.pre (P := PaymentsOnFile lost id) ?_ fun w _ hs => hs.1
    refine rest_only (.bind ((rowRequests_sparesPayouts hid).payoutSteps _ _ _ _
      fun p _ _ n _ _ => ?_) fun _ => finaliseCycle_only (fun _ => trivial) (fun _ => trivial) ?_)
    · intro m
      simp [hid]
    · intro d hd
      simp [hd, Ne.symm hid]

/-- What is on file of a cycle that is loaded has been paid, and nothing else. -/
theorem World.unpaid_of_unfiled {d : RewardCycleDoc} (hd : w.rewardCycles.get id = some d)
    (h : w.unfiled id d = false) : w.Unpaid id fun _ => True := by
  intro e i p he _ hp hnone
  cases hd.symm.trans he
  have hrow := List.any_eq_false.mp h (p, i) (List.mem_zipIdx_iff_getElem?.mpr hp)
  simpa [hnone] using hrow

/-- The oldest open cycle is claimed. -/
theorem claim_payouts :
    (payoutRules cfg lost id).Performs () (PaymentsOnFile lost id)
      (.rewardCycle (.findOneAndUpdate RewardCycleDoc.isResumable
        (some RewardCycleDoc.createdAt) { status := some .payingOut }))
      (Answered (Found (LoadedPayouts lost id) (PaymentsOnFile lost id))
        (PaymentsOnFile lost id)) := by
  refine payouts_performs fun v out r w hi hs hperm _ hans => ?_
  obtain ⟨_, _, rfl, rfl⟩ | ⟨x, hx, hout⟩ := answer_cases hans
  · exact ⟨hi, .refl _, hs⟩
  · have heff := MasternodeRewardCycle.effect_findOneAndUpdate none RewardCycleDoc.isResumable
      (some RewardCycleDoc.createdAt) { status := some .payingOut } v
    cases hpick : pick RewardCycleDoc.isResumable (some RewardCycleDoc.createdAt)
      v.rewardCycles.docs with
    | none =>
        rw [hpick] at heff
        cases heff.symm.trans hx
        refine ⟨hi, .refl _, ?_⟩
        obtain ⟨_, rfl⟩ | ⟨_, _, rfl⟩ := hout <;> exact hs
    | some d =>
        rw [hpick] at heff
        cases heff.symm.trans hx
        obtain ⟨hmem, hopen⟩ := pick_some hpick
        have hd : v.rewardCycles.get d.id = some d := Collection.get_of_mem hmem
        have hw : PayoutInv cfg id (v.setRewardCycle d.id { status := some .payingOut }) ∧
            PayoutStep id v (v.setRewardCycle d.id { status := some .payingOut }) ∧
            LoadedPayouts lost id (RewardCycleSet.apply { status := some .payingOut } d)
              (v.setRewardCycle d.id { status := some .payingOut }) := by
          by_cases hid : d.id = id
          · subst hid
            have hset := World.get_setRewardCycle hd { status := some .payingOut }
            have hold := hi.accounts d hd
            have hunpaid : v.Unpaid d.id fun _ => True := by
              intro e i p he _ hp hnone
              cases hl : lost with
              | false => exact hs e i p he hl hp hnone
              | true =>
                  refine World.unpaid_of_unfiled hd ?_ e i p he trivial hp hnone
                  simpa [Op.resumesUnfiled, hpick] using hperm hl
            have hload : AtRow lost d.id (RewardCycleSet.apply { status := some .payingOut } d) 0 0
                false (v.setRewardCycle d.id { status := some .payingOut }) := by
              refine ⟨⟨_, hset, rfl, rfl, fun _ _ => rfl, by rintro ⟨⟩, fun _ _ i _ hi => ?_⟩,
                fun e i p he _ hp hnone => ?_⟩
              · omega
              · cases hset.symm.trans he
                exact hunpaid d i p hd trivial hp hnone
            refine ⟨⟨fun e he => ?_, fun e he i => ?_, fun habsent => ?_⟩,
              .of_update hd hopen _, hload.on_file, fun _ => hload⟩
            · cases hset.symm.trans he
              exact ⟨fun hne => absurd rfl hne, by rintro ⟨⟩, by rintro ⟨⟩, hold.shares, hold.pool⟩
            · cases hset.symm.trans he
              exact hi.rows d hd i
            · cases hset.symm.trans habsent
          · have hkept : PayoutsKept id v
                (v.setRewardCycle d.id { status := some .payingOut }) :=
              ⟨Collection.get_modify_other _ _ (Ne.symm hid), fun _ => rfl⟩
            exact ⟨hi.kept hkept, hkept.payoutStep, PaymentsOnFile.kept _ _ hkept hs,
              fun h => absurd h hid⟩
        refine ⟨hw.1, hw.2.1, ?_⟩
        obtain ⟨_, rfl⟩ | ⟨_, _, rfl⟩ := hout
        · exact hw.2.2
        · exact hw.2.2.1

/-- A cycle that has just been created, none of whose rows has been paid. -/
def CreatedCycle (lost : Bool) (id : ObjectId) (status : RewardCycleStatus)
    (cycle : RewardCycleDoc) (w : World) : Prop :=
  PaymentsOnFile lost id w ∧ cycle.status = status ∧ (cycle.id = id →
    w.rewardCycles.get id = some cycle ∧ ∀ i, w.paidTo id i = [])

theorem CreatedCycle.kept {status : RewardCycleStatus} :
    OfPayouts id (CreatedCycle lost id status cycle) := by
  intro v w h hs
  refine ⟨PaymentsOnFile.kept v w h hs.1, hs.2.1, fun hid => ?_⟩
  obtain ⟨hd, hpaid⟩ := hs.2.2 hid
  exact ⟨h.row.trans hd, fun i => (h.paid i).trans (hpaid i)⟩

theorem create_payouts {doc : RewardCycleDoc} (hdoc : doc.Accounts cfg)
    (hfresh : ∀ p ∈ doc.payouts, p.txid = none) :
    (payoutRules cfg lost id).Performs () (PaymentsOnFile lost id) (.rewardCycle (.create doc))
      (Answered (CreatedCycle lost id doc.status) (PaymentsOnFile lost id)) := by
  refine payouts_performs fun v out r w hi hs _ _ hans => ?_
  obtain ⟨_, _, rfl, rfl⟩ | ⟨x, hx, hout⟩ := answer_cases hans
  · exact ⟨hi, .refl _, hs⟩
  · obtain ⟨_, rfl, rfl⟩ | ⟨rfl, rfl⟩ := MasternodeRewardCycle.effect_create hx
    · refine ⟨hi, .refl _, ?_⟩
      obtain ⟨_, rfl⟩ | ⟨_, _, rfl⟩ := hout <;> exact hs
    · have hget : ∀ i, (v.insertRewardCycle doc).rewardCycles.get i =
          if i = v.rewardCycles.nextId then
            some { doc with id := v.rewardCycles.nextId, createdAt := v.now }
          else v.rewardCycles.get i := v.rewardCycles.get_insert v.now doc
      have hw : PayoutInv cfg id (v.insertRewardCycle doc) ∧
          PayoutStep id v (v.insertRewardCycle doc) ∧ CreatedCycle lost id doc.status
            { doc with id := v.rewardCycles.nextId, createdAt := v.now }
            (v.insertRewardCycle doc) := by
        by_cases hid : v.rewardCycles.nextId = id
        · subst hid
          have hnew := (hget v.rewardCycles.nextId).trans (if_pos rfl)
          have hnone := hi.absent (Collection.get_nextId v.rewardCycles)
          have hnoRow := Collection.get_nextId v.rewardCycles
          refine ⟨⟨fun e he => ?_, fun e he i => ?_, fun habsent => ?_⟩,
            ⟨fun _ _ => rfl, fun e he => by cases hnoRow.symm.trans he⟩,
            fun e i p _ _ _ _ => hnone i, rfl, fun _ => ⟨hnew, hnone⟩⟩
          · cases hnew.symm.trans he
            exact ⟨hdoc.final, hdoc.complete, hdoc.failed, hdoc.shares, hdoc.pool⟩
          · cases hnew.symm.trans he
            exact Or.inl ⟨hnone i, fun p hp => hfresh p (List.mem_of_getElem? hp)⟩
          · cases hnew.symm.trans habsent
        · have hkept : PayoutsKept id v (v.insertRewardCycle doc) :=
            ⟨(hget id).trans (if_neg (Ne.symm hid)), fun _ => rfl⟩
          exact ⟨hi.kept hkept, hkept.payoutStep, PaymentsOnFile.kept _ _ hkept hs, rfl,
            fun h => absurd h hid⟩
      refine ⟨hw.1, hw.2.1, ?_⟩
      obtain ⟨_, rfl⟩ | ⟨_, _, rfl⟩ := hout
      · exact hw.2.2
      · exact hw.2.2.1

theorem recordSkip_payouts {status : RewardCycleStatus} (pool : Int) (count : Nat) (per : Int)
    (hstatus : status ≠ .complete ∧ status ≠ .failed) :
    (payoutRules cfg lost id).Triple () (PaymentsOnFile lost id)
      (recordSkip status pool count per) (fun _ => PaymentsOnFile lost id)
      fun _ => PaymentsOnFile lost id := by
  refine .bind (rest_only (.request trivial)) fun now => ?_
  refine .bind (M := fun c => CreatedCycle lost id status c) (.step .rest (fun _ _ h => h)
    (create_payouts ⟨?_, ?_, ?_, ?_, ?_⟩ ?_) fun _ => CreatedCycle.kept.stable) fun cycle => ?_
  · rintro _ _ ⟨⟩
  · exact fun h => absurd h hstatus.1
  · exact fun h => absurd h hstatus.2
  · rintro _ ⟨⟩
  · exact fun h => absurd rfl h
  · rintro _ ⟨⟩
  · exact Triple.pre (rest_only (.request trivial)) fun w _ hs => hs.1

/-- The fees and the shares make up the pool, but for less than a sat a row. -/
theorem computePerMasternodeSats_pool {pool per : Int} {count : Nat} {payoutFeeFair : JsNumber}
    (h : computePerMasternodeSats pool count payoutFeeFair = .ok per) (hpos : 0 < per) :
    ∃ fee, payoutFeeFair.toSats = .ok fee ∧ count * per + count * fee ≤ pool ∧
      pool < count * (per + 1) + count * fee := by
  rw [computePerMasternodeSats] at h
  split at h
  · cases h
    omega
  · rename_i hcount
    cases hfee : payoutFeeFair.toSats with
    | error _ =>
        rw [hfee] at h
        cases h
    | ok fee =>
        rw [hfee] at h
        simp only [bind, Except.bind] at h
        split at h
        · cases h
          omega
        · cases h
          refine ⟨fee, rfl, ?_⟩
          have hc : (0 : Int) < count := by omega
          rw [bigIntDiv_of_pos hc hpos]
          have hle := Int.mul_ediv_self_le (x := pool - fee * count) (Int.ne_of_gt hc)
          have hlt := Int.lt_mul_ediv_self_add (x := pool - fee * count) hc
          have hcomm : fee * (count : Int) = count * fee := Int.mul_comm _ _
          constructor
          · omega
          · rw [Int.mul_add]
            omega

/-- A cycle that has been created is read back and executed. -/
theorem startCycle_payouts {pool per : Int} {eligible : List MasternodeListEntry}
    (hpool : eligible ≠ [] → ∃ fee, cfg.masternodeRewardsPayoutFeeFair.toSats = .ok fee ∧
      eligible.length * per + eligible.length * fee ≤ pool ∧
      pool < eligible.length * (per + 1) + eligible.length * fee) :
    (payoutRules cfg lost id).Triple () (PaymentsOnFile lost id)
      (startCycle cfg pool per eligible) (fun _ => PaymentsOnFile lost id)
      fun _ => PaymentsOnFile lost id := by
  have hrow : ∀ p ∈ buildPayouts eligible per, p.txid = none ∧ p.amountSats = per := by
    intro p hp
    obtain ⟨mn, _, rfl⟩ := List.mem_map.mp hp
    exact ⟨rfl, rfl⟩
  refine .bind (rest_only (.request trivial)) fun now => ?_
  refine .bind (M := fun c => CreatedCycle lost id .payingOut c) (.step .rest (fun _ _ h => h)
    (create_payouts ⟨fun h => absurd rfl h, ?_, ?_, fun p hp => (hrow p hp).2, fun hne => ?_⟩
      fun p hp => (hrow p hp).1) fun _ => CreatedCycle.kept.stable) fun cycle => ?_
  · rintro ⟨⟩
  · rintro ⟨⟩
  · rw [buildPayouts, List.length_map]
    refine hpool fun hnil => hne ?_
    rw [hnil]
    rfl
  · refine .bind (findById_payouts cycle.id CreatedCycle.kept fun w hs => hs.1) fun found => ?_
    cases found with
    | none =>
        refine Triple.pre (P := PaymentsOnFile lost id) ?_ fun w _ hs => hs.1.1
        exact .pure .rest fun _ _ h => h
    | some lean =>
        refine Triple.pre (executeCycle_payouts lean) fun w _ hs => ⟨hs.1.1, fun hid => ?_⟩
        have hcycle : cycle.id = id := (hs.2.1 lean rfl).symm.trans hid
        obtain ⟨hd, hpaid⟩ := hs.1.2.2 hcycle
        obtain rfl : lean = cycle := Option.some.inj ((hs.2.2 hcycle).trans hd)
        refine ⟨⟨lean, hd, hs.1.2.1, rfl, fun _ _ => rfl, by rintro ⟨⟩, fun _ _ i _ hi => ?_⟩,
          fun e i p _ _ _ _ => hpaid i⟩
        omega

theorem sizeCycle_payouts (pool : Int) (mnList : List MasternodeListEntry) :
    (payoutRules cfg lost id).Triple () (PaymentsOnFile lost id) (sizeCycle cfg pool mnList)
      (fun _ => PaymentsOnFile lost id) fun _ => PaymentsOnFile lost id := by
  have hskip : RewardCycleStatus.skippedBelowThreshold ≠ .complete ∧
      RewardCycleStatus.skippedBelowThreshold ≠ .failed := by decide
  refine .bind (rest_only (.ofExcept _)) fun minBalanceSats => ?_
  split
  · exact recordSkip_payouts _ _ _ hskip
  · split
    · exact recordSkip_payouts _ _ _ (by decide)
    · refine .bind (M := fun per w => PaymentsOnFile lost id w ∧
        computePerMasternodeSats pool (mnList.filter isEligible).length
          cfg.masternodeRewardsPayoutFeeFair = .ok per) ?_ fun per => ?_
      · exact .ofExcept .rest (fun _ hper _ _ hs => ⟨hs, hper⟩) fun _ _ hs => hs
      · refine .fact (fun _ _ hs => hs.2) fun hper => ?_
        refine Triple.pre (P := PaymentsOnFile lost id) ?_ fun _ _ hs => hs.1
        split
        · exact recordSkip_payouts _ _ _ hskip
        · rename_i hpos
          exact startCycle_payouts fun _ => computePerMasternodeSats_pool hper (by omega)

theorem runMasternodeRewardTick_payouts :
    (payoutRules cfg lost id).Triple () (PaymentsOnFile lost id)
      (Task.program cfg .runMasternodeRewardTick) (fun _ => PaymentsOnFile lost id)
      fun _ => PaymentsOnFile lost id := by
  have hstable (found : Option RewardCycleDoc) : (payoutRules cfg lost id).Stable ()
      (Found (LoadedPayouts lost id) (PaymentsOnFile lost id) found) := by
    cases found with
    | none => exact .rest
    | some cycle => exact LoadedPayouts.kept.stable
  change (payoutRules cfg lost id).Triple () _ (FairBridge.runMasternodeRewardTick cfg) _ _
  rw [runMasternodeRewardTick]
  split
  · exact .pure .rest fun _ _ h => h
  · refine .bind (.step .rest (fun _ _ h => h) claim_payouts hstable) fun found => ?_
    cases found with
    | some cycle => exact executeCycle_payouts cycle
    | none =>
        refine .bind (rest_only (.request trivial)) fun now => ?_
        refine .bind (rest_only (.bind (.request trivial) fun _ => trivial)) fun recent => ?_
        split
        · exact .pure .rest fun _ _ h => h
        · exact .bind (rest_only (readPool_only trivial (fun _ => trivial) trivial)) fun pool => sizeCycle_payouts _ _

end Outline

/-- The cycle is not there yet, and nothing has been paid for it. -/
def World.NoPayouts (w : World) (id : ObjectId) : Prop :=
  w.rewardCycles.get id = none ∧ ∀ i, w.paidTo id i = []

theorem PayoutInv.of_noPayouts (h : w.NoPayouts id) : PayoutInv cfg id w where
  accounts d hd := by cases h.1.symm.trans hd
  rows d hd := by cases h.1.symm.trans hd
  absent _ := h.2

theorem payouts_starts : (payoutRules cfg lost id).Starts := by
  intro i t s hi hs hready
  cases t with
  | runMasternodeRewardTick => exact runMasternodeRewardTick_payouts s hi hs
  | _ => cases hready

/-- Where no run resumes the cycle while a row of it is paid without its transaction on file,
no row is paid twice, also if the answers to payments can be lost. -/
theorem row_paid_once (cfg : Config) {id : ObjectId} {w : World}
    {es : List (Event JsError Unit Task EnvEvent)} {q : Pool Op JsError World Unit}
    (hw : w.NoPayouts id) (hq : (service cfg (rewardRuns true)).exec (.init w) es = some q)
    (hes : (service cfg (rewardRuns true)).Along
      (fun p _ op => op.resumesUnfiled id p.world = false) (.init w) es) (index : Nat) :
    (q.world.paidTo id index).length ≤ 1 := by
  obtain ⟨s, hs, _⟩ := Good.exec_along (R := payoutRules cfg true id)
    (c := fun p _ op => op.resumesUnfiled id p.world = false)
    (fun p s _ op hgood hop _ => (show s = p.world from hgood.world) ▸ hop) payouts_starts
    (.init rfl (.of_noPayouts hw) fun _ e i p he => by cases hw.1.symm.trans he) hq hes
  have hworld : s = q.world := hs.world
  subst hworld
  have hi : PayoutInv cfg id q.world := hs.inv
  cases hd : q.world.rewardCycles.get id with
  | none => simp [hi.absent hd index]
  | some d =>
      obtain ⟨hnil, _⟩ | ⟨_, _, _, hpaid, _⟩ := hi.rows d hd index
      · simp [hnil]
      · simp [hpaid]

namespace Sample

def rewardConfig : Config :=
  { config with
    masternodeRewardsEnabled := true
    fairMasternodeRewardAddress := some "fMasternodes" }

/-- Two masternodes are eligible, a third has expired, and the pool holds 20 FAIR. -/
def rewardWorld : World where
  fair := {
    confirmed := 2000000000
    received := 2000000000
    custodySats := 10000000000
    masternodes := [⟨"a", 0, "ENABLED", "fA"⟩, ⟨"b", 1, "EXPIRED", "fB"⟩, ⟨"c", 1, "ENABLED", "fC"⟩] }

/-- The first run dies while it marks its first row, the second ends the cycle. -/
def wholeCycle : List (Event JsError Unit Task EnvEvent) :=
  .start () .runMasternodeRewardTick :: List.replicate 11 (.step () .done) ++
    .kill () :: .start () .runMasternodeRewardTick :: List.replicate 8 (.step () .done)

/-- The answer to the first payment is lost, the run dies at the second, and another resumes
the cycle. -/
def lostPayment : List (Event JsError Unit Task EnvEvent) :=
  .start () .runMasternodeRewardTick :: List.replicate 9 (.step () .done) ++
    .step () (.lost (.error "socket hang up")) :: .step () .done :: .kill () ::
    .start () .runMasternodeRewardTick :: List.replicate 2 (.step () .done)

end Sample

theorem Sample.rewardWorld_noPayouts : Sample.rewardWorld.NoPayouts 0 := ⟨rfl, fun _ => rfl⟩

theorem unresumed_row_paid_once : ∃ q,
    (service Sample.rewardConfig (rewardRuns true)).exec (.init Sample.rewardWorld)
      Sample.wholeCycle = some q ∧ (q.world.paidTo 0 0).length ≤ 1 := by
  obtain ⟨q, hq⟩ := Option.isSome_iff_exists.mp (show ((service Sample.rewardConfig
    (rewardRuns true)).exec (.init Sample.rewardWorld) Sample.wholeCycle).isSome = true by
      decide +kernel)
  exact ⟨q, hq, row_paid_once Sample.rewardConfig Sample.rewardWorld_noPayouts hq
    (by decide +kernel) 0⟩

/-- The node has paid, but its answer is lost, and the row is paid again. -/
theorem lost_payment_repeated : ∃ q,
    (service Sample.rewardConfig (rewardRuns true)).exec (.init Sample.rewardWorld)
      Sample.lostPayment = some q ∧ (q.world.paidTo 0 0).length = 2 := by
  have h : ((service Sample.rewardConfig (rewardRuns true)).exec (.init Sample.rewardWorld)
      Sample.lostPayment).map (fun q => (q.world.paidTo 0 0).length) = some 2 := by
    decide +kernel
  exact Option.map_eq_some_iff.mp h

end FairBridge

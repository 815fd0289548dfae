import FairBridge.Async.Learning
import FairBridge.Guarantees.OrderLifecycle
import FairBridge.Guarantees.PayoutAccounts

/-!
The reward cycles, whatever works on them at once: every payment of a share is that of a row
of a cycle on file, and a cycle that has ended stays as it ended.
-/

namespace FairBridge
open Store Async

/-- What a cycle and its rows fix when the cycle is created. -/
def RewardCycleDoc.terms (d : RewardCycleDoc) :
    Nat × Int × Nat × Int × List (String × String × Int) :=
  (d.triggeredAt, d.poolBalanceFair, d.activeMasternodes, d.perMasternodeFair,
    d.payouts.map fun p => (p.masternodeOutpoint, p.payoutAddress, p.amountSats))

/-- The rows all get the share of the cycle, and its pool covers them with their fees. -/
structure RewardCycleDoc.Covered (cfg : Config) (d : RewardCycleDoc) : Prop where
  shares : ∀ p ∈ d.payouts, p.amountSats = d.perMasternodeFair
  pool : d.payouts ≠ [] → ∃ fee, cfg.masternodeRewardsPayoutFeeFair.toSats = .ok fee ∧
    d.payouts.length * d.perMasternodeFair + d.payouts.length * fee ≤ d.poolBalanceFair ∧
    d.poolBalanceFair < d.payouts.length * (d.perMasternodeFair + 1) + d.payouts.length * fee

/-- What a row says of its payment. -/
structure PayoutStanding (w : World) (id : ObjectId) (index : Nat) (p : PayoutDoc) : Prop where
  filed : ∀ t, p.txid = some t → ∃ s ∈ w.paidTo id index, s.txid = t
  broadcast : p.status = .broadcast ∨ p.status = .confirmed → p.txid ≠ none

structure CycleStanding (cfg : Config) (w : World) (id : ObjectId) (d : RewardCycleDoc) :
    Prop where
  covered : d.Covered cfg
  rows : ∀ (index : Nat) p, d.payouts[index]? = some p → PayoutStanding w id index p
  final : d.isResumable = false → ∀ p ∈ d.payouts, p.isFinal = true

/-- The payment is the share of the row. -/
structure PaysShare (p : PayoutDoc) (s : Send) : Prop where
  address : s.address = p.payoutAddress
  sats : s.sats = p.amountSats
  positive : 0 < s.sats

structure RewardBooks (cfg : Config) (w : World) : Prop where
  standing : ∀ id d, w.rewardCycles.get id = some d → CycleStanding cfg w id d
  paid : ∀ id index, ∀ s ∈ w.paidTo id index, ∃ d p, w.rewardCycles.get id = some d ∧
    d.payouts[index]? = some p ∧ PaysShare p s

/-- How a row goes on: it keeps its payment, and it has an outcome once it has one. -/
structure PayoutDoc.Advances (p p' : PayoutDoc) : Prop where
  filed : p.txid ≠ none → p'.txid ≠ none
  final : p.isFinal = true → p'.isFinal = true

structure RewardCycleDoc.Advances (d d' : RewardCycleDoc) : Prop where
  terms : d'.terms = d.terms
  closed : d.isResumable = false → d'.status = d.status
  rows : ∀ (index : Nat) (p : PayoutDoc), d.payouts[index]? = some p →
    ∃ p', d'.payouts[index]? = some p' ∧ p.Advances p'

structure RewardsAdvance (w w' : World) : Prop where
  cycles : ∀ id d, w.rewardCycles.get id = some d →
    ∃ d', w'.rewardCycles.get id = some d' ∧ d.Advances d'
  paid : ∀ id index, w.paidTo id index <+: w'.paidTo id index

section Advance
variable {cfg : Config} {u v w : World} {id : ObjectId} {index : Nat} {d d' : RewardCycleDoc}
  {p p' : PayoutDoc}

theorem RewardCycleDoc.row_terms (h : d'.terms = d.terms) (index : Nat) :
    (d'.payouts[index]?).map (fun p => (p.masternodeOutpoint, p.payoutAddress, p.amountSats)) =
      (d.payouts[index]?).map fun p => (p.masternodeOutpoint, p.payoutAddress, p.amountSats) := by
  simp only [RewardCycleDoc.terms, Prod.mk.injEq] at h
  rw [← List.getElem?_map, ← List.getElem?_map, h.2.2.2.2]

/-- The terms of a row are those of the cycle. -/
theorem RewardCycleDoc.same_share (h : d'.terms = d.terms) (hp : d.payouts[index]? = some p)
    (hp' : d'.payouts[index]? = some p') :
    p'.payoutAddress = p.payoutAddress ∧ p'.amountSats = p.amountSats := by
  have hrow := RewardCycleDoc.row_terms h index
  rw [hp, hp'] at hrow
  simp only [Option.map_some, Option.some.injEq, Prod.mk.injEq] at hrow
  exact hrow.2

theorem RewardCycleDoc.Covered.of_terms (hc : d.Covered cfg) (h : d'.terms = d.terms) :
    d'.Covered cfg := by
  have hlength : d'.payouts.length = d.payouts.length := by
    simp only [RewardCycleDoc.terms, Prod.mk.injEq] at h
    simpa using congrArg List.length h.2.2.2.2
  have hper : d'.perMasternodeFair = d.perMasternodeFair := by
    simp only [RewardCycleDoc.terms, Prod.mk.injEq] at h
    exact h.2.2.2.1
  have hpool : d'.poolBalanceFair = d.poolBalanceFair := by
    simp only [RewardCycleDoc.terms, Prod.mk.injEq] at h
    exact h.2.1
  refine ⟨fun p' hp' => ?_, fun hne => ?_⟩
  · obtain ⟨index, hindex, rfl⟩ := List.getElem_of_mem hp'
    have hp := List.getElem?_eq_getElem (hlength ▸ hindex)
    rw [(RewardCycleDoc.same_share h hp (List.getElem?_eq_getElem hindex)).2, hper]
    exact hc.shares _ (List.getElem_mem _)
  · rw [hlength, hper, hpool]
    refine hc.pool fun hnil => hne (List.eq_nil_of_length_eq_zero ?_)
    rw [hlength, hnil]
    rfl

namespace RewardCycleDoc.Advances

theorem refl (d : RewardCycleDoc) : d.Advances d :=
  ⟨rfl, fun _ => rfl, fun _ p hp => ⟨p, hp, fun h => h, fun h => h⟩⟩

theorem isResumable (h : d.Advances d') (hc : d.isResumable = false) : d'.isResumable = false := by
  rw [RewardCycleDoc.isResumable, h.closed hc]
  exact hc

theorem trans {a b c : RewardCycleDoc} (hab : a.Advances b) (hbc : b.Advances c) :
    a.Advances c where
  terms := hbc.terms.trans hab.terms
  closed ha := (hbc.closed (hab.isResumable ha)).trans (hab.closed ha)
  rows index p hp := by
    obtain ⟨p', hp', hadv⟩ := hab.rows index p hp
    obtain ⟨p'', hp'', hadv'⟩ := hbc.rows index p' hp'
    exact ⟨p'', hp'', fun h => hadv'.filed (hadv.filed h), fun h => hadv'.final (hadv.final h)⟩

/-- Rows that all have an outcome keep having one. -/
theorem allFinal (h : d.Advances d') (hfinal : ∀ p ∈ d.payouts, p.isFinal = true) :
    ∀ p ∈ d'.payouts, p.isFinal = true := by
  intro p' hp'
  obtain ⟨index, hindex, rfl⟩ := List.getElem_of_mem hp'
  have hrow := RewardCycleDoc.row_terms h.terms index
  rw [List.getElem?_eq_getElem hindex] at hrow
  obtain ⟨p, hp, _⟩ := Option.map_eq_some_iff.mp hrow.symm
  obtain ⟨p'', hp'', hadv⟩ := h.rows index p hp
  obtain rfl := Option.some.inj ((List.getElem?_eq_getElem hindex).symm.trans hp'')
  exact hadv.final (hfinal p (List.mem_of_getElem? hp))

end RewardCycleDoc.Advances

namespace RewardsAdvance

theorem refl (w : World) : RewardsAdvance w w :=
  ⟨fun _ d hd => ⟨d, hd, .refl d⟩, fun _ _ => List.prefix_rfl⟩

theorem trans (huv : RewardsAdvance u v) (hvw : RewardsAdvance v w) : RewardsAdvance u w where
  cycles id d hd := by
    obtain ⟨d', hd', hadv⟩ := huv.cycles id d hd
    obtain ⟨d'', hd'', hadv'⟩ := hvw.cycles id d' hd'
    exact ⟨d'', hd'', hadv.trans hadv'⟩
  paid id index := (huv.paid id index).trans (hvw.paid id index)

end RewardsAdvance

theorem PayoutStanding.mono (hs : PayoutStanding v id index p) (hk : RewardsAdvance v w) :
    PayoutStanding w id index p where
  filed t ht := by
    obtain ⟨s, hs, hsent⟩ := hs.filed t ht
    exact ⟨s, (hk.paid id index).subset hs, hsent⟩
  broadcast := hs.broadcast

theorem CycleStanding.mono (hs : CycleStanding cfg v id d) (hk : RewardsAdvance v w) :
    CycleStanding cfg w id d where
  covered := hs.covered
  rows index p hp := (hs.rows index p hp).mono hk
  final := hs.final

theorem PaysShare.later {s : Send} (h : PaysShare p s) (hadv : d.Advances d')
    (hp : d.payouts[index]? = some p) (hp' : d'.payouts[index]? = some p') : PaysShare p' s := by
  obtain ⟨haddress, hsats⟩ := RewardCycleDoc.same_share hadv.terms hp hp'
  exact ⟨h.address.trans haddress.symm, h.sats.trans hsats.symm, h.positive⟩

namespace RewardBooks

/-- Every cycle goes on to one that stands, and nothing is paid. -/
theorem update (hi : RewardBooks cfg v)
    (hpaid : ∀ id index, w.paidTo id index = v.paidTo id index)
    (hold : ∀ id d, v.rewardCycles.get id = some d → ∃ d', w.rewardCycles.get id = some d' ∧
      (d' = d ∨ d.Advances d' ∧ CycleStanding cfg v id d'))
    (hnew : ∀ id d', v.rewardCycles.get id = none → w.rewardCycles.get id = some d' →
      CycleStanding cfg v id d') :
    RewardBooks cfg w ∧ RewardsAdvance v w := by
  have hk : RewardsAdvance v w := by
    refine ⟨fun id d hd => ?_, fun id index => (hpaid id index).symm ▸ List.prefix_rfl⟩
    obtain ⟨d', hd', rfl | ⟨hadv, _⟩⟩ := hold id d hd
    · exact ⟨d', hd', .refl d'⟩
    · exact ⟨d', hd', hadv⟩
  refine ⟨⟨fun id d' hd' => ?_, fun id index s hs => ?_⟩, hk⟩
  · cases hd : v.rewardCycles.get id with
    | none => exact (hnew id d' hd hd').mono hk
    | some d =>
        obtain ⟨d'', hd'', hcases⟩ := hold id d hd
        obtain rfl := Option.some.inj (hd'.symm.trans hd'')
        cases hcases with
        | inl hsame =>
            subst hsame
            exact (hi.standing id d' hd).mono hk
        | inr hstands => exact hstands.2.mono hk
  · rw [hpaid] at hs
    obtain ⟨d, p, hd, hp, hpays⟩ := hi.paid id index s hs
    obtain ⟨d', hd', hadv⟩ := hk.cycles id d hd
    obtain ⟨p', hp', _⟩ := hadv.rows index p hp
    exact ⟨d', p', hd', hp', hpays.later hadv hp hp'⟩

theorem same (hi : RewardBooks cfg v) (hcycles : w.rewardCycles = v.rewardCycles)
    (hpaid : ∀ id index, w.paidTo id index = v.paidTo id index) :
    RewardBooks cfg w ∧ RewardsAdvance v w := by
  refine hi.update hpaid (fun id d hd => ⟨d, hcycles ▸ hd, Or.inl rfl⟩) fun id d hnone hd => ?_
  rw [hcycles, hnone] at hd
  cases hd

theorem env {e : EnvEvent} (hi : RewardBooks cfg v) (h : e.occur v = some w) :
    RewardBooks cfg w ∧ RewardsAdvance v w := by
  have hs := EnvEvent.occur_surroundings h
  refine hi.same hs.rewardCycles fun id index => ?_
  rw [World.paidTo, hs.sends]
  rfl

/-- A share of a cycle on file is paid. -/
theorem send {s : Send} (hi : RewardBooks cfg v) (hd : v.rewardCycles.get id = some d)
    (hp : d.payouts[index]? = some p) (hpays : PaysShare p s) (hrow : s.payout = some (id, index))
    (hfair : w.fair.sends = v.fair.sends ++ [s]) (hcycles : w.rewardCycles = v.rewardCycles) :
    RewardBooks cfg w ∧ RewardsAdvance v w := by
  have hk : RewardsAdvance v w := by
    refine ⟨fun j e he => ⟨e, hcycles ▸ he, .refl e⟩, fun j n => ?_⟩
    rw [World.paidTo, World.paidTo, hfair]
    exact List.IsPrefix.filter _ (List.prefix_append _ _)
  refine ⟨⟨fun j e he => ?_, fun j n x hx => ?_⟩, hk⟩
  · rw [hcycles] at he
    exact (hi.standing j e he).mono hk
  · obtain ⟨hx, hxrow⟩ := List.mem_filter.mp hx
    rw [hfair, List.mem_append, List.mem_singleton] at hx
    rw [hcycles]
    cases hx with
    | inl hold => exact hi.paid j n x (List.mem_filter.mpr ⟨hold, hxrow⟩)
    | inr hnew =>
        subst hnew
        rw [hrow, beq_iff_eq] at hxrow
        cases hxrow
        exact ⟨d, p, hd, hp, hpays⟩

end RewardBooks

end Advance

def rewardProgress (cfg : Config) : Async.Progress World where
  inv := RewardBooks cfg
  kept := RewardsAdvance
  refl := .refl
  trans := .trans

/-- Where the cycles are kept, and what is paid for them. -/
abbrev rewardAreas : List Area := [.rewardCycles, .payouts]

namespace World

/-- The payment went out for the row. -/
def hasSent (w : World) (id : ObjectId) (index : Nat) (t : Txid) : Prop :=
  ∃ s ∈ w.paidTo id index, s.txid = t

/-- The rows of the cycle all have an outcome. -/
def allFinal (w : World) (id : ObjectId) : Prop :=
  ∀ d, w.rewardCycles.get id = some d → ∀ p ∈ d.payouts, p.isFinal = true

end World

/-- The cycle was so once. -/
def SeenCycle (cfg : Config) (id : ObjectId) (d : RewardCycleDoc) (w : World) : Prop :=
  ∃ v, RewardBooks cfg v ∧ v.rewardCycles.get id = some d ∧ RewardsAdvance v w

section Knowledge
variable {cfg : Config} {v w : World} {id : ObjectId} {index : Nat} {d : RewardCycleDoc}
  {p : PayoutDoc} {t : Txid}

theorem RewardsAdvance.hasSent_kept (hk : RewardsAdvance v w) (h : v.hasSent id index t) :
    w.hasSent id index t := by
  obtain ⟨s, hs, ht⟩ := h
  exact ⟨s, (hk.paid id index).subset hs, ht⟩

namespace SeenCycle

theorem id_eq (h : SeenCycle cfg id d w) : d.id = id := by
  obtain ⟨v, _, hd, _⟩ := h
  exact Collection.get_id hd

theorem hasSent (h : SeenCycle cfg id d w) (hp : d.payouts[index]? = some p)
    (ht : p.txid = some t) : w.hasSent id index t := by
  obtain ⟨v, hi, hd, hk⟩ := h
  exact hk.hasSent_kept (((hi.standing id d hd).rows index p hp).filed t ht)

theorem allFinal (h : SeenCycle cfg id d w) (hfinal : ∀ p ∈ d.payouts, p.isFinal = true) :
    w.allFinal id := by
  obtain ⟨v, _, hd, hk⟩ := h
  intro e he
  obtain ⟨d', hd', hadv⟩ := hk.cycles id d hd
  obtain rfl := Option.some.inj (he.symm.trans hd')
  exact hadv.allFinal hfinal

/-- The share of a row that was seen is that of the row on file. -/
theorem share (h : SeenCycle cfg id d w) (hp : d.payouts[index]? = some p) :
    ∃ e q, w.rewardCycles.get id = some e ∧ e.payouts[index]? = some q ∧
      q.payoutAddress = p.payoutAddress ∧ q.amountSats = p.amountSats := by
  obtain ⟨v, _, hd, hk⟩ := h
  obtain ⟨d', hd', hadv⟩ := hk.cycles id d hd
  obtain ⟨q, hq, _⟩ := hadv.rows index p hp
  exact ⟨d', q, hd', hq, RewardCycleDoc.same_share hadv.terms hp hq⟩

end SeenCycle

/-- The update of a row puts on it what has gone out for it. -/
structure PayoutSet.Backed (w : World) (id : ObjectId) (u : PayoutSet) : Prop where
  sent : ∀ t, u.txid = some t → w.hasSent id u.index t
  outcome : u.status ≠ some .pending
  broadcast : u.status = some .broadcast ∨ u.status = some .confirmed → u.txid ≠ none

theorem PayoutSet.Backed.final {u : PayoutSet} (hu : u.Backed w id) (h : p.isFinal = true) :
    (u.apply p).isFinal = true := by
  have hstatus : (u.apply p).status = u.status.getD p.status := rfl
  rw [PayoutDoc.isFinal, hstatus]
  cases hst : u.status with
  | none => exact h
  | some st =>
      cases st with
      | pending => exact absurd hst hu.outcome
      | _ => rfl

theorem PayoutSet.Backed.advances {u : PayoutSet} (hu : u.Backed w id) (p : PayoutDoc) :
    p.Advances (u.apply p) where
  filed ht := by
    have htxid : (u.apply p).txid = u.txid.or p.txid := rfl
    rw [htxid]
    cases u.txid with
    | none => exact ht
    | some t => exact Option.some_ne_none t
  final h := hu.final h

theorem PayoutSet.Backed.stands {u : PayoutSet} (hu : u.Backed w id)
    (hp : PayoutStanding w id u.index p) : PayoutStanding w id u.index (u.apply p) where
  filed t ht := by
    have htxid : (u.apply p).txid = u.txid.or p.txid := rfl
    rw [htxid] at ht
    cases hut : u.txid with
    | none =>
        rw [hut, Option.none_or] at ht
        exact hp.filed t ht
    | some t' =>
        rw [hut, Option.some_or] at ht
        exact hu.sent t (hut.trans ht)
  broadcast h := by
    have hstatus : (u.apply p).status = u.status.getD p.status := rfl
    cases hst : u.status with
    | none =>
        rw [hstatus, hst] at h
        exact (hu.advances p).filed (hp.broadcast h)
    | some st =>
        rw [hstatus, hst, Option.getD_some] at h
        have hset : u.txid ≠ none :=
          hu.broadcast (h.imp (fun h => hst.trans (congrArg some h))
            fun h => hst.trans (congrArg some h))
        have htxid : (u.apply p).txid = u.txid.or p.txid := rfl
        rw [htxid]
        obtain ⟨t, ht⟩ := Option.ne_none_iff_exists'.mp hset
        rw [ht]
        exact Option.some_ne_none t

/-- One row of a cycle is updated. -/
theorem CycleStanding.setPayout {u : PayoutSet} (hs : CycleStanding cfg w id d)
    (hu : u.Backed w id) :
    d.Advances (d.setPayout u) ∧ CycleStanding cfg w id (d.setPayout u) := by
  have hterms : (d.setPayout u).terms = d.terms := by
    have hmap := RewardCycleDoc.map_setPayout
      (fun p => (p.masternodeOutpoint, p.payoutAddress, p.amountSats)) (fun _ _ => rfl) d u
    rw [RewardCycleDoc.terms, hmap]
    rfl
  have hadv : d.Advances (d.setPayout u) := by
    refine ⟨hterms, fun _ => rfl, fun index p hp => ?_⟩
    by_cases hindex : index = u.index
    · subst hindex
      exact ⟨_, RewardCycleDoc.setPayout_row hp, hu.advances p⟩
    · exact ⟨p, (RewardCycleDoc.setPayout_other hindex).trans hp, fun h => h, fun h => h⟩
  refine ⟨hadv, hs.covered.of_terms hterms, fun index p hp => ?_,
    fun hclosed => hadv.allFinal (hs.final hclosed)⟩
  by_cases hindex : index = u.index
  · subst hindex
    rw [RewardCycleDoc.payouts_setPayout, List.getElem?_modify_eq] at hp
    obtain ⟨q, hq, rfl⟩ := Option.map_eq_some_iff.mp hp
    exact hu.stands (hs.rows _ q hq)
  · exact hs.rows index p ((RewardCycleDoc.setPayout_other hindex).symm.trans hp)

/-- A cycle is resumed, or it ends once its rows have an outcome. -/
theorem CycleStanding.setStatus {u : RewardCycleSet} (hs : CycleStanding cfg w id d)
    (hopen : d.isResumable = true) (hu : u.payout = none)
    (hfinal : (u.apply d).isResumable = true ∨ ∀ p ∈ d.payouts, p.isFinal = true) :
    d.Advances (u.apply d) ∧ CycleStanding cfg w id (u.apply d) := by
  have hpayouts : (u.apply d).payouts = d.payouts := by
    simp only [RewardCycleSet.apply, hu]
  have hterms : (u.apply d).terms = d.terms := by
    rw [RewardCycleDoc.terms, hpayouts]
    rfl
  refine ⟨⟨hterms, fun hc => ?_, fun index p hp => ?_⟩, hs.covered.of_terms hterms,
    fun index p hp => ?_, fun hc => ?_⟩
  · cases hopen.symm.trans hc
  · rw [hpayouts]
    exact ⟨p, hp, fun h => h, fun h => h⟩
  · rw [hpayouts] at hp
    exact hs.rows index p hp
  · rw [hpayouts]
    cases hfinal with
    | inl h => cases h.symm.trans hc
    | inr h => exact h

end Knowledge

section Requests
variable {ι β : Type} {cfg : Config} {f : Faults ι} {i : ι} {F : World → Prop} {v w : World}
  {op : Op β} {id : ObjectId} {index : Nat} {d : RewardCycleDoc} {p : PayoutDoc}

theorem paidTo_reach {reached : Area} (h : Reach reached v w) (hne : reached ≠ .payouts)
    (id : ObjectId) (index : Nat) : w.paidTo id index = v.paidTo id index := by
  have hsub : ∀ l : List Send, l.filter (fun s => s.payout == some (id, index)) =
      (l.filter fun s => s.area == .payouts).filter fun s => s.payout == some (id, index) := by
    intro l
    rw [List.filter_filter]
    refine List.filter_congr fun s _ => ?_
    cases hs : s.payout == some (id, index) with
    | true =>
        rw [beq_iff_eq] at hs
        simp [Send.area, hs]
    | false => simp
  rw [World.paidTo, World.paidTo, hsub, hsub v.fair.sends, h .payouts hne]

theorem away_allowed (h : op.beside rewardAreas) :
    (rewardProgress cfg).Allowed (service cfg f) i F op := by
  intro v out r w hi _ _ hans
  have hreach := answer_reach hans
  exact RewardBooks.same hi (hreach .rewardCycles (Op.beside_area h rfl))
    (paidTo_reach hreach (Op.beside_area h rfl))

/-- The cycles that an update reaches go on as they may. -/
def CycleGoesOn (cfg : Config) (F : World → Prop) (filter : RewardCycleDoc → Bool)
    (u : RewardCycleSet) : Prop :=
  ∀ v d, RewardBooks cfg v → F v → v.rewardCycles.get d.id = some d → filter d = true →
    d.Advances (u.apply d) ∧ CycleStanding cfg v d.id (u.apply d)

theorem updated_books {filter : RewardCycleDoc → Bool} {u : RewardCycleSet}
    (h : CycleGoesOn cfg F filter u) (hi : RewardBooks cfg v) (hF : F v)
    (sort : Option (RewardCycleDoc → Nat)) :
    RewardBooks cfg
        { v with rewardCycles := (v.rewardCycles.update refusals.duplicate filter sort u).2 } ∧
      RewardsAdvance v
        { v with rewardCycles := (v.rewardCycles.update refusals.duplicate filter sort u).2 } := by
  refine hi.update (fun _ _ => rfl) (fun id d hd => ?_) fun id d hnone hd => ?_
  · obtain rfl := Collection.get_id hd
    exact v.rewardCycles.update_rows refusals.duplicate sort
      (R := fun d d' => d.Advances d' ∧ CycleStanding cfg v d.id d')
      (fun e he hfilter => h v e hi hF he hfilter) hd
  · cases (v.rewardCycles.update_none _ filter sort u hnone).symm.trans hd

theorem updateCycle_allowed {filter : RewardCycleDoc → Bool} {u : RewardCycleSet}
    (h : CycleGoesOn cfg F filter u) :
    (rewardProgress cfg).Allowed (service cfg f) i F (.rewardCycle (.updateOne filter u)) := by
  intro v out r w hi hF _ hans
  obtain ⟨_, _, _, rfl⟩ | ⟨x, hx, _⟩ := answer_cases hans
  · exact ⟨hi, .refl _⟩
  · cases hx
    exact updated_books h hi hF none

abbrev LearnsRewards (cfg : Config) (f : Faults ι) (i : ι) {α : Type} (M : α → World → Prop)
    (F : World → Prop) (p : Promise α) : Prop :=
  (rewardProgress cfg).Learns (service cfg f) i M F p

theorem findCycle_learns : LearnsRewards cfg f i
    (fun r w => ∀ d, r = some d → SeenCycle cfg id d w) F (MasternodeRewardCycle.findById id) := by
  refine .request (away_allowed trivial) ?_
  rintro found w _ _ ⟨v, out, u, hi, _, _, hans, _, hk⟩ d rfl
  obtain ⟨_, _, he, _⟩ | ⟨x, hx, hout⟩ := answer_cases hans
  · cases he
  · cases hx
    obtain ⟨_, hr⟩ | ⟨_, _, hr⟩ := hout
    · exact ⟨v, hi, (Except.ok.inj hr).symm, hk⟩
    · cases hr

/-- The cycle in flight is resumed as it is on file. -/
theorem claimCycle_learns : LearnsRewards cfg f i
    (fun r w => ∀ d, r = some d → SeenCycle cfg d.id d w) F claimResumableCycle := by
  have hgoes : CycleGoesOn cfg F RewardCycleDoc.isResumable { status := some .payingOut } :=
    fun v d hi _ hd hopen => (hi.standing _ d hd).setStatus hopen rfl (Or.inl rfl)
  refine .request ?_ ?_
  · intro v out r w hi hF _ hans
    obtain ⟨_, _, _, rfl⟩ | ⟨x, hx, _⟩ := answer_cases hans
    · exact ⟨hi, .refl _⟩
    · cases hx
      exact updated_books hgoes hi hF _
  · rintro found w _ _ ⟨v, out, u, _, _, _, hans, hu, hk⟩ d rfl
    obtain ⟨_, _, he, _⟩ | ⟨x, hx, hout⟩ := answer_cases hans
    · cases he
    · have heff := (MasternodeRewardCycle.effect_findOneAndUpdate (f.row i) _ _ _ v).symm.trans hx
      obtain ⟨_, rfl⟩ | ⟨_, _, hr⟩ := hout
      · split at heff <;> cases heff
        rename_i e he
        have hget := Collection.get_of_mem (pick_some he).1
        exact ⟨_, hu, World.get_setRewardCycle hget _, hk⟩
      · cases hr

theorem setRow_learns {u : PayoutSet} (h : ∀ w, F w → u.Backed w id) :
    LearnsRewards cfg f i (fun _ _ => True) F
      (MasternodeRewardCycle.updateById id { payout := some u }) := by
  refine .request (updateCycle_allowed fun v d hi hF hd hfilter => ?_) fun _ _ _ _ _ => trivial
  have hid : d.id = id := by simpa using hfilter
  exact (hi.standing _ d hd).setPayout (hid ▸ h v hF)

/-- The share of a row that was seen is paid. -/
theorem broadcast_learns (hseen : ∀ w, F w → SeenCycle cfg id d w)
    (hp : d.payouts[index]? = some p) :
    LearnsRewards cfg f i (fun t w => w.hasSent id index t) F
      (broadcastPayout id index p.payoutAddress p.amountSats) := by
  refine .request ?_ ?_
  · intro v out r w hi hF _ hans
    obtain ⟨_, _, _, rfl⟩ | ⟨x, hx, _⟩ := answer_cases hans
    · exact hi.same rfl fun _ _ => rfl
    · obtain ⟨_, _, rfl⟩ | ⟨_, rfl, hpos, _⟩ := effect_sendToAddress hx
      · exact hi.same rfl fun _ _ => rfl
      · obtain ⟨e, q, he, hq, haddress, hamount⟩ := (hseen v hF).share hp
        refine RewardBooks.send hi he hq ⟨haddress.symm, ?_, hpos⟩ rfl rfl rfl
        exact (fairValueToSats_satsToFair _).trans hamount.symm
  · rintro t w _ _ ⟨v, out, u, _, _, _, hans, _, hk⟩
    obtain ⟨_, _, he, _⟩ | ⟨x, hx, hout⟩ := answer_cases hans
    · cases he
    · obtain ⟨_, rfl⟩ | ⟨_, _, hr⟩ := hout
      · obtain ⟨_, he, _⟩ | ⟨ht, rfl, _⟩ := effect_sendToAddress hx
        · cases he
        · cases ht
          refine RewardsAdvance.hasSent_kept hk ⟨⟨_, p.payoutAddress, _, f.row i, some (id, index)⟩,
            List.mem_filter.mpr ⟨List.mem_append_right _ (List.mem_singleton_self _), ?_⟩, rfl⟩
          exact beq_self_eq_true _
      · cases hr

/-- A new cycle has nothing on its rows. -/
theorem createCycle_learns {doc : RewardCycleDoc} (hcovered : doc.Covered cfg)
    (hrows : ∀ p ∈ doc.payouts, p.txid = none ∧ p.status = .pending)
    (hclosed : doc.isResumable = false → doc.payouts = []) :
    LearnsRewards cfg f i (fun _ _ => True) F (call (.rewardCycle (.create doc))) := by
  refine .request ?_ fun _ _ _ _ _ => trivial
  intro v out r w hi hF _ hans
  obtain ⟨_, _, _, rfl⟩ | ⟨x, hx, _⟩ := answer_cases hans
  · exact ⟨hi, .refl _⟩
  · obtain ⟨_, _, rfl⟩ | ⟨_, rfl⟩ := MasternodeRewardCycle.effect_create hx
    · exact ⟨hi, .refl _⟩
    · refine RewardBooks.update hi (fun _ _ => rfl) (fun id d hd => ?_) fun id d hnone hd => ?_
      · refine ⟨d, ?_, Or.inl rfl⟩
        exact (Collection.get_insert _ _ _ _).trans
          ((if_neg (Nat.ne_of_lt (Collection.get_lt hd))).trans hd)
      · have hget := Collection.get_insert v.rewardCycles v.now doc id
        split at hget
        · cases hget.symm.trans hd
          refine ⟨hcovered.of_terms rfl, fun index p hp => ?_, fun hc p hp => ?_⟩
          · obtain ⟨hnone, hst⟩ := hrows p (List.mem_of_getElem? hp)
            refine ⟨fun t ht => ?_, fun hb => ?_⟩
            · cases hnone.symm.trans ht
            · rw [hst] at hb
              cases hb with
              | inl h => cases h
              | inr h => cases h
          · have hp : p ∈ doc.payouts := hp
            rw [hclosed hc] at hp
            cases hp
        · cases (hget.trans hnone).symm.trans hd

end Requests

section Programs
variable {ι : Type} {cfg : Config} {f : Faults ι} {i : ι} {F : World → Prop} {id : ObjectId}
  {index : Nat} {d : RewardCycleDoc} {p : PayoutDoc}

theorem away_after {α β : Type} {M : α → World → Prop} {p : Promise β} {k : β → Promise α}
    (hp : p.Only (Op.beside rewardAreas)) (hk : ∀ b, LearnsRewards cfg f i M F (k b)) :
    LearnsRewards cfg f i M F (p.bind k) :=
  .after hp (fun _ => away_allowed) hk

theorem away_learns {α : Type} {p : Promise α} (hp : p.Only (Op.beside rewardAreas)) :
    LearnsRewards cfg f i (fun _ _ => True) F p :=
  (Async.Progress.Learns.only hp fun _ => away_allowed).post fun _ _ _ _ => trivial

theorem failRow_learns (message text : String) :
    LearnsRewards cfg f i (fun _ _ => True) F
      (do markPayoutFailed id index message; alert cfg text; return true) := by
  refine .bind (setRow_learns fun w _ => ⟨fun t ht => ?_, by simp, fun h => ?_⟩) fun _ => ?_
  · cases ht
  · cases h with
    | inl h => cases h
    | inr h => cases h
  · exact away_after (alert_only (fun _ => trivial) _) fun _ _ _ _ => trivial

theorem markBroadcast_learns {t : Txid} (h : ∀ w, F w → w.hasSent id index t) :
    LearnsRewards cfg f i (fun _ _ => True) F (markPayoutBroadcast id index t) := by
  refine setRow_learns fun w hF => ⟨fun t' ht => ?_, by simp, fun _ => Option.some_ne_none t⟩
  cases ht
  exact h w hF

theorem payFresh_learns (hseen : ∀ w, F w → SeenCycle cfg id d w)
    (hp : d.payouts[index]? = some p) :
    LearnsRewards cfg f i (fun _ _ => True) F (payFresh cfg id index p) := by
  refine .tryCatch ?_ fun err => failRow_learns _ _
  refine .bind (broadcast_learns hseen hp) fun t => ?_
  refine .bind (setRow_learns fun w hF => ⟨fun t' ht => ?_, by simp, fun h => ?_⟩) fun _ => ?_
  · cases ht
    exact hF.2
  · exact Option.some_ne_none t
  · exact .bind (markBroadcast_learns fun w hF => hF.1.2) fun _ _ _ _ => trivial

theorem payoutStep_learns (skip : List String) (hseen : ∀ w, F w → SeenCycle cfg id d w)
    (hp : d.payouts[index]? = some p) :
    LearnsRewards cfg f i (fun _ _ => True) F (payoutStep cfg id skip index p) := by
  rw [payoutStep]
  split
  · rename_i t ht
    rw [reconcilePayout]
    split
    · exact fun _ _ _ => trivial
    · refine away_after (fairTxExists_only (fun _ => trivial) t) fun known => ?_
      split
      · refine .bind (markBroadcast_learns fun w hF => ?_) fun _ _ _ _ => trivial
        exact (hseen w hF).hasSent hp ht
      · exact failRow_learns _ _
  · split
    · exact fun _ _ _ => trivial
    · exact payFresh_learns hseen hp

/-- By induction on the rows that are left. -/
theorem payoutSteps_learns (skip : List String) (anyFailed : Bool) (payouts : List PayoutDoc)
    (hseen : ∀ w, F w → SeenCycle cfg id d w) (hrest : d.payouts.drop index = payouts) :
    LearnsRewards cfg f i (fun _ _ => True) F
      (payoutSteps cfg id skip index anyFailed payouts) := by
  induction payouts generalizing index anyFailed F with
  | nil => exact fun _ _ _ => trivial
  | cons p payouts ih =>
      have hp : d.payouts[index]? = some p := by
        rw [← List.head?_drop, hrest]
        rfl
      refine .bind (payoutStep_learns skip hseen hp) fun failed => ?_
      refine ih _ (fun w hF => hseen w hF.1) ?_
      rw [← List.tail_drop, hrest]
      rfl

theorem finaliseCycle_learns (anyFailed : Bool) :
    LearnsRewards cfg f i (fun _ _ => True) F (finaliseCycle id anyFailed) := by
  refine .bind findCycle_learns fun found => ?_
  cases found with
  | none => exact fun _ _ _ => trivial
  | some fresh =>
      simp only
      split
      · rename_i hfinal
        refine .bind (N := fun _ _ => True) (.request (updateCycle_allowed ?_)
          fun _ _ _ _ _ => trivial) fun _ => away_learns (.request trivial)
        intro v e hi hF he hfilter
        simp only [Bool.and_eq_true, beq_iff_eq] at hfilter
        refine (hi.standing _ e he).setStatus ?_ ?_ (Or.inr ?_)
        · simp [RewardCycleDoc.isResumable, hfilter.2]
        · cases anyFailed <;> rfl
        · exact ((hF.2 fresh rfl).allFinal (List.all_eq_true.mp hfinal)) e (hfilter.1 ▸ he)
      · exact fun _ _ _ => trivial

theorem executeCycle_learns (hseen : ∀ w, F w → SeenCycle cfg d.id d w) :
    LearnsRewards cfg f i (fun _ _ => True) F (executeCycle cfg d) :=
  .bind (payoutSteps_learns _ _ _ hseen rfl) fun _ => finaliseCycle_learns _

theorem recordSkip_learns {status : RewardCycleStatus} (pool : Int) (count : Nat) (per : Int) :
    LearnsRewards cfg f i (fun _ _ => True) F (recordSkip status pool count per) := by
  refine away_after (.request trivial) fun now => ?_
  refine .bind (createCycle_learns ⟨fun p hp => ?_, fun h => absurd rfl h⟩ (fun p hp => ?_)
    fun _ => rfl) fun cycle => away_learns (.request trivial)
  · cases hp
  · cases hp

theorem startCycle_learns {pool per : Int} {eligible : List MasternodeListEntry}
    (hpool : ∃ fee, cfg.masternodeRewardsPayoutFeeFair.toSats = .ok fee ∧
      eligible.length * per + eligible.length * fee ≤ pool ∧
      pool < eligible.length * (per + 1) + eligible.length * fee) :
    LearnsRewards cfg f i (fun _ _ => True) F (startCycle cfg pool per eligible) := by
  have hrow : ∀ p ∈ buildPayouts eligible per,
      (p.txid = none ∧ p.status = .pending) ∧ p.amountSats = per := by
    intro p hp
    obtain ⟨mn, _, rfl⟩ := List.mem_map.mp hp
    exact ⟨⟨rfl, rfl⟩, rfl⟩
  refine away_after (.request trivial) fun now => ?_
  refine .bind (createCycle_learns ⟨fun p hp => (hrow p hp).2, fun _ => ?_⟩
    (fun p hp => (hrow p hp).1) (by simp [RewardCycleDoc.isResumable])) fun cycle => ?_
  · rw [buildPayouts, List.length_map]
    exact hpool
  · refine .bind findCycle_learns fun found => ?_
    cases found with
    | none => exact fun _ _ _ => trivial
    | some lean =>
        refine executeCycle_learns fun w hF => ?_
        have hseen := hF.2 lean rfl
        rwa [hseen.id_eq]

theorem sizeCycle_learns (pool : Int) (mnList : List MasternodeListEntry) :
    LearnsRewards cfg f i (fun _ _ => True) F (sizeCycle cfg pool mnList) := by
  rw [sizeCycle]
  refine away_after (.ofExcept _) fun minBalance => ?_
  split
  · exact recordSkip_learns _ _ _
  · split
    · exact recordSkip_learns _ _ _
    · refine .bind (.ofExcept _) fun per => ?_
      refine .fact (A := _ = _) (fun _ _ hF => hF.2) fun hper => ?_
      split
      · exact recordSkip_learns _ _ _
      · rename_i hpos
        exact startCycle_learns (computePerMasternodeSats_pool hper (by omega))

theorem rewardTick_learns :
    LearnsRewards cfg f i (fun _ _ => True) F (runMasternodeRewardTick cfg) := by
  rw [runMasternodeRewardTick]
  split
  · exact fun _ _ _ => trivial
  · refine .bind claimCycle_learns fun found => ?_
    cases found with
    | some resumable => exact executeCycle_learns fun w hF => hF.2 resumable rfl
    | none =>
        refine away_after (.request trivial) fun now => ?_
        refine away_after (.bind (.request trivial) fun _ => trivial) fun recent => ?_
        split
        · exact fun _ _ _ => trivial
        · refine away_after (readPool_only trivial (fun _ => trivial) trivial) fun read => ?_
          exact sizeCycle_learns _ _

theorem rewards_learn (t : Task) :
    LearnsRewards cfg f i (fun _ _ => True) F (t.program cfg) := by
  have hbeside : (rewardAreas.all fun b => b != .nowhere && !t.areas.contains b) = true →
      LearnsRewards cfg f i (fun _ _ => True) F (t.program cfg) := by
    exact fun h => away_learns (within_beside h t.program_within)
  cases t with
  | runMasternodeRewardTick => exact rewardTick_learns
  | _ => exact hbeside rfl

end Programs

def rewardLearner {ι : Type} (cfg : Config) (f : Faults ι) : Learner (service cfg f) where
  toProgress := rewardProgress cfg
  env hi he := RewardBooks.env hi (service_env he).2
  tasks _ _ := .of_learns _ (rewards_learn _)

/-- No cycle has been recorded, and no share paid. -/
structure World.WithoutRewards (w : World) : Prop where
  cycles : w.rewardCycles.docs = []
  paid : ∀ id index, w.paidTo id index = []

theorem World.WithoutRewards.books {cfg : Config} {w : World} (h : w.WithoutRewards) :
    RewardBooks cfg w where
  standing id d hd := by
    have hmem := Collection.get_mem hd
    rw [h.cycles] at hmem
    cases hmem
  paid id index s hs := by
    rw [h.paid] at hs
    cases hs

/-- A cycle keeps its terms, and ends once; its rows keep their payments and, once they have
one, an outcome. Nothing is ever paid for a cycle without rows. -/
theorem reward_cycle_goes_on {ι : Type} [DecidableEq ι] (cfg : Config) (f : Faults ι) {w : World}
    (hw : RewardBooks cfg w) {es es' : List (Event JsError ι Task EnvEvent)}
    {p q : Pool Op JsError World ι} (hp : (service cfg f).exec (.init w) es = some p)
    {id : ObjectId} {d : RewardCycleDoc} (hd : p.world.rewardCycles.get id = some d)
    (hq : (service cfg f).exec p es' = some q) :
    ∃ d', q.world.rewardCycles.get id = some d' ∧ d.Advances d' ∧
      (d.payouts = [] → ∀ index, q.world.paidTo id index = []) := by
  obtain ⟨hsound, _⟩ := (Learner.Sound.init (rewardLearner cfg f) hw).exec _ hp
  obtain ⟨hsound', hk⟩ := hsound.exec _ hq
  have hk : RewardsAdvance p.world q.world := hk
  have hbooks : RewardBooks cfg q.world := hsound'.inv
  obtain ⟨d', hd', hadv⟩ := hk.cycles id d hd
  refine ⟨d', hd', hadv, fun hnil index => ?_⟩
  refine List.eq_nil_iff_forall_not_mem.mpr fun s hs => ?_
  obtain ⟨e, r, he, hr, _⟩ := hbooks.paid id index s hs
  obtain rfl := Option.some.inj (hd'.symm.trans he)
  have hrow := RewardCycleDoc.row_terms hadv.terms index
  rw [hnil, hr] at hrow
  cases hrow

namespace Sample

/-- A second tick resumes the cycle of the first, and both pay the first row. The answer of
the first to its filing is lost: it marks the row as failed, pays the other and closes the
cycle. -/
def closedMeanwhile : List (Event JsError Bool Task EnvEvent) :=
  .start true .runMasternodeRewardTick :: List.replicate 9 (.step true .done) ++
  [.start false .runMasternodeRewardTick, .step false .done, .step false .done,
    .step true .done, .step true (.lost (.error "socket hang up"))] ++
  List.replicate 7 (.step true .done)

end Sample

/-- The second tick goes on, but the cycle stays closed. -/
theorem closed_cycle_stays : ∃ p q d,
    (service Sample.rewardConfig Sample.anyFault).exec (.init Sample.rewardWorld)
      Sample.closedMeanwhile = some p ∧
    p.world.rewardCycles.get 0 = some d ∧ d.isResumable = false ∧
    (service Sample.rewardConfig Sample.anyFault).exec p
      (List.replicate 5 (.step false .done)) = some q ∧
    ∃ d', q.world.rewardCycles.get 0 = some d' ∧ d.Advances d' ∧
      (d.payouts = [] → ∀ index, q.world.paidTo 0 index = []) := by
  have h : ((service Sample.rewardConfig Sample.anyFault).exec (.init Sample.rewardWorld)
      Sample.closedMeanwhile).map (fun p =>
        ((p.world.rewardCycles.get 0).map RewardCycleDoc.isResumable,
          ((service Sample.rewardConfig Sample.anyFault).exec p
            (List.replicate 5 (.step false .done))).isSome)) = some (some false, true) := by
    decide +kernel
  obtain ⟨p, hp, hres⟩ := Option.map_eq_some_iff.mp h
  obtain ⟨hclosed, hq⟩ := Prod.mk.inj hres
  obtain ⟨d, hd, hclosed⟩ := Option.map_eq_some_iff.mp hclosed
  obtain ⟨q, hq⟩ := Option.isSome_iff_exists.mp hq
  have hbooks : RewardBooks Sample.rewardConfig Sample.rewardWorld :=
    World.WithoutRewards.books ⟨rfl, fun _ _ => rfl⟩
  exact ⟨p, q, d, hp, hd, hclosed, hq,
    reward_cycle_goes_on Sample.rewardConfig Sample.anyFault hbooks hp hd hq⟩

end FairBridge

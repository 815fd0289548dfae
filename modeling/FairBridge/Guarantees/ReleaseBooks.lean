import FairBridge.Async.Learning
import FairBridge.Guarantees.BurnReleases
import FairBridge.Guarantees.Footprints

/-!
The withdrawals, whatever works on them at once: every payment of a release is that of a
withdrawal which a mined burn asked for, and a refused withdrawal is never paid.
-/

namespace FairBridge
open Store Async

namespace World

/-- The burn stands in a block of the chain. -/
def minedBurn (w : World) (l : BurnLog) : Prop :=
  ∃ logs ∈ w.base.blocks, ∃ log ∈ logs, log.burnLog = some l

/-- What the signers of the withdrawal have paid. -/
def releasesOf (w : World) (id : ObjectId) : List Send :=
  (w.fair.sends.filter fun s => s.area == .releases).filter fun s => s.withdrawal == some id

/-- There is a withdrawal that the job is to release. -/
def owes (w : World) (job : ReleaseJob) : Prop :=
  ∃ d, w.withdrawals.get job.withdrawalId = some d ∧ d.job = job

end World

/-- What a withdrawal says of its burn, and what it has behind it. -/
structure WithdrawalStanding (cfg : Config) (w : World) (id : ObjectId) (d : WithdrawalDoc) :
    Prop where
  burn : ∃ l, w.minedBurn l ∧ l.key = d.key ∧ d.destinationFairAddress = l.faircoinAddress ∧
    (applyFee l.amountSats cfg.bridgeFeeBps = .ok d.amountSats ∨ d.status = .failed)
  unpaid : d.status = .failed → d.fairTxid = none ∧ w.releasesOf id = []
  filed : ∀ txid, d.fairTxid = some txid → ∃ s ∈ w.releasesOf id, s.txid = txid
  broadcast : d.status = .broadcast → d.fairTxid ≠ none

/-- The payment is that of the withdrawal. -/
structure Disburses (w : World) (d : WithdrawalDoc) (s : Send) : Prop where
  address : s.address = d.destinationFairAddress
  sats : s.sats = d.amountSats
  positive : 0 < s.sats
  valid : w.fair.isvalid s.address = true

structure ReleaseBooks (cfg : Config) (w : World) : Prop where
  standing : ∀ id d, w.withdrawals.get id = some d → WithdrawalStanding cfg w id d
  unique : ∀ k, w.withdrawals.UniqueAt k
  jobs : ∀ j ∈ w.releaseQueue, w.owes j.data
  paid : ∀ id, ∀ s ∈ w.releasesOf id, ∃ d, w.withdrawals.get id = some d ∧ Disburses w d s

/-- How a withdrawal goes on: not at all once it has failed, and to no failure if its
address is valid. -/
structure WithdrawalDoc.Advances (valid : String → Bool) (d d' : WithdrawalDoc) : Prop where
  terms : d'.job = d.job
  failed : d.status = .failed → d' = d
  payable : valid d.destinationFairAddress = true → d.status ≠ .failed → d'.status ≠ .failed
  filed : d.fairTxid ≠ none → d'.fairTxid ≠ none
  broadcast : d.status = .broadcast → d'.status = .broadcast

structure ReleasesAdvance (w w' : World) : Prop where
  rows : ∀ id d, w.withdrawals.get id = some d →
    ∃ d', w'.withdrawals.get id = some d' ∧ d.Advances w.fair.isvalid d'
  releases : ∀ id, w.releasesOf id <+: w'.releasesOf id
  blocks : w.base.blocks <+: w'.base.blocks
  valid : w'.fair.isvalid = w.fair.isvalid

section Advance
variable {cfg : Config} {u v w : World} {id : ObjectId} {d d' : WithdrawalDoc} {job : ReleaseJob}
  {valid : String → Bool}

theorem WithdrawalDoc.destination_of_job (h : d'.job = d.job) :
    d'.destinationFairAddress = d.destinationFairAddress :=
  congrArg ReleaseJob.destinationFairAddress h

namespace WithdrawalDoc.Advances

theorem refl (valid : String → Bool) (d : WithdrawalDoc) : d.Advances valid d :=
  ⟨rfl, fun _ => rfl, fun _ h => h, fun h => h, fun h => h⟩

theorem trans {a b c : WithdrawalDoc} (hab : a.Advances valid b) (hbc : b.Advances valid c) :
    a.Advances valid c where
  terms := hbc.terms.trans hab.terms
  failed ha := by
    obtain rfl := hab.failed ha
    exact hbc.failed ha
  payable hv ha := by
    have hb := hab.payable hv ha
    rw [← destination_of_job hab.terms] at hv
    exact hbc.payable hv hb
  filed ha := hbc.filed (hab.filed ha)
  broadcast ha := hbc.broadcast (hab.broadcast ha)

end WithdrawalDoc.Advances

namespace ReleasesAdvance

theorem refl (w : World) : ReleasesAdvance w w :=
  ⟨fun _ d hd => ⟨d, hd, .refl _ d⟩, fun _ => List.prefix_rfl, List.prefix_rfl, rfl⟩

theorem trans (huv : ReleasesAdvance u v) (hvw : ReleasesAdvance v w) : ReleasesAdvance u w where
  rows id d hd := by
    obtain ⟨d', hd', hadv⟩ := huv.rows id d hd
    obtain ⟨d'', hd'', hadv'⟩ := hvw.rows id d' hd'
    rw [huv.valid] at hadv'
    exact ⟨d'', hd'', hadv.trans hadv'⟩
  releases id := (huv.releases id).trans (hvw.releases id)
  blocks := huv.blocks.trans hvw.blocks
  valid := hvw.valid.trans huv.valid

theorem minedBurn_kept (hk : ReleasesAdvance v w) {l : BurnLog} (h : v.minedBurn l) :
    w.minedBurn l := by
  obtain ⟨logs, hlogs, hlog⟩ := h
  exact ⟨logs, hk.blocks.subset hlogs, hlog⟩

theorem owes_kept (hk : ReleasesAdvance v w) (h : v.owes job) : w.owes job := by
  obtain ⟨d, hd, hjob⟩ := h
  obtain ⟨d', hd', hadv⟩ := hk.rows _ d hd
  exact ⟨d', hd', hadv.terms.trans hjob⟩

end ReleasesAdvance

/-- A row stands as long as nothing is paid for a failed one. -/
theorem WithdrawalStanding.mono (hs : WithdrawalStanding cfg v id d) (hk : ReleasesAdvance v w)
    (hquiet : d.status = .failed → w.releasesOf id = v.releasesOf id) :
    WithdrawalStanding cfg w id d where
  burn := by
    obtain ⟨l, hmined, hrest⟩ := hs.burn
    exact ⟨l, hk.minedBurn_kept hmined, hrest⟩
  unpaid hst := ⟨(hs.unpaid hst).1, (hquiet hst).trans (hs.unpaid hst).2⟩
  filed txid ht := by
    obtain ⟨s, hs, hsent⟩ := hs.filed txid ht
    exact ⟨s, (hk.releases id).subset hs, hsent⟩
  broadcast := hs.broadcast

theorem Disburses.later {s : Send} (h : Disburses v d s) (hk : ReleasesAdvance v w)
    (hterms : d'.job = d.job) : Disburses w d' s where
  address := h.address.trans (WithdrawalDoc.destination_of_job hterms).symm
  sats := h.sats.trans (congrArg ReleaseJob.amountSats hterms).symm
  positive := h.positive
  valid := by
    rw [hk.valid]
    exact h.valid

namespace ReleaseBooks

/-- Every row goes on to one that stands, nothing is paid, and what is enqueued is owed. -/
theorem update (hi : ReleaseBooks cfg v)
    (hreleases : ∀ id, w.releasesOf id = v.releasesOf id)
    (hblocks : v.base.blocks <+: w.base.blocks) (hvalid : w.fair.isvalid = v.fair.isvalid)
    (hold : ∀ id d, v.withdrawals.get id = some d → ∃ d', w.withdrawals.get id = some d' ∧
      (d' = d ∨ d.Advances v.fair.isvalid d' ∧ WithdrawalStanding cfg v id d'))
    (hnew : ∀ id d', v.withdrawals.get id = none → w.withdrawals.get id = some d' →
      WithdrawalStanding cfg v id d')
    (hunique : ∀ k, w.withdrawals.UniqueAt k)
    (hjobs : ∀ j ∈ w.releaseQueue, v.owes j.data ∨ w.owes j.data) :
    ReleaseBooks cfg w ∧ ReleasesAdvance v w := by
  have hk : ReleasesAdvance v w := by
    refine ⟨fun id d hd => ?_, fun id => (hreleases id).symm ▸ List.prefix_rfl, hblocks, hvalid⟩
    obtain ⟨d', hd', rfl | ⟨hadv, _⟩⟩ := hold id d hd
    · exact ⟨d', hd', .refl _ d'⟩
    · exact ⟨d', hd', hadv⟩
  refine ⟨⟨fun id d' hd' => ?_, hunique, fun j hj => ?_, fun id s hs => ?_⟩, hk⟩
  · cases hd : v.withdrawals.get id with
    | none => exact (hnew id d' hd hd').mono hk fun _ => hreleases id
    | some d =>
        obtain ⟨d'', hd'', hcases⟩ := hold id d hd
        obtain rfl := Option.some.inj (hd'.symm.trans hd'')
        cases hcases with
        | inl hsame =>
            subst hsame
            exact (hi.standing id d' hd).mono hk fun _ => hreleases id
        | inr hstands => exact hstands.2.mono hk fun _ => hreleases id
  · cases hjobs j hj with
    | inl h => exact hk.owes_kept h
    | inr h => exact h
  · rw [hreleases] at hs
    obtain ⟨d, hd, hpays⟩ := hi.paid id s hs
    obtain ⟨d', hd', hadv⟩ := hk.rows id d hd
    exact ⟨d', hd', hpays.later hk hadv.terms⟩

theorem same (hi : ReleaseBooks cfg v) (hrows : w.withdrawals = v.withdrawals)
    (hqueue : w.releaseQueue = v.releaseQueue) (hreleases : ∀ id, w.releasesOf id = v.releasesOf id)
    (hblocks : v.base.blocks <+: w.base.blocks) (hvalid : w.fair.isvalid = v.fair.isvalid) :
    ReleaseBooks cfg w ∧ ReleasesAdvance v w := by
  refine hi.update hreleases hblocks hvalid (fun id d hd => ⟨d, hrows ▸ hd, Or.inl rfl⟩) ?_
    (fun k => hrows ▸ hi.unique k) fun j hj => Or.inl (hi.jobs j (hqueue ▸ hj))
  intro id d hnone hd
  rw [hrows, hnone] at hd
  cases hd

theorem env {e : EnvEvent} (hi : ReleaseBooks cfg v) (h : e.occur v = some w) :
    ReleaseBooks cfg w ∧ ReleasesAdvance v w := by
  have hs := EnvEvent.occur_surroundings h
  refine hi.same hs.withdrawals hs.releaseQueue (fun id => ?_) hs.blocks (EnvEvent.occur_isvalid h)
  rw [World.releasesOf, hs.sends]
  rfl

/-- One row is updated by its identifier. -/
theorem set {u : WithdrawalSet} (hi : ReleaseBooks cfg v)
    (h : ∀ d, v.withdrawals.get id = some d →
      d.Advances v.fair.isvalid (u.apply d) ∧ WithdrawalStanding cfg v id (u.apply d)) :
    ReleaseBooks cfg (v.setWithdrawal id u) ∧ ReleasesAdvance v (v.setWithdrawal id u) := by
  refine hi.update (fun _ => rfl) List.prefix_rfl rfl (fun j d hd => ?_) (fun j d hnone hd => ?_)
    (fun k => ?_) fun j hj => Or.inl (hi.jobs j hj)
  · simp only [World.setWithdrawal, Collection.get_modify]
    split
    · rename_i hj
      subst hj
      rw [hd]
      exact ⟨_, rfl, Or.inr (h d hd)⟩
    · exact ⟨d, hd, Or.inl rfl⟩
  · simp only [World.setWithdrawal, Collection.get_modify] at hd
    split at hd
    · rename_i hj
      rw [← hj, hnone] at hd
      cases hd
    · cases hnone.symm.trans hd
  · have hrun := Query.run_unique refusals v.now (.updateOne
      (fun d => withdrawalSchema.id d == id && true) u) (hi.unique k)
    rwa [Collection.run_updateById refusals v.now v.withdrawals id u fun _ => rfl] at hrun

/-- A new row stands, and nothing was paid for it before. -/
theorem insert {d : WithdrawalDoc} (hi : ReleaseBooks cfg v)
    (hfree : ∀ e ∈ v.withdrawals.docs, e.key ≠ d.key)
    (hburn : ∃ l, v.minedBurn l ∧ l.key = d.key ∧ d.destinationFairAddress = l.faircoinAddress ∧
      (applyFee l.amountSats cfg.bridgeFeeBps = .ok d.amountSats ∨ d.status = .failed))
    (hnone : d.fairTxid = none) (hst : d.status ≠ .broadcast) :
    ReleaseBooks cfg (v.insertWithdrawal d) ∧ ReleasesAdvance v (v.insertWithdrawal d) := by
  refine hi.update (fun _ => rfl) List.prefix_rfl rfl (fun j e he => ?_) (fun j e hold he => ?_)
    (fun k => ?_) fun j hj => Or.inl (hi.jobs j hj)
  · exact ⟨e, World.get_insertWithdrawal_old he, Or.inl rfl⟩
  · rw [World.get_insertWithdrawal] at he
    split at he
    · rename_i hj
      subst hj
      cases he
      refine ⟨hburn, fun _ => ⟨hnone, ?_⟩, fun t ht => ?_, fun hb => absurd hb hst⟩
      · refine List.eq_nil_iff_forall_not_mem.mpr fun s hs => ?_
        obtain ⟨e, he, _⟩ := hi.paid _ s hs
        cases hold.symm.trans he
      · cases hnone.symm.trans ht
    · cases hold.symm.trans he
  · refine (hi.unique k).insert ?_
    by_cases hk : d.key = k
    · refine Or.inr (Bool.eq_false_iff.mpr fun hclash => ?_)
      obtain ⟨e, he, hkey⟩ := Collection.clashes_true hclash
      exact hfree e he (Option.some.inj hkey)
    · exact Or.inl fun h => hk (Option.some.inj h)

theorem enqueue (hi : ReleaseBooks cfg v) (howes : v.owes job) :
    ReleaseBooks cfg { v with releaseQueue := v.releaseQueue.add job.key job } ∧
      ReleasesAdvance v { v with releaseQueue := v.releaseQueue.add job.key job } := by
  refine hi.update (fun _ => rfl) List.prefix_rfl rfl (fun _ d hd => ⟨d, hd, Or.inl rfl⟩)
    (fun _ d hnone hd => ?_) hi.unique fun j hj => ?_
  · cases hnone.symm.trans hd
  · cases JobQueue.mem_add hj with
    | inl hold => exact Or.inl (hi.jobs j hold)
    | inr hnew => exact Or.inl (hnew ▸ howes)

/-- A payment of an owed job, whose withdrawal may be paid. -/
theorem send {s : Send} (hi : ReleaseBooks cfg v) (hd : v.withdrawals.get id = some d)
    (hpays : Disburses v d s) (hst : d.status ≠ .failed) (hrow : s.withdrawal = some id)
    (hfair : w.fair.sends = v.fair.sends ++ [s]) (hvalid : w.fair.isvalid = v.fair.isvalid)
    (hrows : w.withdrawals = v.withdrawals) (hqueue : w.releaseQueue = v.releaseQueue)
    (hblocks : w.base.blocks = v.base.blocks) :
    ReleaseBooks cfg w ∧ ReleasesAdvance v w := by
  have hother : ∀ j, j ≠ id → w.releasesOf j = v.releasesOf j := by
    intro j hj
    rw [World.releasesOf, hfair, List.filter_append, List.filter_append]
    have hs : ([s].filter fun s => s.area == .releases).filter
        (fun s => s.withdrawal == some j) = [] := by
      refine List.eq_nil_iff_forall_not_mem.mpr fun x hx => ?_
      obtain ⟨hx, hxj⟩ := List.mem_filter.mp hx
      obtain rfl := List.mem_singleton.mp (List.mem_filter.mp hx).1
      rw [hrow, beq_iff_eq] at hxj
      exact hj (Option.some.inj hxj).symm
    rw [hs, List.append_nil]
    rfl
  have hprefix : ∀ j, v.releasesOf j <+: w.releasesOf j := by
    intro j
    rw [World.releasesOf, World.releasesOf, hfair]
    exact List.IsPrefix.filter _ (List.IsPrefix.filter _ (List.prefix_append _ _))
  have hk : ReleasesAdvance v w :=
    ⟨fun j e he => ⟨e, hrows ▸ he, .refl _ e⟩, hprefix, hblocks ▸ List.prefix_rfl, hvalid⟩
  refine ⟨⟨fun j e he => ?_, fun k => hrows ▸ hi.unique k, fun j hj => ?_, fun j x hx => ?_⟩, hk⟩
  · rw [hrows] at he
    refine (hi.standing j e he).mono hk fun hfailed => hother j fun hj => ?_
    subst hj
    obtain rfl := Option.some.inj (hd.symm.trans he)
    exact hst hfailed
  · exact hk.owes_kept (hi.jobs j (hqueue ▸ hj))
  · have hnow : x ∈ v.releasesOf j ∨ x = s ∧ j = id := by
      obtain ⟨hx, hxj⟩ := List.mem_filter.mp hx
      obtain ⟨hx, harea⟩ := List.mem_filter.mp hx
      rw [hfair, List.mem_append, List.mem_singleton] at hx
      cases hx with
      | inl hold =>
          exact Or.inl (List.mem_filter.mpr ⟨List.mem_filter.mpr ⟨hold, harea⟩, hxj⟩)
      | inr hnew =>
          subst hnew
          rw [hrow, beq_iff_eq] at hxj
          exact Or.inr ⟨rfl, (Option.some.inj hxj).symm⟩
    rw [hrows]
    cases hnow with
    | inl hold =>
        obtain ⟨e, he, hpays⟩ := hi.paid j x hold
        exact ⟨e, he, hpays.later hk rfl⟩
    | inr hnew =>
        obtain ⟨rfl, rfl⟩ := hnew
        exact ⟨d, hd, hpays.later hk rfl⟩

end ReleaseBooks

end Advance

def releaseProgress (cfg : Config) : Progress World where
  inv := ReleaseBooks cfg
  kept := ReleasesAdvance
  refl := .refl
  trans := .trans

/-- Where the withdrawals are kept, and what is enqueued and paid for them. -/
abbrev releaseAreas : List Area := [.withdrawals, .releases, .releaseQueue]

namespace World

/-- The withdrawal is not refused, and its address is valid. -/
def payable (w : World) (id : ObjectId) : Prop :=
  ∃ d, w.withdrawals.get id = some d ∧ d.status ≠ .failed ∧
    w.fair.isvalid d.destinationFairAddress = true

/-- The withdrawal has a payment on file. -/
def hasFiled (w : World) (id : ObjectId) : Prop :=
  ∃ d, w.withdrawals.get id = some d ∧ d.fairTxid ≠ none

/-- The payment went out for the withdrawal. -/
def hasPaid (w : World) (id : ObjectId) (t : Txid) : Prop := ∃ s ∈ w.releasesOf id, s.txid = t

end World

/-- The withdrawal was so once. -/
def SeenRow (cfg : Config) (id : ObjectId) (d : WithdrawalDoc) (w : World) : Prop :=
  ∃ v, ReleaseBooks cfg v ∧ v.withdrawals.get id = some d ∧ ReleasesAdvance v w

section Knowledge
variable {cfg : Config} {v w : World} {id : ObjectId} {d : WithdrawalDoc}

namespace ReleasesAdvance

theorem payable_kept (hk : ReleasesAdvance v w) (h : v.payable id) : w.payable id := by
  obtain ⟨d, hd, hst, hvalid⟩ := h
  obtain ⟨d', hd', hadv⟩ := hk.rows id d hd
  refine ⟨d', hd', hadv.payable hvalid hst, ?_⟩
  rw [hk.valid, WithdrawalDoc.destination_of_job hadv.terms]
  exact hvalid

theorem hasFiled_kept (hk : ReleasesAdvance v w) (h : v.hasFiled id) : w.hasFiled id := by
  obtain ⟨d, hd, hfiled⟩ := h
  obtain ⟨d', hd', hadv⟩ := hk.rows id d hd
  exact ⟨d', hd', hadv.filed hfiled⟩

theorem hasPaid_kept {t : Txid} (hk : ReleasesAdvance v w) (h : v.hasPaid id t) :
    w.hasPaid id t := by
  obtain ⟨s, hs, ht⟩ := h
  exact ⟨s, (hk.releases id).subset hs, ht⟩

end ReleasesAdvance

namespace SeenRow

theorem id_eq (h : SeenRow cfg id d w) : d.id = id := by
  obtain ⟨v, _, hd, _⟩ := h
  exact Collection.get_id hd

theorem hasFiled (h : SeenRow cfg id d w) (ht : d.fairTxid ≠ none) : w.hasFiled id := by
  obtain ⟨v, _, hd, hk⟩ := h
  exact hk.hasFiled_kept ⟨d, hd, ht⟩

/-- A payment goes to a valid address, and not for a refused withdrawal. -/
theorem payable_of_filed (h : SeenRow cfg id d w) (ht : d.fairTxid ≠ none) : w.payable id := by
  obtain ⟨v, hi, hd, hk⟩ := h
  refine hk.payable_kept ⟨d, hd, fun hst => ht ((hi.standing id d hd).unpaid hst).1, ?_⟩
  obtain ⟨t, ht⟩ := Option.ne_none_iff_exists'.mp ht
  obtain ⟨s, hs, _⟩ := (hi.standing id d hd).filed t ht
  obtain ⟨e, he, hpays⟩ := hi.paid id s hs
  obtain rfl := Option.some.inj (hd.symm.trans he)
  rw [← hpays.address]
  exact hpays.valid

theorem destination {job : ReleaseJob} (h : SeenRow cfg job.withdrawalId d w)
    (howes : w.owes job) : d.destinationFairAddress = job.destinationFairAddress := by
  obtain ⟨v, _, hd, hk⟩ := h
  obtain ⟨e, he, hjob⟩ := howes
  obtain ⟨d', hd', hadv⟩ := hk.rows _ d hd
  obtain rfl := Option.some.inj (he.symm.trans hd')
  exact congrArg ReleaseJob.destinationFairAddress (hadv.terms.symm.trans hjob)

theorem payable_of_valid (h : SeenRow cfg id d w) (hst : d.status ≠ .failed)
    (hvalid : w.fair.isvalid d.destinationFairAddress = true) : w.payable id := by
  obtain ⟨v, hi, hd, hk⟩ := h
  rw [hk.valid] at hvalid
  exact hk.payable_kept ⟨d, hd, hst, hvalid⟩

end SeenRow

/-- A withdrawal that is not refused goes on, with a payment on file that went out for it. -/
theorem WithdrawalStanding.goesOn {u : WithdrawalSet} (hs : WithdrawalStanding cfg w id d)
    (hst : d.status ≠ .failed) (hst' : u.status ≠ some .failed)
    (hfile : ∀ t, u.fairTxid = some t → w.hasPaid id t)
    (hbroadcast : u.status = some .broadcast → d.fairTxid ≠ none)
    (hstays : d.status = .broadcast → u.status = none ∨ u.status = some .broadcast) :
    d.Advances w.fair.isvalid (u.apply d) ∧ WithdrawalStanding cfg w id (u.apply d) := by
  have hstatus : (u.apply d).status = u.status.getD d.status := rfl
  have htxid : (u.apply d).fairTxid = u.fairTxid.or d.fairTxid := rfl
  have hkeep : d.fairTxid ≠ none → (u.apply d).fairTxid ≠ none := by
    intro ht
    rw [htxid]
    cases u.fairTxid with
    | none => exact ht
    | some t => exact Option.some_ne_none t
  have hnot : (u.apply d).status ≠ .failed := by
    rw [hstatus]
    cases hu : u.status with
    | none => exact hst
    | some st => exact fun h => hst' (hu.trans (congrArg some h))
  refine ⟨⟨rfl, fun hf => absurd hf hst, fun _ _ => hnot, hkeep, fun hb => ?_⟩, ?_,
    fun hf => absurd hf hnot, fun t ht => ?_, fun hb => ?_⟩
  · rw [hstatus]
    cases hstays hb with
    | inl hu => rw [hu]; exact hb
    | inr hu => rw [hu]; rfl
  · obtain ⟨l, hmined, hkey, haddress, hamount⟩ := hs.burn
    exact ⟨l, hmined, hkey, haddress, Or.inl (hamount.resolve_right hst)⟩
  · rw [htxid] at ht
    cases hu : u.fairTxid with
    | none =>
        rw [hu, Option.none_or] at ht
        exact hs.filed t ht
    | some t' =>
        rw [hu, Option.some_or] at ht
        exact hfile t (hu.trans ht)
  · cases hu : u.status with
    | none =>
        rw [hstatus, hu] at hb
        exact hkeep (hs.broadcast hb)
    | some st =>
        rw [hstatus, hu] at hb
        exact hkeep (hbroadcast (hu.trans (congrArg some hb)))

/-- A withdrawal to an invalid address is refused; nothing was paid for it. -/
theorem ReleaseBooks.refuses {u : WithdrawalSet} (hi : ReleaseBooks cfg w)
    (hd : w.withdrawals.get id = some d)
    (hvalid : w.fair.isvalid d.destinationFairAddress = false)
    (hu : u = { status := some .failed }) :
    d.Advances w.fair.isvalid (u.apply d) ∧ WithdrawalStanding cfg w id (u.apply d) := by
  have hs := hi.standing id d hd
  have hunpaid : w.releasesOf id = [] := by
    refine List.eq_nil_iff_forall_not_mem.mpr fun s hs => ?_
    obtain ⟨e, he, hpays⟩ := hi.paid id s hs
    obtain rfl := Option.some.inj (hd.symm.trans he)
    have hgood := hpays.valid
    rw [hpays.address, hvalid] at hgood
    cases hgood
  have hnone : d.fairTxid = none := by
    refine Option.eq_none_iff_forall_ne_some.mpr fun t ht => ?_
    obtain ⟨s, hmem, _⟩ := hs.filed t ht
    rw [hunpaid] at hmem
    cases hmem
  subst hu
  refine ⟨⟨rfl, fun hf => ?_, fun hgood => ?_, fun ht => absurd hnone ht, fun hb => ?_⟩, ?_,
    fun _ => ⟨hnone, hunpaid⟩, hs.filed, fun hb => ?_⟩
  · cases d
    cases hf
    rfl
  · cases hvalid.symm.trans hgood
  · exact absurd hnone (hs.broadcast hb)
  · obtain ⟨l, hmined, hkey, haddress, _⟩ := hs.burn
    exact ⟨l, hmined, hkey, haddress, Or.inr rfl⟩
  · cases hb

end Knowledge

section Requests
variable {ι β : Type} {cfg : Config} {f : Faults ι} {i : ι} {F : World → Prop} {v w : World}
  {op : Op β} {out : Outcome} {r : Except JsError β} {id : ObjectId} {d : WithdrawalDoc}
  {job : ReleaseJob} {l : BurnLog}

theorem apart_allowed (h : op.beside releaseAreas) :
    (releaseProgress cfg).Allowed (service cfg f) i F op := by
  intro v out r w hi _ _ hans
  have hreach := answer_reach hans
  obtain ⟨hblocks, hvalid⟩ := answer_given hans
  refine ReleaseBooks.same hi (hreach .withdrawals (Op.beside_area h rfl))
    (hreach .releaseQueue (Op.beside_area h rfl)) (fun id => ?_) (hblocks ▸ List.prefix_rfl) hvalid
  rw [World.releasesOf, hreach .releases (Op.beside_area h rfl)]
  rfl

/-- The row of the identifier goes on as it may. -/
def RowGoesOn (cfg : Config) (F : World → Prop) (id : ObjectId) (cond : WithdrawalDoc → Bool)
    (u : WithdrawalSet) : Prop :=
  ∀ v d, ReleaseBooks cfg v → F v → v.withdrawals.get id = some d → cond d = true →
    d.Advances v.fair.isvalid (u.apply d) ∧ WithdrawalStanding cfg v id (u.apply d)

abbrev LearnsReleases (cfg : Config) (f : Faults ι) (i : ι) {α : Type} (M : α → World → Prop)
    (F : World → Prop) (p : Promise α) : Prop :=
  (releaseProgress cfg).Learns (service cfg f) i M F p

theorem updateRow_allowed {u : WithdrawalSet} (h : RowGoesOn cfg F id (fun _ => true) u) :
    (releaseProgress cfg).Allowed (service cfg f) i F
      (.withdrawal (.updateOne (fun d => d.id == id && true) u)) := by
  intro v out r w hi hF _ hans
  obtain ⟨_, _, _, rfl⟩ | ⟨x, hx, _⟩ := answer_cases hans
  · exact ⟨hi, .refl _⟩
  · cases (Withdrawal.effect_updateById (f.row i) id u v).symm.trans hx
    exact ReleaseBooks.set hi fun d hd => h v d hi hF hd rfl

theorem updateRow_learns {u : WithdrawalSet} (h : RowGoesOn cfg F id (fun _ => true) u) :
    LearnsReleases cfg f i (fun _ _ => True) F (Withdrawal.updateById id u) :=
  .request (updateRow_allowed h) fun _ _ _ _ _ => trivial

theorem file_learns {u : WithdrawalSet} {t : Txid} (h : RowGoesOn cfg F id (fun _ => true) u)
    (hu : u.fairTxid = some t) (hrow : ∀ w, F w → w.payable id) :
    LearnsReleases cfg f i (fun _ w => w.hasFiled id) F (Withdrawal.updateById id u) := by
  refine .request (updateRow_allowed h) ?_
  rintro _ w _ _ ⟨v, out, s, _, hF, _, hans, _, hk⟩
  obtain ⟨_, _, he, _⟩ | ⟨x, hx, _⟩ := answer_cases hans
  · cases he
  · cases (Withdrawal.effect_updateById (f.row i) id u v).symm.trans hx
    obtain ⟨d, hd, _⟩ := hrow v hF
    have hk : ReleasesAdvance _ w := hk
    refine hk.hasFiled_kept ⟨_, World.get_setWithdrawal hd u, ?_⟩
    simp [WithdrawalSet.apply, hu]

theorem findRow_learns : LearnsReleases cfg f i
    (fun r w => ∀ d, r = some d → SeenRow cfg id d w) F (Withdrawal.findById id) := by
  refine .request (apart_allowed trivial) ?_
  rintro found w _ _ ⟨v, out, u, hi, _, _, hans, hu, hk⟩ d rfl
  obtain ⟨_, _, he, _⟩ | ⟨x, hx, hout⟩ := answer_cases hans
  · cases he
  · cases hx
    obtain ⟨_, hr⟩ | ⟨_, _, hr⟩ := hout
    · exact ⟨v, hi, (Except.ok.inj hr).symm, hk⟩
    · cases hr

theorem claim_goesOn : RowGoesOn cfg F id releasable { status := some .signing } := by
  intro v d hi _ hd h
  simp only [releasable, Bool.and_eq_true, Bool.or_eq_true, beq_iff_eq] at h
  obtain ⟨hst, hnone⟩ := h
  refine (hi.standing id d hd).goesOn ?_ (by simp) (fun t ht => ?_) (fun hb => ?_) fun hb => ?_
  · cases hst with
    | inl hst => simp [hst]
    | inr hst => simp [hst]
  · cases ht
  · cases hb
  · exact absurd hnone ((hi.standing id d hd).broadcast hb)

/-- The payment of a withdrawal that may be paid is put on file. -/
theorem file_goesOn {t : Txid} {sentAt : Option Nat} (hpayable : ∀ w, F w → w.payable id)
    (hpaid : ∀ w, F w → w.hasPaid id t) :
    RowGoesOn cfg F id (fun _ => true) { fairTxid := some t, fairBroadcastAt := sentAt } := by
  intro v d hi hF hd _
  obtain ⟨e, he, hst, _⟩ := hpayable v hF
  obtain rfl := Option.some.inj (hd.symm.trans he)
  refine (hi.standing id d hd).goesOn hst (by simp) (fun t' ht => ?_) (fun hb => ?_)
    fun _ => Or.inl rfl
  · cases ht
    exact hpaid v hF
  · cases hb

/-- A withdrawal with a payment on file is broadcast. -/
theorem broadcast_goesOn {sentAt : Option Nat} (hpayable : ∀ w, F w → w.payable id)
    (hfiled : ∀ w, F w → w.hasFiled id) : RowGoesOn cfg F id (fun _ => true)
      { status := some .broadcast, fairBroadcastAt := sentAt } := by
  intro v d hi hF hd _
  obtain ⟨e, he, hst, _⟩ := hpayable v hF
  obtain ⟨e', he', ht⟩ := hfiled v hF
  obtain rfl := Option.some.inj (hd.symm.trans he)
  obtain rfl := Option.some.inj (hd.symm.trans he')
  refine (hi.standing id d hd).goesOn hst (by simp) (fun t' ht => ?_) (fun _ => ht)
    fun _ => Or.inr rfl
  cases ht

/-- A withdrawal to an invalid address is refused. -/
theorem refuse_goesOn (howes : ∀ w, F w → w.owes job)
    (hinvalid : ∀ w, F w → w.fair.isvalid job.destinationFairAddress = false) :
    RowGoesOn cfg F job.withdrawalId (fun _ => true) { status := some .failed } := by
  intro v d hi hF hd _
  obtain ⟨e, he, hjob⟩ := howes v hF
  obtain rfl := Option.some.inj (hd.symm.trans he)
  refine hi.refuses hd ?_ rfl
  rw [show d.destinationFairAddress = job.destinationFairAddress from
    congrArg ReleaseJob.destinationFairAddress hjob]
  exact hinvalid v hF

theorem claimRelease_learns : LearnsReleases cfg f i
    (fun r w => ∀ d, r = some d → SeenRow cfg id d w) F (claimRelease id) := by
  refine .request ?_ ?_
  · intro v out r w hi hF _ hans
    obtain ⟨_, _, _, rfl⟩ | ⟨x, hx, _⟩ := answer_cases hans
    · exact ⟨hi, .refl _⟩
    · have heff := (effect_claimRelease (f.row i) id v).symm.trans hx
      split at heff <;> cases heff
      · exact ⟨hi, .refl _⟩
      · rename_i d hd _
        obtain ⟨hd, hclaim⟩ := Option.filter_eq_some_iff.mp hd
        refine ReleaseBooks.set hi fun e he => ?_
        obtain rfl := Option.some.inj (hd.symm.trans he)
        exact claim_goesOn v d hi hF hd hclaim
  · rintro found w _ _ ⟨v, out, t, _, _, _, hans, ht, hk⟩ d rfl
    obtain ⟨_, _, he, _⟩ | ⟨x, hx, hout⟩ := answer_cases hans
    · cases he
    · have heff := (effect_claimRelease (f.row i) id v).symm.trans hx
      obtain ⟨_, rfl⟩ | ⟨_, _, hr⟩ := hout
      · split at heff <;> cases heff
        rename_i e he
        exact ⟨_, ht, World.get_setWithdrawal (Option.filter_eq_some_iff.mp he).1 _, hk⟩
      · cases hr

theorem validate_learns (address : String) : LearnsReleases cfg f i
    (fun valid w => w.fair.isvalid address = valid) F (call (.validateAddress address)) := by
  refine .request (apart_allowed trivial) ?_
  rintro valid w _ _ ⟨v, out, u, _, _, _, hans, _, hk⟩
  obtain ⟨_, _, he, _⟩ | ⟨x, hx, hout⟩ := answer_cases hans
  · cases he
  · obtain ⟨_, rfl⟩ | ⟨_, _, hr⟩ := hout
    · simp only [effect] at hx
      cases hx
      exact congrFun hk.valid address
    · cases hr

/-- The payment of an owed job that may be paid. -/
theorem pay_learns (hrow : f.row i = some job.withdrawalId) (howes : ∀ w, F w → w.owes job)
    (hpayable : ∀ w, F w → w.payable job.withdrawalId) :
    LearnsReleases cfg f i (fun t w => w.hasPaid job.withdrawalId t) F
      (sendToAddress job.destinationFairAddress (satsToFair job.amountSats)) := by
  refine .request ?_ ?_
  · intro v out r w hi hF _ hans
    obtain ⟨_, _, _, rfl⟩ | ⟨x, hx, _⟩ := answer_cases hans
    · exact hi.same rfl rfl (fun _ => rfl) List.prefix_rfl rfl
    · obtain ⟨_, _, rfl⟩ | ⟨_, rfl, hpos, _⟩ := effect_sendToAddress hx
      · exact hi.same rfl rfl (fun _ => rfl) List.prefix_rfl rfl
      · obtain ⟨d, hd, hst, hvalid⟩ := hpayable v hF
        obtain ⟨d', hd', hjob⟩ := howes v hF
        obtain rfl := Option.some.inj (hd.symm.trans hd')
        refine ReleaseBooks.send hi hd ⟨?_, ?_, hpos, ?_⟩ hst hrow rfl rfl rfl rfl rfl
        · exact (congrArg ReleaseJob.destinationFairAddress hjob).symm
        · exact (fairValueToSats_satsToFair _).trans (congrArg ReleaseJob.amountSats hjob).symm
        · rw [← congrArg ReleaseJob.destinationFairAddress hjob]
          exact hvalid
  · rintro t w _ _ ⟨v, out, u, _, _, _, hans, _, hk⟩
    obtain ⟨_, _, he, _⟩ | ⟨x, hx, hout⟩ := answer_cases hans
    · cases he
    · obtain ⟨_, rfl⟩ | ⟨_, _, hr⟩ := hout
      · obtain ⟨_, he, _⟩ | ⟨ht, rfl, _⟩ := effect_sendToAddress hx
        · cases he
        · cases ht
          refine ReleasesAdvance.hasPaid_kept hk ⟨⟨_, job.destinationFairAddress, _, f.row i, none⟩,
            List.mem_filter.mpr ⟨List.mem_filter.mpr ⟨List.mem_append_right _
              (List.mem_singleton_self _), rfl⟩, ?_⟩, rfl⟩
          rw [hrow]
          exact beq_self_eq_true _
      · cases hr

/-- The row of a burn of the chain. -/
theorem create_learns {d : WithdrawalDoc} (hmined : ∀ w, F w → w.minedBurn l)
    (hkey : d.key = l.key) (haddress : d.destinationFairAddress = l.faircoinAddress)
    (hamount : applyFee l.amountSats cfg.bridgeFeeBps = .ok d.amountSats ∨ d.status = .failed)
    (hnone : d.fairTxid = none) (hst : d.status ≠ .broadcast) :
    LearnsReleases cfg f i (fun d' w => d'.destinationFairAddress = d.destinationFairAddress ∧
      d'.amountSats = d.amountSats ∧ d'.key = d.key ∧ w.owes d'.job) F
      (call (.withdrawal (.create d))) := by
  refine .request ?_ ?_
  · intro v out r w hi hF _ hans
    obtain ⟨_, _, _, rfl⟩ | ⟨x, hx, _⟩ := answer_cases hans
    · exact ⟨hi, .refl _⟩
    · obtain ⟨_, _, rfl⟩ | ⟨_, rfl, hfree⟩ := effect_createWithdrawal hx
      · exact ⟨hi, .refl _⟩
      · exact ReleaseBooks.insert hi hfree ⟨l, hmined v hF, hkey.symm, haddress, hamount⟩ hnone hst
  · rintro d' w _ _ ⟨v, out, u, _, _, _, hans, _, hk⟩
    obtain ⟨_, _, he, _⟩ | ⟨x, hx, hout⟩ := answer_cases hans
    · cases he
    · obtain ⟨_, rfl⟩ | ⟨_, _, hr⟩ := hout
      · obtain ⟨_, he, _⟩ | ⟨hd, rfl, _⟩ := effect_createWithdrawal hx
        · cases he
        · cases hd
          refine ⟨rfl, rfl, rfl, ReleasesAdvance.owes_kept hk ⟨_, ?_, rfl⟩⟩
          exact World.get_insertWithdrawal_new _ d
      · cases hr

theorem enqueue_learns (howes : ∀ w, F w → w.owes job) :
    LearnsReleases cfg f i (fun _ _ => True) F (call (.addReleaseJob job)) := by
  refine .request ?_ fun _ _ _ _ _ => trivial
  intro v out r w hi hF _ hans
  obtain ⟨_, _, _, rfl⟩ | ⟨x, hx, _⟩ := answer_cases hans
  · exact ⟨hi, .refl _⟩
  · cases hx
    exact ReleaseBooks.enqueue hi (howes v hF)

theorem orphans_learns {filter : WithdrawalDoc → Bool} {limit : Option Nat} :
    LearnsReleases cfg f i (fun ds w => ∀ d ∈ ds, w.owes d.job) F
      (call (.withdrawal (.find filter limit))) := by
  refine .request (apart_allowed trivial) ?_
  rintro ds w _ _ ⟨v, out, u, _, _, _, hans, _, hk⟩ d hd
  obtain ⟨_, _, he, _⟩ | ⟨x, hx, hout⟩ := answer_cases hans
  · cases he
  · obtain ⟨_, rfl⟩ | ⟨_, _, hr⟩ := hout
    · have hmem : d ∈ u.withdrawals.docs := by
        cases limit with
        | none =>
            cases hx
            exact (List.mem_filter.mp hd).1
        | some n =>
            cases hx
            exact (List.mem_filter.mp (List.mem_of_mem_take hd)).1
      exact ReleasesAdvance.owes_kept hk ⟨d, Collection.get_of_mem hmem, rfl⟩
    · cases hr

theorem minedBurn_of_getLogs {fromBlock toBlock : Int} {log : Log}
    (h : log ∈ w.base.getLogs fromBlock toBlock) (hl : log.burnLog = some l) : w.minedBurn l := by
  obtain ⟨n, _, hlog⟩ := List.mem_flatMap.mp h
  split at hlog
  · cases n with
    | zero => cases hlog
    | succ n =>
        rw [BaseChain.blockLogs, List.getD_eq_getElem?_getD] at hlog
        cases hb : w.base.blocks[n]? with
        | none =>
            rw [hb] at hlog
            cases hlog
        | some logs =>
            rw [hb] at hlog
            exact ⟨logs, List.mem_of_getElem? hb, log, hlog, hl⟩
  · cases hlog

theorem getLogs_learns {fromBlock toBlock : Int} :
    LearnsReleases cfg f i (fun logs w => ∀ log ∈ logs, ∀ l, log.burnLog = some l → w.minedBurn l)
      F (call (.getLogs fromBlock toBlock)) := by
  refine .request (apart_allowed trivial) ?_
  rintro logs w _ _ ⟨v, out, u, _, _, _, hans, _, hk⟩ log hlog l hl
  obtain ⟨_, _, he, _⟩ | ⟨x, hx, hout⟩ := answer_cases hans
  · cases he
  · cases hx
    obtain ⟨_, hr⟩ | ⟨_, _, hr⟩ := hout
    · obtain rfl := Except.ok.inj hr
      exact ReleasesAdvance.minedBurn_kept hk (minedBurn_of_getLogs hlog hl)
    · cases hr

end Requests

section Programs
variable {ι : Type} {cfg : Config} {f : Faults ι} {i : ι} {F : World → Prop} {job : ReleaseJob}
  {l : BurnLog} {d : WithdrawalDoc}

theorem apart_after {α β : Type} {M : α → World → Prop} {p : Promise β} {k : β → Promise α}
    (hp : p.Only (Op.beside releaseAreas)) (hk : ∀ b, LearnsReleases cfg f i M F (k b)) :
    LearnsReleases cfg f i M F (p.bind k) :=
  .after hp (fun _ => apart_allowed) hk

theorem apart_learns {α : Type} {p : Promise α} (hp : p.Only (Op.beside releaseAreas)) :
    LearnsReleases cfg f i (fun _ _ => True) F p :=
  (Progress.Learns.only hp fun _ => apart_allowed).post fun _ _ _ _ => trivial

theorem alert_aside (message : String) : (alert cfg message).Only (Op.beside releaseAreas) :=
  alert_only (fun _ => trivial) message

theorem confirmBurn_learns (hmined : ∀ w, F w → w.minedBurn l) :
    LearnsReleases cfg f i (fun _ _ => True) F (confirmBurn cfg l) := by
  refine .bind (.ofExcept _) fun amount => ?_
  refine .fact (A := applyFee l.amountSats cfg.bridgeFeeBps = .ok amount) (fun _ _ hF => hF.2)
    fun hfee => ?_
  refine .bind (create_learns (l := l) (fun w hF => hmined w hF.1) rfl rfl (Or.inl hfee) rfl
    (by simp [BurnLog.confirmed])) fun doc => ?_
  refine .fact (A := l.job doc.id amount = doc.job) (fun w _ hF => ?_) fun hjob => ?_
  · obtain ⟨haddress, hamount, hkey, _⟩ := hF.2
    obtain ⟨hhash, hindex⟩ := Prod.mk.inj hkey
    rw [WithdrawalDoc.job, haddress, hamount, hhash, hindex]
    rfl
  · rw [hjob]
    exact enqueue_learns fun w hF => hF.2.2.2.2

theorem refuseBurn_learns (reason : String) (hmined : ∀ w, F w → w.minedBurn l) :
    LearnsReleases cfg f i (fun _ _ => True) F (refuseBurn cfg l reason) :=
  .bind (create_learns (l := l) hmined rfl rfl (Or.inr rfl) rfl (by simp [BurnLog.refused]))
    fun _ => apart_learns (alert_aside _)

theorem recordBurn_learns (hmined : ∀ w, F w → w.minedBurn l) :
    LearnsReleases cfg f i (fun _ _ => True) F (recordBurn cfg l) := by
  refine apart_after (.request trivial) fun found => ?_
  cases found with
  | some _ => exact fun _ _ _ => trivial
  | none =>
      refine apart_after (.ofExcept _) fun capSats => ?_
      refine apart_after (.tryCatch (.request trivial) fun _ => trivial) fun valid => ?_
      split
      · refine apart_after ?_ fun dailySoFar => ?_
        · exact .bind (.request trivial) fun _ => .bind (.request trivial) fun _ => trivial
        · split
          · exact refuseBurn_learns _ hmined
          · exact confirmBurn_learns hmined
      · exact refuseBurn_learns _ hmined

theorem processLog_learns {log : Log}
    (hmined : ∀ w, F w → ∀ l, log.burnLog = some l → w.minedBurn l) :
    LearnsReleases cfg f i (fun _ _ => True) F (processLog cfg log) := by
  rw [processLog]
  split
  · rename_i l hl
    exact recordBurn_learns fun w hF => hmined w hF l hl
  · exact fun _ _ _ => trivial

theorem processLogs_learns {logs : List Log}
    (hmined : ∀ w, F w → ∀ log ∈ logs, ∀ l, log.burnLog = some l → w.minedBurn l) :
    LearnsReleases cfg f i (fun _ _ => True) F (processLogs cfg logs) := by
  induction logs generalizing F with
  | nil => exact fun _ _ _ => trivial
  | cons log logs ih =>
      rw [processLogs]
      refine apart_after (.request trivial) fun aborted => ?_
      split
      · exact fun _ _ _ => trivial
      · refine .bind (processLog_learns fun w hF => hmined w hF log List.mem_cons_self) fun _ => ?_
        exact ih fun w hF log hlog => hmined w hF.1 log (List.mem_cons_of_mem _ hlog)

theorem enqueueReleases_learns {ds : List WithdrawalDoc}
    (howes : ∀ w, F w → ∀ d ∈ ds, w.owes d.job) :
    LearnsReleases cfg f i (fun _ _ => True) F (enqueueReleases ds) := by
  induction ds generalizing F with
  | nil => exact fun _ _ _ => trivial
  | cons d ds ih =>
      refine .bind (enqueue_learns fun w hF => howes w hF d List.mem_cons_self) fun _ => ?_
      exact ih fun w hF d hd => howes w hF.1 d (List.mem_cons_of_mem _ hd)

theorem reconcile_learns :
    LearnsReleases cfg f i (fun _ _ => True) F reconcileOrphanWithdrawals := by
  refine apart_after (.request trivial) fun now => ?_
  exact .bind orphans_learns fun ds => enqueueReleases_learns fun w hF => hF.2

theorem scanWindows_learns (safeTip : Int) (n : Nat) (windowFrom : Int) :
    LearnsReleases cfg f i (fun _ _ => True) F (scanWindows cfg safeTip n windowFrom) := by
  induction n generalizing F windowFrom with
  | zero => exact fun _ _ _ => trivial
  | succ n ih =>
      rw [scanWindows]
      split
      · refine apart_after (.request trivial) fun aborted => ?_
        split
        · exact fun _ _ _ => trivial
        · refine .bind getLogs_learns fun logs => ?_
          refine .bind (processLogs_learns fun w hF => hF.2) fun _ => ?_
          exact apart_after (.request trivial) fun _ => ih _
      · exact fun _ _ _ => trivial

theorem startBaseWatcher_learns (rounds : Nat) :
    LearnsReleases cfg f i (fun _ _ => True) F (startBaseWatcher cfg rounds) := by
  induction rounds generalizing F with
  | zero => exact fun _ _ _ => trivial
  | succ rounds ih =>
      rw [startBaseWatcher]
      refine apart_after (.request trivial) fun aborted => ?_
      split
      · exact fun _ _ _ => trivial
      · refine .bind (N := fun _ _ => True) (.tryCatch ?_ fun _ _ _ _ => trivial) fun _ => ih
        refine .bind reconcile_learns fun _ => ?_
        refine apart_after (.request trivial) fun tip => ?_
        refine apart_after (.request trivial) fun last => ?_
        exact apart_after (.ofExcept _) fun confirmations => scanWindows_learns _ _ _

theorem fairTxExists_apart (t : Txid) : (fairTxExists t).Only (Op.beside releaseAreas) :=
  fairTxExists_only (fun _ => trivial) t

theorem link_apart (baseBurnTxHash : Hash) (txid : Txid) :
    (linkReleaseToBuyOrder baseBurnTxHash txid).Only (Op.beside releaseAreas) :=
  .bind (.request trivial) fun _ => trivial

/-- A run goes on only with a withdrawal that may be paid. -/
theorem rejectInvalidAddress_learns (howes : ∀ w, F w → w.owes job)
    (hseen : ∀ w, F w → SeenRow cfg job.withdrawalId d w) (hst : d.status ≠ .failed) :
    LearnsReleases cfg f i (fun _ w => w.payable job.withdrawalId) F
      (rejectInvalidAddress job d) := by
  rw [rejectInvalidAddress]
  split
  · refine .bind (validate_learns job.destinationFairAddress) fun valid => ?_
    split
    · rename_i hgood
      intro w _ hF
      refine (hseen w hF.1).payable_of_valid hst ?_
      rw [(hseen w hF.1).destination (howes w hF.1), hF.2]
      exact hgood
    · rename_i hbad
      refine .fact (A := d.id = job.withdrawalId) (fun w _ hF => (hseen w hF.1).id_eq)
        fun hid => ?_
      rw [hid]
      refine .bind (N := fun _ _ => True) (updateRow_learns (refuse_goesOn
        (fun w hF => howes w hF.1) fun w hF => ?_)) fun _ => trivial
      exact hF.2.trans (Bool.eq_false_of_not_eq_true hbad)
  · rename_i hfiled
    intro w _ hF
    exact (hseen w hF).payable_of_filed fun h => hfiled (by simp [h])

theorem claimReleaseOrReread_learns
    (hseen : ∀ w, F w → SeenRow cfg job.withdrawalId d w) :
    LearnsReleases cfg f i (fun r w => ∀ e, r = some e → SeenRow cfg job.withdrawalId e w) F
      (claimReleaseOrReread job.withdrawalId d) := by
  rw [claimReleaseOrReread]
  split
  · refine .bind claimRelease_learns fun claimed => ?_
    cases claimed with
    | some e => exact fun w _ hF => hF.2
    | none => exact findRow_learns
  · intro w _ hF e he
    cases he
    exact hseen w hF

theorem signNodeWallet_learns (hrow : f.row i = some job.withdrawalId)
    (howes : ∀ w, F w → w.owes job) (hpayable : ∀ w, F w → w.payable job.withdrawalId)
    (hseen : ∀ w, F w → SeenRow cfg job.withdrawalId d w) :
    LearnsReleases cfg f i (fun _ _ => True) F (signNodeWallet cfg job d) := by
  refine .fact (A := d.id = job.withdrawalId) (fun w _ hF => (hseen w hF).id_eq) fun hid => ?_
  rw [signNodeWallet, hid]
  split
  · rename_i t ht
    refine apart_after (fairTxExists_apart t) fun known => ?_
    split
    · have hbroadcast : ∀ sentAt : Nat, LearnsReleases cfg f i (fun _ _ => True) F
          (Withdrawal.updateById job.withdrawalId
            { status := some .broadcast, fairBroadcastAt := some sentAt }) := by
        exact fun sentAt => updateRow_learns (broadcast_goesOn hpayable fun w hF =>
          (hseen w hF).hasFiled (by simp [ht]))
      dsimp only
      split
      · exact apart_after trivial fun _ => .bind (hbroadcast _) fun _ _ _ _ => trivial
      · exact apart_after (.request trivial) fun _ => .bind (hbroadcast _) fun _ _ _ _ => trivial
    · exact apart_after (alert_aside _) fun _ => trivial
  · refine .bind (pay_learns hrow howes hpayable) fun t => ?_
    refine apart_after (.request trivial) fun sentAt => ?_
    refine .bind (file_learns (t := t) (file_goesOn (fun w hF => hpayable w hF.1)
      fun w hF => hF.2) rfl fun w hF => hpayable w hF.1) fun _ => ?_
    exact .bind (updateRow_learns (broadcast_goesOn (fun w hF => hpayable w hF.1.1)
      fun w hF => hF.2)) fun _ _ _ _ => trivial

theorem signRelease_releases (hrow : f.row i = some job.withdrawalId)
    (howes : ∀ w, F w → w.owes job) :
    LearnsReleases cfg f i (fun _ _ => True) F (signRelease cfg job) := by
  refine .bind findRow_learns fun initial => ?_
  cases initial with
  | none => exact fun _ _ _ => trivial
  | some initial =>
      simp only
      split
      · exact fun _ _ _ => trivial
      split
      · trivial
      split
      · trivial
      rename_i hst _
      refine .bind (rejectInvalidAddress_learns (fun w hF => howes w hF.1)
        (fun w hF => hF.2 initial rfl) hst) fun _ => ?_
      refine .bind (claimReleaseOrReread_learns fun w hF => hF.1.2 initial rfl) fun found => ?_
      cases found with
      | none => exact fun _ _ _ => trivial
      | some d =>
          simp only
          split
          · refine .bind (signNodeWallet_learns hrow (fun w hF => howes w hF.1.1.1)
              (fun w hF => hF.1.2) fun w hF => hF.2 d rfl) fun txid => ?_
            refine apart_after (.request trivial) fun _ => apart_learns ?_
            exact .tryCatch (link_apart _ _) fun _ => trivial
          · exact fun _ _ _ => trivial

end Programs

/-- A release is run from the queue, for its row, and only logs of the chain are processed. -/
structure Faults.Genuine {ι : Type} (f : Faults ι) : Prop where
  release : ∀ {w i job}, f.ready w i (.signRelease job) = true →
    f.row i = some job.withdrawalId ∧ ∃ j ∈ w.releaseQueue, j.data = job
  log : ∀ {w i log l}, f.ready w i (.processLog log) = true → log.burnLog = some l →
    w.minedBurn l

theorem releaseTask_knowing {ι : Type} {cfg : Config} {f : Faults ι} (hf : f.Genuine)
    {w : World} {i : ι} {t : Task} (hi : ReleaseBooks cfg w) (h : f.ready w i t = true) :
    (releaseProgress cfg).Knowing (service cfg f) i (t.program cfg) w := by
  have hbeside : (releaseAreas.all fun b => b != .nowhere && !t.areas.contains b) = true →
      (releaseProgress cfg).Knowing (service cfg f) i (t.program cfg) w := by
    exact fun hout => .of_learns w (apart_learns (within_beside hout t.program_within))
  cases t with
  | signRelease job =>
      obtain ⟨hrow, j, hj, hdata⟩ := hf.release h
      refine ⟨fun w => w.owes job, fun _ _ _ _ hk => ReleasesAdvance.owes_kept hk, ?_, ?_⟩
      · exact hdata ▸ hi.jobs j hj
      · exact signRelease_releases hrow fun _ howes => howes
  | processLog log =>
      refine ⟨fun w => ∀ l, log.burnLog = some l → w.minedBurn l, ?_, fun l => hf.log h, ?_⟩
      · exact fun _ _ _ _ hk hmined l hl => ReleasesAdvance.minedBurn_kept hk (hmined l hl)
      · exact processLog_learns fun _ hmined => hmined
  | reconcileOrphanWithdrawals => exact .of_learns w reconcile_learns
  | startBaseWatcher rounds => exact .of_learns w (startBaseWatcher_learns rounds)
  | _ => exact hbeside rfl

def releaseLearner {ι : Type} (cfg : Config) {f : Faults ι} (hf : f.Genuine) :
    Learner (service cfg f) where
  toProgress := releaseProgress cfg
  env hi he := ReleaseBooks.env hi (service_env he).2
  tasks hi h := releaseTask_knowing hf hi h

/-- No withdrawal has been recorded, enqueued or paid. -/
structure World.WithoutReleases (w : World) : Prop where
  rows : w.withdrawals.docs = []
  jobs : w.releaseQueue = []
  releases : ∀ id, w.releasesOf id = []

theorem World.WithoutReleases.books {cfg : Config} {w : World} (h : w.WithoutReleases) :
    ReleaseBooks cfg w where
  standing id d hd := by
    have hmem := Collection.get_mem hd
    rw [h.rows] at hmem
    cases hmem
  unique k d hd := by
    rw [h.rows] at hd
    cases hd
  jobs j hj := by
    rw [h.jobs] at hj
    cases hj
  paid id s hs := by
    rw [h.releases] at hs
    cases hs

/-- A withdrawal keeps its terms and its payment, and one that was broadcast stays so; one
that was refused stays as it is, and nothing is ever paid for it. -/
theorem withdrawal_goes_on {ι : Type} [DecidableEq ι] (cfg : Config) {f : Faults ι}
    (hf : f.Genuine) {w : World} (hw : ReleaseBooks cfg w)
    {es es' : List (Event JsError ι Task EnvEvent)} {p q : Pool Op JsError World ι}
    (hp : (service cfg f).exec (.init w) es = some p) {id : ObjectId} {d : WithdrawalDoc}
    (hd : p.world.withdrawals.get id = some d) (hq : (service cfg f).exec p es' = some q) :
    ∃ d', q.world.withdrawals.get id = some d' ∧ d.Advances p.world.fair.isvalid d' ∧
      (d.status = .failed → q.world.releasesOf id = []) := by
  obtain ⟨hsound, _⟩ := (Learner.Sound.init (releaseLearner cfg hf) hw).exec _ hp
  obtain ⟨hsound', hk⟩ := hsound.exec _ hq
  have hk : ReleasesAdvance p.world q.world := hk
  have hbooks : ReleaseBooks cfg q.world := hsound'.inv
  obtain ⟨d', hd', hadv⟩ := hk.rows id d hd
  refine ⟨d', hd', hadv, fun hst => ?_⟩
  obtain rfl := hadv.failed hst
  exact ((hbooks.standing id d' hd').unpaid hst).2

namespace Sample

/-- The jobs of the first withdrawal and the logs of the chain may be run, with any fault. -/
def genuineRuns : Faults Bool where
  ready w _ t := match t with
    | .signRelease job => job.withdrawalId == 0 && w.releaseQueue.any fun j => j.data == job
    | .processLog log => w.base.blocks.any fun logs => logs.contains log
    | _ => true
  may _ _ _ _ := true
  mayKill _ _ _ := true
  row _ := some 0

theorem genuineRuns_genuine : genuineRuns.Genuine where
  release h := by
    simp only [genuineRuns, Bool.and_eq_true, beq_iff_eq, List.any_eq_true] at h
    exact ⟨congrArg some h.1.symm, h.2⟩
  log h hl := by
    simp only [genuineRuns, List.any_eq_true, List.contains_iff_mem] at h
    obtain ⟨logs, hlogs, hlog⟩ := h
    exact ⟨logs, hlogs, _, hlog, hl⟩

/-- The pass over the burn dies before it enqueues the release; the reconciler does, and two
runs take it up at once. The answer of one payment is lost. -/
def twoPayments : List (Event JsError Bool Task EnvEvent) :=
  [.env (.baseBlock [log]), .start true (.processLog log)] ++
  List.replicate 5 (.step true .done) ++
  [.kill true, .env (.wait 300001), .start true .reconcileOrphanWithdrawals] ++
  List.replicate 3 (.step true .done) ++
  [.start true (.signRelease (burnLog.job 0 9970)),
    .start false (.signRelease (burnLog.job 0 9970))] ++
  List.replicate 3 (.step true .done) ++ List.replicate 3 (.step false .done) ++
  [.step true .done, .step false (.lost (.error "socket hang up"))] ++
  List.replicate 3 (.step true .done)

/-- The node cannot say whether the address is valid. -/
def refusedBurn : List (Event JsError Bool Task EnvEvent) :=
  [.env (.baseBlock [log]), .start true (.processLog log), .step true .done,
    .step true (.fail (.error "ECONNREFUSED")), .step true .done]

def refundWorld : World := { fair := { custodySats := 20000 }, base := { totalSupply := 10 ^ 14 } }

end Sample

theorem refused_burn_final : ∃ p q d,
    (service Sample.config Sample.genuineRuns).exec (.init Sample.refundWorld)
      Sample.refusedBurn = some p ∧
    p.world.withdrawals.get 0 = some d ∧ d.status = .failed ∧
    (service Sample.config Sample.genuineRuns).exec p
      [.start false (.processLog Sample.log), .step false .done] = some q ∧
    ∃ d', q.world.withdrawals.get 0 = some d' ∧ d.Advances p.world.fair.isvalid d' ∧
      (d.status = .failed → q.world.releasesOf 0 = []) := by
  have h : ((service Sample.config Sample.genuineRuns).exec (.init Sample.refundWorld)
      Sample.refusedBurn).map (fun p => ((p.world.withdrawals.get 0).map WithdrawalDoc.status,
        ((service Sample.config Sample.genuineRuns).exec p
          [.start false (.processLog Sample.log), .step false .done]).isSome)) =
      some (some .failed, true) := by
    decide +kernel
  obtain ⟨p, hp, hres⟩ := Option.map_eq_some_iff.mp h
  obtain ⟨hst, hq⟩ := Prod.mk.inj hres
  obtain ⟨d, hd, hst⟩ := Option.map_eq_some_iff.mp hst
  obtain ⟨q, hq⟩ := Option.isSome_iff_exists.mp hq
  have hbooks : ReleaseBooks Sample.config Sample.refundWorld :=
    World.WithoutReleases.books ⟨rfl, rfl, fun _ => rfl⟩
  exact ⟨p, q, d, hp, hd, hst, hq,
    withdrawal_goes_on Sample.config Sample.genuineRuns_genuine hbooks hp hd hq⟩

end FairBridge

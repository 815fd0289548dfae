import FairBridge.Async.Claim
import FairBridge.Signer.ReleaseOutline

/-!
Overlapping runs of the release signer on one row. Its claim also takes a row
that is SIGNING without a txid, so a second run can send before the first one's
txid is on the row. It cannot as long as no run claims such a row.
-/

namespace FairBridge
open Store Async Async.Rules

/-- Any number of slots that run the release signer for one row. Any request may
raise, and no run dies. -/
def releaseRuns (ι : Type) (id : ObjectId) : Faults ι where
  ready _ _ t := match t with
    | .signRelease job => job.withdrawalId == id
    | _ => false
  may _ _ _ _ := true
  mayKill _ _ _ := false
  row _ := some id

def Op.claimsRelease {β : Type} : Op β → Bool
  | .withdrawal (.findOneAndUpdate _ _ u) => u.status == some .signing
  | _ => false

/-- The row is SIGNING without a txid: a run has claimed it and nothing on the
row tells how far it got. -/
def World.claimedUnreleased (w : World) (id : ObjectId) : Bool :=
  (w.withdrawals.get id).any fun d => d.status == .signing && d.fairTxid.isNone

/-- No claim is made while the row is SIGNING without a txid. -/
def claimsFreshRelease {ι : Type} (id : ObjectId) {β : Type} (_ : ι) (op : Op β)
    (w : World) : Bool :=
  !(op.claimsRelease && w.claimedUnreleased id)

variable {ι : Type} {id : ObjectId} {n : Nat}

/-- The world, and the run that holds the claim. `n` calls were made before. A
row that was never claimed may be FAILED for its address. -/
structure ReleaseClaimed (id : ObjectId) (n : Nat) (s : World × Option ι) : Prop where
  row : ∃ d, s.1.withdrawals.get id = some d ∧
    (s.2 = none → (d.status = .confirmed ∨ d.status = .failed) ∧ d.fairTxid = none) ∧
    (s.2 ≠ none → d.status = .signing ∨ d.status = .broadcast ∨ d.status = .failed)
  calls : s.1.fair.calls.length ≤ n + 1
  unclaimed : s.2 = none → s.1.fair.calls.length = n

/-- The row cannot be claimed any more. -/
def World.releaseRefused (id : ObjectId) (w : World) : Prop :=
  ∃ d, w.withdrawals.get id = some d ∧ releasable d = false

theorem ReleaseClaimed.env {e : EnvEvent} {s : World × Option ι} {w : World}
    (hi : ReleaseClaimed id n s) (he : e.occur s.1 = some w) :
    ReleaseClaimed id n (w, s.2) ∧ w.fair.calls.length = s.1.fair.calls.length ∧
      (s.1.releaseRefused id → w.releaseRefused id) := by
  have hsur := EnvEvent.occur_surroundings he
  have hcalls : w.fair.calls = s.1.fair.calls := hsur.sendCalls
  refine ⟨⟨?_, hcalls ▸ hi.calls, fun hn => hcalls ▸ hi.unclaimed hn⟩, by rw [hcalls], ?_⟩
  · simpa only [hsur.withdrawals] using hi.row
  · simp only [World.releaseRefused, hsur.withdrawals]
    exact fun h => h

def releaseClaimRules (cfg : Config) (ι : Type) (id : ObjectId) (n : Nat) :
    Rules (service cfg ((releaseRuns ι id).guarded (claimsFreshRelease id)))
      (World × Option ι) :=
  .claim _ (World.releaseRefused id) (fun w => w.fair.calls.length) (ReleaseClaimed id n)
    ReleaseClaimed.env

section Outline
variable {cfg : Config} {job : ReleaseJob} {i : ι}

/-- A row with a txid was claimed. -/
theorem ReleaseClaimed.claimed {s : World × Option ι} (hi : ReleaseClaimed id n s)
    {d : WithdrawalDoc} (hd : s.1.withdrawals.get id = some d) (h : d.fairTxid ≠ none) :
    s.2 ≠ none := by
  intro hn
  obtain ⟨e, he, hun, _⟩ := hi.row
  cases he.symm.trans hd
  exact h (hun hn).2

/-- The row as a run first reads it. -/
structure ReleaseSeen (job : ReleaseJob) (d : WithdrawalDoc) (s : World × Option ι) :
    Prop where
  id : d.id = job.withdrawalId
  claimed : d.fairTxid ≠ none → s.2 ≠ none

/-- The row a run goes on with: only the claim's holder goes on to send. -/
structure ReleaseHeld (job : ReleaseJob) (n : Nat) (i : ι) (d : WithdrawalDoc)
    (s : World × Option ι) : Prop where
  id : d.id = job.withdrawalId
  claimed : d.fairTxid ≠ none → s.2 ≠ none
  holder : d.status = .signing → d.fairTxid = none →
    s.2 = some i ∧ s.1.fair.calls.length = n

theorem claimsFreshRelease_claim {β : Type} {op : Op β} {w : World}
    (h : claimsFreshRelease id i op w = true) (hop : op.claimsRelease = true) :
    w.claimedUnreleased id = false := by
  simpa [claimsFreshRelease, hop] using h

/-- A row that may be claimed and is not claimed already is CONFIRMED. -/
theorem confirmed_of_unreleased {w : World} {d : WithdrawalDoc}
    (hd : w.withdrawals.get id = some d) (hc : releasable d = true)
    (hfresh : w.claimedUnreleased id = false) : d.status = .confirmed := by
  simp only [releasable, Bool.and_eq_true, Bool.or_eq_true, beq_iff_eq] at hc
  refine hc.1.resolve_right ?_
  intro hm
  simp [World.claimedUnreleased, hd, hm, hc.2] at hfresh

theorem releaseClaim_claim (d : WithdrawalDoc) :
    (releaseClaimRules cfg ι job.withdrawalId n).Performs i (ReleaseSeen job d)
      (.withdrawal (.findOneAndUpdate (fun d => d.id == job.withdrawalId && releasable d) none
        { status := some .signing }))
      (Answered (Found (ReleaseHeld job n i) (World.releaseRefused job.withdrawalId ·.1))
        fun _ => True) := by
  refine Withdrawal.performs_claimRelease ?_ ?_ fun _ _ _ => trivial
  · intro s e out hi _ he hc hmay
    have hst := confirmed_of_unreleased he hc
      (claimsFreshRelease_claim (Faults.guarded_may hmay) rfl)
    obtain ⟨f, hf, _, hcl⟩ := hi.row
    cases hf.symm.trans he
    have hunclaimed : s.2 = none := by
      by_contra hne
      have := hcl hne
      simp [hst] at this
    have hcalls := hi.unclaimed hunclaimed
    have hrow := World.get_setWithdrawal he { status := some .signing }
    refine ⟨(s.1.setWithdrawal job.withdrawalId { status := some .signing }, some i), rfl,
      ⟨⟨_, hrow, (by intro h; cases h), fun _ => Or.inl rfl⟩, ?_, (by intro h; cases h)⟩,
      ?_, ⟨Collection.get_id he, (by intro _ h; cases h), fun _ _ => ⟨rfl, hcalls⟩⟩, trivial⟩
    · exact Nat.le_succ_of_le (Nat.le_of_eq hcalls)
    · refine fun j _ => .taken hunclaimed ?_
      intro h
      obtain ⟨g, hg, hg'⟩ := h
      cases hg.symm.trans he
      rw [hc] at hg'
      cases hg'
  · intro s hi _ hnone
    obtain ⟨d, hd, _⟩ := hi.row
    refine ⟨d, hd, ?_⟩
    change (s.1.withdrawals.get job.withdrawalId).filter releasable = none at hnone
    simpa [Option.filter, hd] using hnone

/-- The row and the holder stay, and the holder may call. -/
theorem ReleaseClaimed.keep {s : World × Option ι} {w : World}
    (hi : ReleaseClaimed id n s) (hd : w.withdrawals = s.1.withdrawals)
    (hc : w.fair.calls.length ≤ n + 1) (hn : s.2 = none → w.fair.calls.length = n) :
    ReleaseClaimed id n (w, s.2) :=
  ⟨by simpa only [hd] using hi.row, hc, hn⟩

theorem releaseRefused_of_same {w w' : World} (hd : w'.withdrawals = w.withdrawals)
    (h : w.releaseRefused id) : w'.releaseRefused id := by
  simpa only [World.releaseRefused, hd] using h

/-- The holder of the claim calls. -/
theorem releaseClaim_called (cfg : Config) {s : World × Option ι} {w : World} {c : String × ℚ}
    (hi : ReleaseClaimed id n s) (hown : s.2 = some i) (hn : s.1.fair.calls.length = n)
    (hd : w.withdrawals = s.1.withdrawals) (hc : w.fair.calls = s.1.fair.calls ++ [c]) :
    ReleaseClaimed id n (w, s.2) ∧ (releaseClaimRules cfg ι id n).guar i s (w, s.2) := by
  refine ⟨hi.keep hd ?_ ?_, ?_⟩
  · simp [hc, hn]
  · intro h
    rw [show s.2 = some i from hown] at h
    cases h
  · exact fun j hij => .called hown hij (releaseRefused_of_same hd)

theorem releaseClaim_broadcast {d : WithdrawalDoc} {address : String} {amountFair : ℚ}
    (hst : d.status = .signing) (hnone : d.fairTxid = none) :
    (releaseClaimRules cfg ι job.withdrawalId n).Performs i (ReleaseHeld job n i d)
      (.sendToAddress address amountFair none)
      (Answered (fun _ s => s.2 ≠ none) fun _ => True) := by
  have hclaimed : ∀ s : World × Option ι, s.2 = some i → s.2 ≠ none := by
    intro s h
    rw [h]
    intro h
    cases h
  refine performs ?_ ?_
  · intro s e hi hs _ _
    obtain ⟨hown, hn⟩ := hs.holder hst hnone
    obtain ⟨hi', hg⟩ := releaseClaim_called cfg
      (w := recordCall (.sendToAddress address amountFair none) s.1) hi hown hn rfl rfl
    exact ⟨_, rfl, hi', hg, trivial⟩
  · intro s x w out hi hs _ hx
    obtain ⟨hown, hn⟩ := hs.holder hst hnone
    have hw : w.withdrawals = s.1.withdrawals ∧
        w.fair.calls = s.1.fair.calls ++ [(address, amountFair)] := by
      rcases effect_sendToAddress hx with ⟨_, _, rfl⟩ | ⟨_, rfl, _⟩ <;> exact ⟨rfl, rfl⟩
    obtain ⟨hi', hg⟩ := releaseClaim_called cfg hi hown hn hw.1 hw.2
    refine ⟨(w, s.2), rfl, hi', hg, fun _ => ?_, fun _ _ _ => trivial⟩
    cases x with
    | ok _ => exact hclaimed s hown
    | error _ => trivial

/-- An update that does not make the row claimable again: to FAILED, or of a row
that was claimed. -/
theorem releaseClaim_update {P Q : World × Option ι → Prop} {v : WithdrawalSet}
    (hv : v.status = some .failed ∧ v.fairTxid = none ∨
      (v.status = some .broadcast ∨ v.status = none ∧ v.fairTxid ≠ none) ∧
        ∀ s, P s → s.2 ≠ none)
    (hQ : ∀ s w, P s → Q (w, s.2)) :
    (releaseClaimRules cfg ι job.withdrawalId n).Performs i P
      (.withdrawal (.updateOne (fun d => d.id == job.withdrawalId && true) v))
      (Answered (fun _ => Q) fun _ => True) := by
  refine Withdrawal.performs_updateById ?_ fun _ _ _ _ _ => trivial
  intro s hi hs
  obtain ⟨d, hd, hun, hcl⟩ := hi.row
  have hrow := World.get_setWithdrawal hd v
  have hrefused : releasable (v.apply d) = false := by
    rcases hv with ⟨h, _⟩ | ⟨h | ⟨_, h⟩, _⟩
    · simp [releasable, WithdrawalSet.apply, h]
    · simp [releasable, WithdrawalSet.apply, h]
    · cases ht : v.fairTxid with
      | none => exact absurd ht h
      | some t => simp [releasable, WithdrawalSet.apply, ht]
  refine ⟨(s.1.setWithdrawal job.withdrawalId v, s.2), rfl,
    ⟨⟨_, hrow, ?_, ?_⟩, hi.calls, hi.unclaimed⟩, fun j _ => .same rfl fun _ => ⟨_, hrow, hrefused⟩,
    hQ s _ hs, trivial⟩
  · intro h
    rcases hv with ⟨hf, ht⟩ | ⟨_, hne⟩
    · exact ⟨Or.inr (by simp [WithdrawalSet.apply, hf]),
        by simpa [WithdrawalSet.apply, ht] using (hun h).2⟩
    · exact absurd h (hne s hs)
  · intro h
    rcases hv with ⟨hf, _⟩ | ⟨hb | ⟨hn, _⟩, _⟩
    · simp [WithdrawalSet.apply, hf]
    · simp [WithdrawalSet.apply, hb]
    · simpa [WithdrawalSet.apply, hn] using hcl h

theorem releaseClaim_aside {s : World × Option ι} {w : World}
    (hi : (releaseClaimRules cfg ι job.withdrawalId n).inv s) (hw : SameBooks s.1 w) :
    ∃ t, (releaseClaimRules cfg ι job.withdrawalId n).world t = w ∧
      (releaseClaimRules cfg ι job.withdrawalId n).inv t ∧
      (releaseClaimRules cfg ι job.withdrawalId n).guar i s t ∧ True := by
  have hc : w.fair.calls = s.1.fair.calls := by rw [hw.fair]
  exact ⟨(w, s.2), rfl, hi.keep hw.withdrawals (hc ▸ hi.calls) fun h => hc ▸ hi.unclaimed h,
    fun j _ => .same (by rw [hc]) (releaseRefused_of_same hw.withdrawals), trivial⟩

def releaseClaimOutline (cfg : Config) (n : Nat) (job : ReleaseJob) (i : ι) :
    ReleaseOutline (releaseClaimRules cfg ι job.withdrawalId n) i job where
  start _ := True
  seen := ReleaseSeen job
  refused s := s.1.releaseRefused job.withdrawalId
  held := ReleaseHeld job n i
  sent _ s := s.2 ≠ none
  filed _ s := s.2 ≠ none
  start_stable _ _ _ _ _ _ := trivial
  seen_stable _ _ _ _ _ hst h := ⟨h.id, fun hh => hst.claimed (h.claimed hh)⟩
  refused_stable _ _ _ _ hst h := hst.refused h
  held_stable _ _ _ _ _ hst h := by
    refine ⟨h.id, fun hh => hst.claimed (h.claimed hh), ?_⟩
    intro hm hn
    obtain ⟨hown, hcalls⟩ := h.holder hm hn
    obtain ⟨hown', hcalls'⟩ := hst.mine hown
    exact ⟨hown', hcalls'.trans hcalls⟩
  sent_stable _ _ _ _ _ hst h := hst.claimed h
  filed_stable _ _ _ _ _ hst h := hst.claimed h
  start_rest _ _ _ := trivial
  seen_rest _ _ _ _ := trivial
  refused_rest _ _ _ := trivial
  held_rest _ _ _ _ := trivial
  filed_rest _ _ _ _ := trivial
  seen_id _ _ _ h := h.id
  held_id _ _ _ h := h.id
  resume _ _ _ h hh := ⟨h.id, h.claimed, fun _ hn => absurd hn hh⟩
  reconcile _ _ _ _ h _ ht := h.claimed (by rw [ht]; intro h; cases h)
  read := by
    refine Withdrawal.performs_findById ?_ fun _ _ _ => trivial
    intro s hi _
    obtain ⟨d, hd, _⟩ := hi.row
    change Found _ _ (s.1.withdrawals.get job.withdrawalId) s
    rw [hd]
    exact ⟨Collection.get_id hd, fun hh => hi.claimed hd hh⟩
  validate _ _ := performs_validateAddress fun _ _ _ => trivial
  reject _ _ := (releaseClaim_update (Q := fun _ => True) (Or.inl ⟨rfl, rfl⟩)
    fun _ _ _ => trivial).post fun a _ _ _ => by cases a <;> trivial
  claim d _ := releaseClaim_claim d
  reread := by
    refine Withdrawal.performs_findById ?_ fun _ _ _ => trivial
    intro s hi hs
    obtain ⟨d, hd, hc⟩ := hs
    change Found _ _ (s.1.withdrawals.get job.withdrawalId) s
    rw [hd]
    refine ⟨Collection.get_id hd, fun hh => hi.claimed hd hh, ?_⟩
    intro hm hn
    simp [releasable, hm, hn] at hc
  lookup _ := performs_getRawTransaction fun _ _ h => h
  clock _ := performs_dateNow
  broadcast _ hst hnone := releaseClaim_broadcast hst hnone
  clock_sent _ := performs_dateNow
  clock_settled _ := .of_rest fun _ _ _ => trivial
  sent_settled _ _ := .of_rest fun _ _ _ => trivial
  persist _ _ := releaseClaim_update
    (Or.inr ⟨Or.inr ⟨rfl, by intro h; cases h⟩, fun _ h => h⟩) fun _ _ h => h
  finish _ _ := (releaseClaim_update (Q := fun _ => True)
    (Or.inr ⟨Or.inl rfl, fun _ h => h⟩) fun _ _ _ => trivial).post
    fun a _ _ _ => by cases a <;> trivial
  notify _ := performs_webhook fun _ _ h => h
  record _ := performs_auditLog fun _ _ hi _ hw => releaseClaim_aside hi hw
  deliver _ _ := by
    refine (performs_buyOrder (M := fun _ => True) fun _ _ hi _ hw =>
      releaseClaim_aside hi hw).post fun a _ _ _ => by cases a <;> trivial

theorem releaseClaim_starts (cfg : Config) (ι : Type) (id : ObjectId) (n : Nat) :
    (releaseClaimRules cfg ι id n).Starts := by
  intro i t s hi _ hready
  cases t with
  | signRelease job =>
      have hid : job.withdrawalId = id := by
        simpa [service, Faults.guarded, releaseRuns] using hready
      subst hid
      exact (releaseClaimOutline cfg n job i).signRelease s hi trivial
  | _ => cases hready

end Outline

/-- Two runs that both read the row before either claims it both send. -/
def overlappingReleases : List (Event JsError Bool Task EnvEvent) :=
  [.start true (.signRelease Sample.releaseJob), .start false (.signRelease Sample.releaseJob),
    .step true .done, .step false .done, .step true .done, .step false .done,
    .step true .done, .step false .done, .step true .done, .step false .done]

theorem overlapping_releases_call_twice : ∃ q,
    (service Sample.config (releaseRuns Bool 0)).exec (.init Sample.releaseWorld)
      overlappingReleases = some q ∧
    q.world.fair.calls.length = Sample.releaseWorld.fair.calls.length + 2 ∧
    q.world.fair.sends.length = Sample.releaseWorld.fair.sends.length + 2 := by
  have h : ((service Sample.config (releaseRuns Bool 0)).exec (.init Sample.releaseWorld)
      overlappingReleases).map (fun q => (q.world.fair.calls.length,
        q.world.fair.sends.length)) = some (2, 2) := by decide +kernel
  obtain ⟨q, hq, hl⟩ := Option.map_eq_some_iff.mp h
  exact ⟨q, hq, congrArg Prod.fst hl, congrArg Prod.snd hl⟩

/-- As long as no run claims the row while it is SIGNING without a txid, all runs
together call `sendtoaddress` at most once. -/
theorem release_called_once (cfg : Config) {ι : Type} [DecidableEq ι] (id : ObjectId)
    {w : World} {d : WithdrawalDoc} (hd : w.withdrawals.get id = some d)
    (hst : d.status = .confirmed) (htxid : d.fairTxid = none)
    {q : Pool Op JsError World ι} {es : List (Event JsError ι Task EnvEvent)}
    (hq : (service cfg (releaseRuns ι id)).exec (.init w) es = some q)
    (hc : (service cfg (releaseRuns ι id)).meets (claimsFreshRelease id) (.init w) es = true) :
    q.world.fair.calls.length ≤ w.fair.calls.length + 1 := by
  have hinv : ReleaseClaimed id w.fair.calls.length (w, (none : Option ι)) :=
    ⟨⟨d, hd, fun _ => ⟨Or.inl hst, htxid⟩, fun h => absurd rfl h⟩, Nat.le_succ _,
      fun _ => rfl⟩
  have hinit : (releaseClaimRules cfg ι id w.fair.calls.length).Good (.init w) (w, none) :=
    .init rfl hinv fun _ => trivial
  have hexec := System.exec_guarded _ hq hc
  rw [service_guarded] at hexec
  obtain ⟨t, ht, _⟩ := hinit.exec (fun _ _ _ => trivial) (releaseClaim_starts cfg ι id _) hexec
  rw [← ht.world]
  exact ht.inv.calls

/-- One run after the other meets the condition. -/
def successiveReleases : List (Event JsError Bool Task EnvEvent) :=
  [.start true (.signRelease Sample.releaseJob), .step true .done, .step true .done,
    .step true .done, .step true .done, .step true .done, .step true .done,
    .start false (.signRelease Sample.releaseJob), .step false .done]

theorem successive_releases_call_once : ∃ q,
    (service Sample.config (releaseRuns Bool 0)).exec (.init Sample.releaseWorld)
      successiveReleases = some q ∧
    q.world.fair.calls.length ≤ Sample.releaseWorld.fair.calls.length + 1 := by
  have h : ((service Sample.config (releaseRuns Bool 0)).exec (.init Sample.releaseWorld)
      successiveReleases).isSome = true := by decide +kernel
  obtain ⟨q, hq⟩ := Option.isSome_iff_exists.mp h
  exact ⟨q, hq, release_called_once Sample.config 0 rfl rfl rfl hq (by decide +kernel)⟩

end FairBridge

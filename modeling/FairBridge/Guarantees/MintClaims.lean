import FairBridge.Async.Claim
import FairBridge.Signer.MintOutline

/-!
Overlapping runs of the mint signer on one row in direct_eoa mode. The claim
also takes a row that is MINTING with both identifiers null, so it does not
keep a second run out until the winner's hash is on the row. It does as long as
no run claims such a row.
-/

namespace FairBridge
open Store Async Async.Rules

/-- Any number of slots that run the mint signer for one row. Any request may
raise, and no run dies. -/
def mintRuns (ι : Type) (id : ObjectId) : Faults ι where
  ready _ _ t := match t with
    | .signMint .directEoa job => job.depositId == id
    | _ => false
  may _ _ _ _ := true
  mayKill _ _ _ := false
  row _ := some id

def Op.claimsMint {β : Type} : Op β → Bool
  | .deposit (.findOneAndUpdate _ _ u) => u.status == some .minting
  | _ => false

/-- The row is MINTING with neither identifier on file: a run has claimed it and
nothing on the row tells how far it got. -/
def World.claimedUnsent (w : World) (id : ObjectId) : Bool :=
  (w.deposits.get id).any fun d => d.status == .minting && d.unsent

/-- No claim is made while the row is MINTING with neither identifier on file. -/
def claimsFreshRow {ι : Type} (id : ObjectId) {β : Type} (_ : ι) (op : Op β)
    (w : World) : Bool :=
  !(op.claimsMint && w.claimedUnsent id)

variable {ι : Type} {id : ObjectId} {n : Nat}

/-- The world, and the run that holds the claim. `n` calls were made before. -/
structure MintClaimed (id : ObjectId) (n : Nat) (s : World × Option ι) : Prop where
  row : ∃ d, s.1.deposits.get id = some d ∧ d.safeTxHash = none ∧
    (s.2 = none → d.status = .confirmed ∧ d.baseMintTxHash = none) ∧
    (s.2 ≠ none → d.status = .minting ∨ d.status = .minted ∨ d.status = .failed)
  calls : s.1.base.calls.length ≤ n + 1
  unclaimed : s.2 = none → s.1.base.calls.length = n

/-- The row cannot be claimed any more. -/
def World.mintRefused (id : ObjectId) (w : World) : Prop :=
  ∃ d, w.deposits.get id = some d ∧ claimable d = false

theorem MintClaimed.env {e : EnvEvent} {s : World × Option ι} {w : World}
    (hi : MintClaimed id n s) (he : e.occur s.1 = some w) :
    MintClaimed id n (w, s.2) ∧ w.base.calls.length = s.1.base.calls.length ∧
      (s.1.mintRefused id → w.mintRefused id) := by
  have hsur := EnvEvent.occur_surroundings he
  have hcalls : w.base.calls = s.1.base.calls := hsur.calls
  obtain ⟨d, hd, hrow⟩ := hi.row
  refine ⟨⟨⟨d, hsur.deposits id d hd, hrow⟩, hcalls ▸ hi.calls, ?_⟩, by rw [hcalls], ?_⟩
  · intro hn
    rw [hcalls]
    exact hi.unclaimed hn
  · intro h
    obtain ⟨d, hd, hc⟩ := h
    exact ⟨d, hsur.deposits id d hd, hc⟩

def mintClaimRules (cfg : Config) (ι : Type) (id : ObjectId) (n : Nat) :
    Rules (service cfg ((mintRuns ι id).guarded (claimsFreshRow id))) (World × Option ι) :=
  .claim _ (World.mintRefused id) (fun w => w.base.calls.length) (MintClaimed id n)
    MintClaimed.env

section Outline
variable {cfg : Config} {job : MintJob} {i : ι}

/-- A row that can no longer be claimed was claimed. -/
theorem MintClaimed.claimed {s : World × Option ι} (hi : MintClaimed id n s) {d : DepositDoc}
    (hd : s.1.deposits.get id = some d)
    (h : claimable d = false ∨ d.baseMintTxHash ≠ none) : s.2 ≠ none := by
  intro hn
  obtain ⟨e, he, hsafe, hun, _⟩ := hi.row
  cases he.symm.trans hd
  obtain ⟨hst, hhash⟩ := hun hn
  cases h with
  | inl hc => simp [claimable, hst, hhash, hsafe] at hc
  | inr hh => exact hh hhash

/-- The row as a run first reads it. -/
structure ClaimSeen (job : MintJob) (d : DepositDoc) (s : World × Option ι) : Prop where
  id : d.id = job.depositId
  safe : d.safeTxHash = none
  claimed : d.baseMintTxHash ≠ none → s.2 ≠ none

/-- The row a run goes on with: only the claim's holder goes on to broadcast. -/
structure ClaimHeld (job : MintJob) (n : Nat) (i : ι) (d : DepositDoc)
    (s : World × Option ι) : Prop where
  id : d.id = job.depositId
  claimed : s.2 ≠ none
  holder : d.status = .minting → d.baseMintTxHash = none →
    s.2 = some i ∧ s.1.base.calls.length = n

theorem claimsFreshRow_claim {β : Type} {op : Op β} {w : World}
    (h : claimsFreshRow id i op w = true) (hop : op.claimsMint = true) :
    w.claimedUnsent id = false := by
  simpa [claimsFreshRow, hop] using h

/-- A row that may be claimed and is not claimed already is CONFIRMED. -/
theorem confirmed_of_fresh {w : World} {d : DepositDoc} (hd : w.deposits.get id = some d)
    (hc : claimable d = true) (hfresh : w.claimedUnsent id = false) :
    d.status = .confirmed := by
  simp only [claimable, Bool.and_eq_true, Bool.or_eq_true, beq_iff_eq] at hc
  obtain ⟨⟨hst, hhash⟩, hsafe⟩ := hc
  refine hst.resolve_right ?_
  intro hm
  simp [World.claimedUnsent, hd, hm, DepositDoc.unsent, hhash, hsafe] at hfresh

theorem mintClaim_claim (d : DepositDoc) :
    (mintClaimRules cfg ι job.depositId n).Performs i (ClaimSeen job d)
      (.deposit (.findOneAndUpdate (fun d => d.id == job.depositId && claimable d) none
        { status := some .minting }))
      (Answered (Found (ClaimHeld job n i) (World.mintRefused job.depositId ·.1)) fun _ => True) := by
  refine Deposit.performs_claimMint ?_ ?_ fun _ _ _ => trivial
  · intro s e out hi _ he hc hmay
    have hst := confirmed_of_fresh he hc
      (claimsFreshRow_claim (Faults.guarded_may hmay) rfl)
    have hunclaimed : s.2 = none := by
      obtain ⟨f, hf, _, _, hcl⟩ := hi.row
      cases hf.symm.trans he
      by_contra hne
      have := hcl hne
      simp [hst] at this
    obtain ⟨f, hf, hsafe, _⟩ := hi.row
    cases hf.symm.trans he
    have hcalls := hi.unclaimed hunclaimed
    have hrow := World.get_setDeposit he { status := some .minting }
    refine ⟨(s.1.setDeposit job.depositId { status := some .minting }, some i), rfl,
      ⟨⟨_, hrow, hsafe, (by intro h; cases h), fun _ => Or.inl rfl⟩, ?_, (by intro h; cases h)⟩,
      ?_, ⟨Collection.get_id he, (by intro h; cases h), fun _ _ => ⟨rfl, hcalls⟩⟩, trivial⟩
    · exact Nat.le_succ_of_le (Nat.le_of_eq hcalls)
    · refine fun j _ => .taken hunclaimed ?_
      intro h
      obtain ⟨g, hg, hg'⟩ := h
      cases hg.symm.trans he
      rw [hc] at hg'
      cases hg'
  · intro s hi _ hnone
    obtain ⟨d, hd, _⟩ := hi.row
    refine ⟨d, hd, ?_⟩
    change (s.1.deposits.get job.depositId).filter claimable = none at hnone
    simpa [Option.filter, hd] using hnone

/-- The row and the holder stay, and the holder may call. -/
theorem MintClaimed.keep {s : World × Option ι} {w : World} (hi : MintClaimed id n s)
    (hd : w.deposits = s.1.deposits) (hc : w.base.calls.length ≤ n + 1)
    (hn : s.2 = none → w.base.calls.length = n) : MintClaimed id n (w, s.2) :=
  ⟨by simpa only [hd] using hi.row, hc, hn⟩

theorem mintRefused_of_same {w w' : World} (hd : w'.deposits = w.deposits)
    (h : w.mintRefused id) : w'.mintRefused id := by
  simpa only [World.mintRefused, hd] using h

/-- The holder of the claim calls. -/
theorem mintClaim_called (cfg : Config) {s : World × Option ι} {w : World} {c : MintCall}
    (hi : MintClaimed id n s) (hown : s.2 = some i) (hn : s.1.base.calls.length = n)
    (hd : w.deposits = s.1.deposits) (hc : w.base.calls = s.1.base.calls ++ [c]) :
    MintClaimed id n (w, s.2) ∧ (mintClaimRules cfg ι id n).guar i s (w, s.2) := by
  refine ⟨hi.keep hd ?_ ?_, ?_⟩
  · simp [hc, hn]
  · intro h
    rw [show s.2 = some i from hown] at h
    cases h
  · exact fun j hij => .called hown hij (mintRefused_of_same hd)

theorem mintClaim_broadcast {d : DepositDoc} {args : MintCall} (hst : d.status = .minting)
    (hnone : d.baseMintTxHash = none) :
    (mintClaimRules cfg ι job.depositId n).Performs i (ClaimHeld job n i d)
      (.writeContract args) (Answered (fun _ s => s.2 ≠ none) fun _ => True) := by
  refine performs ?_ ?_
  · intro s e hi hs _ _
    obtain ⟨hown, hn⟩ := hs.holder hst hnone
    obtain ⟨hi', hg⟩ := mintClaim_called cfg (w := recordCall (.writeContract args) s.1)
      hi hown hn rfl rfl
    exact ⟨_, rfl, hi', hg, trivial⟩
  · intro s x w out hi hs _ hx
    obtain ⟨hown, hn⟩ := hs.holder hst hnone
    have hw : w.deposits = s.1.deposits ∧ w.base.calls = s.1.base.calls ++ [args] := by
      rcases effect_writeContract hx with ⟨_, _, rfl⟩ | ⟨_, rfl, _⟩ <;> exact ⟨rfl, rfl⟩
    obtain ⟨hi', hg⟩ := mintClaim_called cfg hi hown hn hw.1 hw.2
    refine ⟨(w, s.2), rfl, hi', hg, fun _ => ?_, fun _ _ _ => trivial⟩
    cases x with
    | ok _ => exact hs.claimed
    | error _ => trivial

/-- An update of a claimed row that does not make it claimable again. -/
theorem mintClaim_update (v : DepositSet) (hv : v.fairTxid = none) (hv' : v.fairVout = none)
    (hsafe : v.safeTxHash = none)
    (hst : v.status = none ∧ v.baseMintTxHash ≠ none ∨
      v.status = some .minted ∨ v.status = some .failed) :
    (mintClaimRules cfg ι job.depositId n).Performs i (fun s => s.2 ≠ none)
      (.deposit (.updateOne (fun d => d.id == job.depositId && true) v))
      (Answered (fun _ s => s.2 ≠ none) fun _ => True) := by
  refine Deposit.performs_updateById hv hv' ?_ fun _ _ _ _ _ => trivial
  intro s hi hs
  obtain ⟨d, hd, hdsafe, _, hcl⟩ := hi.row
  have hrow := World.get_setDeposit hd v
  have hrefused : claimable (v.apply d) = false := by
    rcases hst with ⟨_, hh⟩ | hh | hh
    · cases hb : v.baseMintTxHash with
      | none => exact absurd hb hh
      | some h => simp [claimable, DepositSet.apply, hb]
    · simp [claimable, DepositSet.apply, hh]
    · simp [claimable, DepositSet.apply, hh]
  refine ⟨(s.1.setDeposit job.depositId v, s.2), rfl,
    ⟨⟨_, hrow, ?_, fun h => absurd h hs, fun _ => ?_⟩, hi.calls, fun h => absurd h hs⟩, ?_,
    hs, trivial⟩
  · simp [DepositSet.apply, hsafe, hdsafe]
  · rcases hst with ⟨hh, _⟩ | hh | hh
    · simpa [DepositSet.apply, hh] using hcl hs
    · simp [DepositSet.apply, hh]
    · simp [DepositSet.apply, hh]
  · exact fun j _ => .same rfl fun _ => ⟨_, hrow, hrefused⟩

def mintClaimOutline (cfg : Config) (n : Nat) (job : MintJob) (i : ι) :
    MintOutline (mintClaimRules cfg ι job.depositId n) i job where
  start _ := True
  seen := ClaimSeen job
  refused s := s.1.mintRefused job.depositId
  held := ClaimHeld job n i
  sent _ s := s.2 ≠ none
  filed _ s := s.2 ≠ none
  mined _ _ s := s.2 ≠ none
  start_stable _ _ _ _ _ _ := trivial
  seen_stable _ _ _ _ _ hst h := ⟨h.id, h.safe, fun hh => hst.claimed (h.claimed hh)⟩
  refused_stable _ _ _ _ hst h := hst.refused h
  held_stable _ _ _ _ _ hst h := by
    refine ⟨h.id, hst.claimed h.claimed, ?_⟩
    intro hm hn
    obtain ⟨hown, hcalls⟩ := h.holder hm hn
    obtain ⟨hown', hcalls'⟩ := hst.mine hown
    exact ⟨hown', hcalls'.trans hcalls⟩
  sent_stable _ _ _ _ _ hst h := hst.claimed h
  filed_stable _ _ _ _ _ hst h := hst.claimed h
  mined_stable _ _ _ _ _ _ hst h := hst.claimed h
  start_rest _ _ _ := trivial
  seen_rest _ _ _ _ := trivial
  refused_rest _ _ _ := trivial
  held_rest _ _ _ _ := trivial
  filed_rest _ _ _ _ := trivial
  mined_rest _ _ _ _ _ := trivial
  held_id _ _ _ h := h.id
  resume d s _ h hun := by
    have hhash : d.baseMintTxHash ≠ none := by
      intro hn
      simp [DepositDoc.unsent, hn, h.safe] at hun
    exact ⟨h.id, h.claimed hhash, fun _ hn => absurd hn hhash⟩
  reconcile _ _ _ _ h _ _ := h.claimed
  read := by
    refine Deposit.performs_findById ?_ fun _ _ _ => trivial
    intro s hi _
    obtain ⟨d, hd, hsafe, _⟩ := hi.row
    change Found _ _ (s.1.deposits.get job.depositId) s
    rw [hd]
    exact ⟨Collection.get_id hd, hsafe, fun hh => hi.claimed hd (Or.inr hh)⟩
  claim d _ := mintClaim_claim d
  reread := by
    refine Deposit.performs_findById ?_ fun _ _ _ => trivial
    intro s hi hs
    obtain ⟨d, hd, hc⟩ := hs
    obtain ⟨e, he, hsafe, _⟩ := hi.row
    cases he.symm.trans hd
    change Found _ _ (s.1.deposits.get job.depositId) s
    rw [hd]
    refine ⟨Collection.get_id hd, hi.claimed hd (Or.inl hc), ?_⟩
    intro hm hn
    simp [claimable, hm, hn, hsafe] at hc
  broadcast _ _ hst hnone _ := mintClaim_broadcast hst hnone
  sent_settled _ := .of_rest fun _ _ _ => trivial
  persist h := mintClaim_update _ rfl rfl rfl (Or.inl ⟨rfl, by intro hn; cases hn⟩)
  receipt h := performs_waitForTransactionReceipt (fun _ _ _ h _ => h) fun _ _ _ => trivial
  settle h r _ := (mintClaim_update _ rfl rfl rfl (Or.inr (Or.inl rfl))).post
    fun a _ _ _ => by cases a <;> trivial
  revert h r _ := (mintClaim_update _ rfl rfl rfl (Or.inr (Or.inr rfl))).post
    fun a _ _ _ => by cases a <;> trivial
  notify _ := performs_webhook fun _ _ h => h
  record _ := by
    refine performs_auditLog ?_
    intro s w hi _ hw
    have hc : w.base.calls = s.1.base.calls := by rw [hw.base]; rfl
    exact ⟨(w, s.2), rfl, hi.keep hw.deposits (hc ▸ hi.calls) fun h => hc ▸ hi.unclaimed h,
      fun j _ => .same (by rw [hc]) (mintRefused_of_same hw.deposits), trivial⟩

theorem mintClaim_starts (cfg : Config) (ι : Type) (id : ObjectId) (n : Nat) :
    (mintClaimRules cfg ι id n).Starts := by
  intro i t s hi _ hready
  cases t with
  | signMint mode job =>
      cases mode with
      | safeProposal => cases hready
      | directEoa =>
          have hid : job.depositId = id := by
            simpa [service, Faults.guarded, mintRuns] using hready
          subst hid
          exact (mintClaimOutline cfg n job i).signMint rfl s hi trivial
  | _ => cases hready

end Outline

/-- Two runs that both read the row before either claims it both broadcast. -/
def overlappingMints : List (Event JsError Bool Task EnvEvent) :=
  [.start true (.signMint .directEoa Sample.mintJob),
    .start false (.signMint .directEoa Sample.mintJob),
    .step true .done, .step false .done, .step true .done, .step false .done,
    .step true .done, .step false .done]

theorem overlapping_mints_call_twice : ∃ q,
    (service Sample.config (mintRuns Bool 0)).exec (.init Sample.mintWorld)
      overlappingMints = some q ∧
    q.world.base.calls.length = Sample.mintWorld.base.calls.length + 2 ∧
    q.world.base.txs.length = Sample.mintWorld.base.txs.length + 2 :=
  ⟨_, rfl, rfl, rfl⟩

/-- As long as no run claims the row while it is MINTING with neither identifier
on file, all runs together call `writeContract` at most once. -/
theorem mint_called_once (cfg : Config) {ι : Type} [DecidableEq ι] (id : ObjectId)
    {w : World} {d : DepositDoc} (hd : w.deposits.get id = some d)
    (hst : d.status = .confirmed) (hhash : d.baseMintTxHash = none)
    (hsafe : d.safeTxHash = none) {q : Pool Op JsError World ι}
    {es : List (Event JsError ι Task EnvEvent)}
    (hq : (service cfg (mintRuns ι id)).exec (.init w) es = some q)
    (hc : (service cfg (mintRuns ι id)).meets (claimsFreshRow id) (.init w) es = true) :
    q.world.base.calls.length ≤ w.base.calls.length + 1 := by
  have hinv : MintClaimed id w.base.calls.length (w, (none : Option ι)) :=
    ⟨⟨d, hd, hsafe, fun _ => ⟨hst, hhash⟩, fun h => absurd rfl h⟩, Nat.le_succ _,
      fun _ => rfl⟩
  have hinit : (mintClaimRules cfg ι id w.base.calls.length).Good (.init w) (w, none) :=
    .init rfl hinv fun _ => trivial
  have hexec := System.exec_guarded _ hq hc
  rw [service_guarded] at hexec
  obtain ⟨t, ht, _⟩ := hinit.exec (fun _ _ _ => trivial) (mintClaim_starts cfg ι id _) hexec
  rw [← ht.world]
  exact ht.inv.calls

/-- One run after the other meets the condition. -/
def successiveMints : List (Event JsError Bool Task EnvEvent) :=
  [.start true (.signMint .directEoa Sample.mintJob), .step true .done, .step true .done,
    .step true .done, .step true .done,
    .start false (.signMint .directEoa Sample.mintJob), .step false .done]

theorem successive_mints_call_once : ∃ q,
    (service Sample.config (mintRuns Bool 0)).exec (.init Sample.mintWorld)
      successiveMints = some q ∧
    q.world.base.calls.length ≤ Sample.mintWorld.base.calls.length + 1 := by
  obtain ⟨q, hq⟩ : ∃ q, (service Sample.config (mintRuns Bool 0)).exec
      (.init Sample.mintWorld) successiveMints = some q := ⟨_, rfl⟩
  exact ⟨q, hq, mint_called_once Sample.config 0 rfl rfl rfl rfl hq rfl⟩

end FairBridge
